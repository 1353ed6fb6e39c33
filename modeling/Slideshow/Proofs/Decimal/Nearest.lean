import Slideshow.Proofs.Decimal.Shortest

/-! Rounding to the nearest double-precision number, and the multiple of a power of ten that is
nearest to such a number. -/

namespace Slideshow

namespace Binary64

variable {x : Binary64} {q : ℚ}

/-! ### Rounding to the nearest number -/

/-- A ratio rounds to a number that no other is nearer to; of two that are equally near, to the one
with the even magnitude. The magnitudes of the infinities and beyond count as the numbers that they
would be if there were no largest one. -/
def RoundsTo (q : ℚ) (x : Binary64) : Prop :=
  ∀ n, n ≠ x.magnitude →
    if x.magnitude % 2 = 0 then |q - valueOf x.magnitude| ≤ |q - valueOf n|
    else |q - valueOf x.magnitude| < |q - valueOf n|

theorem abs_sub_lt_left {a b : ℚ} (h : a < b) : |q - a| < |q - b| ↔ q < (a + b) / 2 := by
  constructor
  · intro hNear
    by_contra hFar
    obtain ⟨hAbs, -⟩ | ⟨hAbs, -⟩ := abs_cases (q - b) <;>
      rw [abs_of_nonneg (by linarith : 0 ≤ q - a), hAbs] at hNear <;> linarith
  · intro hBelow
    rw [abs_of_nonpos (by linarith : q - b ≤ 0), abs_lt]
    constructor <;> linarith

theorem abs_sub_lt_right {a b : ℚ} (h : a < b) : |q - b| < |q - a| ↔ (a + b) / 2 < q := by
  have hMirror := abs_sub_lt_left (q := -q) (neg_lt_neg h)
  rw [← abs_neg, ← abs_neg (-q - -a)] at hMirror
  have hSum : -q < (-b + -a) / 2 ↔ (a + b) / 2 < q := by
    constructor <;> intro <;> linarith
  rw [← hSum, ← hMirror]
  ring_nf

/-- What rounds to a number is what lies between the midpoints to its neighbours. -/
theorem roundsTo_iff (hZero : x.isZero = false) : RoundsTo q x ↔ x.rounding.Contains q := by
  simp only [isZero, beq_eq_false_iff_ne] at hZero
  obtain ⟨m, hm⟩ := Nat.exists_eq_add_one_of_ne_zero hZero
  have hBelow {n : Nat} (h : n < m + 1) : (valueOf n + valueOf (m + 1)) / 2 ≤ midpoint m := by
    have := valueOf_strictMono.monotone (Nat.lt_succ_iff.1 h)
    rw [midpoint_eq]
    linarith
  have hAbove {n : Nat} (h : m + 1 < n) : midpoint (m + 1) ≤ (valueOf (m + 1) + valueOf n) / 2 := by
    have := valueOf_strictMono.monotone (Nat.succ_le_of_lt h)
    rw [midpoint_eq]
    linarith
  have hLess (n : Nat) : valueOf n < valueOf (n + 1) := valueOf_strictMono n.lt_succ_self
  rw [contains_iff hm, RoundsTo, hm]
  split
  · constructor
    · intro h
      have hLow := h m (by omega)
      have hHigh := h (m + 1 + 1) (by omega)
      rw [← not_lt, abs_sub_lt_left (hLess m), not_lt, ← midpoint_eq] at hLow
      rw [← not_lt, abs_sub_lt_right (hLess (m + 1)), not_lt, ← midpoint_eq] at hHigh
      exact ⟨hLow, hHigh⟩
    · rintro ⟨hLow, hHigh⟩ n hn
      obtain hSmall | hLarge := lt_or_gt_of_ne hn
      · rw [← not_lt, abs_sub_lt_left (valueOf_strictMono hSmall), not_lt]
        exact (hBelow hSmall).trans hLow
      · rw [← not_lt, abs_sub_lt_right (valueOf_strictMono hLarge), not_lt]
        exact hHigh.trans (hAbove hLarge)
  · constructor
    · intro h
      have hLow := h m (by omega)
      have hHigh := h (m + 1 + 1) (by omega)
      rw [abs_sub_lt_right (hLess m), ← midpoint_eq] at hLow
      rw [abs_sub_lt_left (hLess (m + 1)), ← midpoint_eq] at hHigh
      exact ⟨hLow, hHigh⟩
    · rintro ⟨hLow, hHigh⟩ n hn
      obtain hSmall | hLarge := lt_or_gt_of_ne hn
      · rw [abs_sub_lt_right (valueOf_strictMono hSmall)]
        exact (hBelow hSmall).trans_lt hLow
      · rw [abs_sub_lt_left (valueOf_strictMono hLarge)]
        exact hHigh.trans_le (hAbove hLarge)

/-! ### The nearest multiple of a power of ten -/

theorem rounding_value (x : Binary64) :
    x.rounding.value * (2 : ℚ) ^ x.rounding.quarter = valueOf x.magnitude := by
  rw [rounding, valueOf, significand_eq, exponent_eq]
  simp only
  rw [zpow_sub₀ (by norm_num)]
  push_cast
  ring

/-- A number rounds to itself. -/
theorem contains_valueOf (hZero : x.isZero = false) : x.rounding.Contains (valueOf x.magnitude) := by
  obtain ⟨below, hOne, -, hLow, -⟩ := exists_below hZero
  have hHigh : x.rounding.high = x.rounding.value + 2 := rfl
  have hQuarter : (0 : ℚ) < 2 ^ x.rounding.quarter := by positivity
  rw [← rounding_value]
  refine contains_of_lt (mul_lt_mul_of_pos_right ?_ hQuarter) (mul_lt_mul_of_pos_right ?_ hQuarter)
  · exact_mod_cast (by omega : x.rounding.low < x.rounding.value)
  · exact_mod_cast (by omega : x.rounding.value < x.rounding.high)

namespace Rounding

variable {r : Rounding} {k : Int} {a c : Nat}

/-- There are no gaps in an interval. -/
theorem Contains.between {low high : ℚ} (hLow : r.Contains low) (hHigh : r.Contains high)
    (h : low ≤ q) (h' : q ≤ high) : r.Contains q := by
  rw [Contains] at hLow hHigh ⊢
  split at hLow
  · rename_i hClosed
    rw [if_pos hClosed] at hHigh ⊢
    exact ⟨hLow.1.trans h, h'.trans hHigh.2⟩
  · rename_i hOpen
    rw [if_neg hOpen] at hHigh ⊢
    exact ⟨hLow.1.trans_le h, h'.trans_lt hHigh.2⟩

/-- What is taken is one of the two multiples next to the number, and not the one that is further
away if both round to the number; halfway between them it is the larger. -/
theorem nearest?_up_cases (h : r.nearest? .up k = some c) :
    c = r.floor k ∧ (r.Contains ((r.floor k + 1 : Nat) * (10 : ℚ) ^ k) →
        2 * (r.value * (2 : ℚ) ^ r.quarter - r.floor k * (10 : ℚ) ^ k) < (10 : ℚ) ^ k) ∨
      c = r.floor k + 1 ∧ (r.Contains (r.floor k * (10 : ℚ) ^ k) →
        (10 : ℚ) ^ k ≤ 2 * (r.value * (2 : ℚ) ^ r.quarter - r.floor k * (10 : ℚ) ^ k)) := by
  rw [← holds_iff, ← holds_iff, ← twice_mod_lt_iff, ← not_lt, ← twice_mod_lt_iff, not_lt]
  simp only [nearest?] at h
  rw [floor]
  generalize r.value * (r.scale k).1 / (r.scale k).2 = floor at h
  cases hFloor : r.holds k floor <;> cases hNext : r.holds k (floor + 1) <;>
    simp only [hFloor, hNext, reduceCtorEq, Option.some.injEq] at h
  · exact .inr ⟨h.symm, fun hFalse => absurd hFalse Bool.false_ne_true⟩
  · exact .inl ⟨h.symm, fun hFalse => absurd hFalse Bool.false_ne_true⟩
  · split at h
    · rename_i hLower
      exact .inl ⟨(Option.some.inj h).symm, fun _ => hLower⟩
    · rename_i hUpper
      refine .inr ⟨?_, fun _ => not_lt.1 hUpper⟩
      split at h <;> exact (Option.some.inj h).symm

/-- The multiple taken is the nearest of those that round to the number, and the larger of two that
are equally near. -/
theorem nearest_of_nearest?_up (h : r.nearest? .up k = some c)
    (hCenter : r.Contains (r.value * (2 : ℚ) ^ r.quarter)) (ha : r.Contains (a * (10 : ℚ) ^ k)) :
    |c * (10 : ℚ) ^ k - r.value * (2 : ℚ) ^ r.quarter| ≤
        |a * (10 : ℚ) ^ k - r.value * (2 : ℚ) ^ r.quarter| ∧
      (|c * (10 : ℚ) ^ k - r.value * (2 : ℚ) ^ r.quarter| =
        |a * (10 : ℚ) ^ k - r.value * (2 : ℚ) ^ r.quarter| → a ≤ c) := by
  have hBelow := r.floor_le k
  have hAbove := r.lt_floor_succ k
  have hCases := nearest?_up_cases h
  have hUnit : (0 : ℚ) < 10 ^ k := by positivity
  generalize r.value * (2 : ℚ) ^ r.quarter = v at *
  generalize r.floor k = floor at *
  have hNext : ((floor + 1 : Nat) : ℚ) * 10 ^ k = floor * 10 ^ k + 10 ^ k := by
    push_cast
    ring
  obtain hSmall | hLarge : a ≤ floor ∨ floor + 1 ≤ a := by omega
  · have hLess : (a : ℚ) * 10 ^ k ≤ floor * 10 ^ k :=
      mul_le_mul_of_nonneg_right (by exact_mod_cast hSmall) hUnit.le
    rw [abs_of_nonpos (by linarith : (a : ℚ) * 10 ^ k - v ≤ 0)]
    obtain ⟨rfl, -⟩ | ⟨rfl, hHalf⟩ := hCases
    · rw [abs_of_nonpos (by linarith : (c : ℚ) * 10 ^ k - v ≤ 0)]
      exact ⟨by linarith, fun _ => hSmall⟩
    · have := hHalf (ha.between hCenter hLess hBelow)
      rw [hNext, abs_of_nonneg (by linarith)]
      exact ⟨by linarith, fun _ => by omega⟩
  · have hMore : ((floor + 1 : Nat) : ℚ) * 10 ^ k ≤ a * 10 ^ k :=
      mul_le_mul_of_nonneg_right (by exact_mod_cast hLarge) hUnit.le
    rw [abs_of_nonneg (by linarith : 0 ≤ (a : ℚ) * 10 ^ k - v)]
    obtain ⟨rfl, hHalf⟩ | ⟨rfl, -⟩ := hCases
    · have := hHalf (hCenter.between ha hAbove.le hMore)
      rw [abs_of_nonpos (by linarith : (c : ℚ) * 10 ^ k - v ≤ 0)]
      exact ⟨by linarith, fun hSame => absurd hSame (ne_of_lt (by linarith))⟩
    · rw [abs_of_nonneg (by linarith : 0 ≤ ((floor + 1 : Nat) : ℚ) * 10 ^ k - v)]
      refine ⟨by linarith, fun hSame => ?_⟩
      have hEq : (a : ℚ) * 10 ^ k ≤ (floor + 1 : Nat) * 10 ^ k := by linarith
      exact_mod_cast le_of_mul_le_mul_right hEq hUnit

/-- Something is taken if any multiple of `10 ^ k` rounds to the number. -/
theorem exists_nearest?_of_contains (tie : Tie)
    (hCenter : r.Contains (r.value * (2 : ℚ) ^ r.quarter)) (ha : r.Contains (a * (10 : ℚ) ^ k)) :
    ∃ c, r.nearest? tie k = some c := by
  refine exists_nearest? tie fun floor hBelow hAbove => ?_
  have hUnit : (0 : ℚ) < 10 ^ k := by positivity
  obtain hSmall | hLarge : a ≤ floor ∨ floor + 1 ≤ a := by omega
  · exact .inl (ha.between hCenter
      (mul_le_mul_of_nonneg_right (by exact_mod_cast hSmall) hUnit.le) hBelow)
  · exact .inr (hCenter.between ha hAbove.le
      (mul_le_mul_of_nonneg_right (by exact_mod_cast hLarge) hUnit.le))

end Rounding

end Binary64

end Slideshow
