import Slideshow.Decimal.Shortest
import Slideshow.Proofs.Decimal.Value

/-! The numbers that round to a double-precision number: all between the midpoints to its neighbours,
which belong to the number with the even magnitude. So the intervals of two numbers do not meet. -/

namespace Slideshow.Binary64

/-! ### Magnitudes -/

/-- The number of units of the last place in the number of a magnitude. -/
def unitsOf (magnitude : Nat) : Nat :=
  if magnitude < Nat.pow 2 52 then magnitude else magnitude % Nat.pow 2 52 + Nat.pow 2 52

/-- The power of two of the last place of the number of a magnitude. -/
def placeOf (magnitude : Nat) : Int :=
  if magnitude < Nat.pow 2 52 then -1074 else (magnitude / Nat.pow 2 52 : Nat) - 1075

theorem significand_eq (x : Binary64) : x.significand = unitsOf x.magnitude := rfl

theorem exponent_eq (x : Binary64) : x.exponent = placeOf x.magnitude := rfl

/-- The positive number of a magnitude. -/
def valueOf (magnitude : Nat) : ℚ := unitsOf magnitude * (2 : ℚ) ^ placeOf magnitude

theorem pow_fiftyTwo : Nat.pow 2 52 = 4503599627370496 := rfl

theorem unitsOf_even (n : Nat) : unitsOf n % 2 = n % 2 := by
  rw [unitsOf, pow_fiftyTwo]
  split <;> omega

theorem unitsOf_pos {n : Nat} (h : 0 < n) : 0 < unitsOf n := by
  rw [unitsOf, pow_fiftyTwo]
  split <;> omega

theorem unitsOf_lt (n : Nat) : unitsOf n < 2 ^ 53 := by
  rw [unitsOf, pow_fiftyTwo]
  split <;> omega

/-- Either the next number is one unit further, or the units double there. -/
theorem units_succ (n : Nat) :
    unitsOf (n + 1) = unitsOf n + 1 ∧ placeOf (n + 1) = placeOf n ∨
      unitsOf n + 1 = 2 * unitsOf (n + 1) ∧ placeOf (n + 1) = placeOf n + 1 := by
  rw [unitsOf, unitsOf, placeOf, placeOf, pow_fiftyTwo]
  split <;> split <;> omega

theorem valueOf_succ (n : Nat) : valueOf (n + 1) = valueOf n + (2 : ℚ) ^ placeOf n := by
  rw [valueOf, valueOf]
  obtain ⟨hUnits, hPlace⟩ | ⟨hUnits, hPlace⟩ := units_succ n
  · rw [hUnits, hPlace]
    push_cast
    ring
  · have hCast : (unitsOf n : ℚ) + 1 = 2 * unitsOf (n + 1) := by exact_mod_cast hUnits
    calc (unitsOf (n + 1) : ℚ) * 2 ^ placeOf (n + 1)
        = 2 * unitsOf (n + 1) * (2 : ℚ) ^ placeOf n := by
          rw [hPlace, zpow_add₀ (by norm_num), zpow_one]
          ring
      _ = unitsOf n * (2 : ℚ) ^ placeOf n + (2 : ℚ) ^ placeOf n := by
          rw [← hCast]
          ring

/-- The number halfway between a magnitude and the next. -/
def midpoint (n : Nat) : ℚ := valueOf n + (2 : ℚ) ^ placeOf n / 2

theorem midpoint_eq (n : Nat) : midpoint n = (valueOf n + valueOf (n + 1)) / 2 := by
  rw [midpoint, valueOf_succ]
  ring

theorem valueOf_strictMono : StrictMono valueOf := by
  refine strictMono_nat_of_lt_succ fun n => ?_
  rw [valueOf_succ]
  have : (0 : ℚ) < 2 ^ placeOf n := by positivity
  linarith

theorem midpoint_strictMono : StrictMono midpoint := by
  intro m n h
  rw [midpoint_eq, midpoint_eq]
  have hHere := valueOf_strictMono h
  have hNext := valueOf_strictMono (Nat.succ_lt_succ h)
  linarith

/-! ### Intervals -/

namespace Rounding

/-- A number lies in the interval. -/
def Contains (r : Rounding) (q : ℚ) : Prop :=
  if r.closed then r.low * (2 : ℚ) ^ r.quarter ≤ q ∧ q ≤ r.high * (2 : ℚ) ^ r.quarter
  else r.low * (2 : ℚ) ^ r.quarter < q ∧ q < r.high * (2 : ℚ) ^ r.quarter

end Rounding

theorem rounding_high (x : Binary64) :
    x.rounding.high * (2 : ℚ) ^ x.rounding.quarter = midpoint x.magnitude := by
  rw [rounding, significand_eq, exponent_eq, midpoint, valueOf]
  simp only
  rw [zpow_sub₀ (by norm_num)]
  push_cast
  ring

/-- The unit below a number is half of its own where the number is a power of two, except for the
smallest unit there is. -/
theorem placeOf_eq (n : Nat) :
    placeOf n = if unitsOf (n + 1) = Nat.pow 2 52 ∧ -1074 < placeOf (n + 1)
      then placeOf (n + 1) - 1 else placeOf (n + 1) := by
  rw [unitsOf, placeOf, placeOf, pow_fiftyTwo]
  split <;> split <;> split <;> omega

theorem rounding_low {x : Binary64} {n : Nat} (h : x.magnitude = n + 1) :
    x.rounding.low * (2 : ℚ) ^ x.rounding.quarter = midpoint n := by
  have hUnits : 0 < unitsOf (n + 1) := unitsOf_pos n.succ_pos
  have hMidpoint : midpoint n = valueOf (n + 1) - (2 : ℚ) ^ placeOf n / 2 := by
    rw [midpoint, valueOf_succ]
    ring
  have hPlace := placeOf_eq n
  rw [rounding, significand_eq, exponent_eq, h, hMidpoint, valueOf]
  split at hPlace
  · rename_i hPower
    simp only [if_pos hPower]
    rw [hPlace, Nat.cast_sub (by omega), zpow_sub₀ (by norm_num), zpow_sub₀ (by norm_num)]
    push_cast
    ring
  · rename_i hPower
    simp only [if_neg hPower]
    rw [hPlace, Nat.cast_sub (by omega), zpow_sub₀ (by norm_num)]
    push_cast
    ring

theorem rounding_closed (x : Binary64) :
    x.rounding.closed = true ↔ x.magnitude % 2 = 0 := by
  rw [rounding]
  simp only [significand_eq, unitsOf_even, beq_iff_eq]

theorem contains_iff {x : Binary64} {n : Nat} (h : x.magnitude = n + 1) {q : ℚ} :
    x.rounding.Contains q ↔
      if (n + 1) % 2 = 0 then midpoint n ≤ q ∧ q ≤ midpoint (n + 1)
      else midpoint n < q ∧ q < midpoint (n + 1) := by
  rw [Rounding.Contains, rounding_low h, rounding_high, h]
  have hClosed := rounding_closed x
  rw [h] at hClosed
  by_cases hEven : (n + 1) % 2 = 0
  · rw [if_pos (hClosed.2 hEven), if_pos hEven]
  · rw [if_neg (mt hClosed.1 hEven), if_neg hEven]

theorem le_of_contains {x y : Binary64} {q : ℚ} {m n : Nat} (hx : x.magnitude = m + 1)
    (hy : y.magnitude = n + 1) (hxq : x.rounding.Contains q) (hyq : y.rounding.Contains q) :
    m ≤ n := by
  by_contra hLess
  have hFar : midpoint (n + 1) ≤ midpoint m := midpoint_strictMono.monotone (not_le.1 hLess)
  rw [contains_iff hx] at hxq
  rw [contains_iff hy] at hyq
  split at hxq <;> split at hyq
  · -- Neighbours are not both even.
    have hSame : midpoint (n + 1) = midpoint m := le_antisymm hFar (hxq.1.trans hyq.2)
    have := midpoint_strictMono.injective hSame
    omega
  · exact absurd (hxq.1.trans_lt hyq.2) (not_lt.2 hFar)
  · exact absurd (hxq.1.trans_le hyq.2) (not_lt.2 hFar)
  · exact absurd (hxq.1.trans hyq.2) (not_lt.2 hFar)

/-- No number rounds to two magnitudes. -/
theorem magnitude_eq_of_contains {x y : Binary64} {q : ℚ} (hx : x.isZero = false)
    (hy : y.isZero = false) (hxq : x.rounding.Contains q) (hyq : y.rounding.Contains q) :
    x.magnitude = y.magnitude := by
  simp only [isZero, beq_eq_false_iff_ne] at hx hy
  obtain ⟨m, hm⟩ := Nat.exists_eq_add_one_of_ne_zero hx
  obtain ⟨n, hn⟩ := Nat.exists_eq_add_one_of_ne_zero hy
  rw [hm, hn, le_antisymm (le_of_contains hm hn hxq hyq) (le_of_contains hn hm hyq hxq)]

/-- A number is determined by its sign and its magnitude. -/
theorem eq_of_magnitude {x y : Binary64} (hSign : x.isNegative = y.isNegative)
    (hMagnitude : x.magnitude = y.magnitude) : x = y := by
  obtain ⟨a⟩ := x
  obtain ⟨b⟩ := y
  have ha := a.toNat_lt
  have hb := b.toNat_lt
  have hBits : a.toNat = b.toNat := by
    simp only [isNegative, magnitude, show Nat.pow 2 63 = 9223372036854775808 from rfl,
      decide_eq_decide] at hSign hMagnitude
    omega
  rw [UInt64.toNat_inj.1 hBits]

end Slideshow.Binary64
