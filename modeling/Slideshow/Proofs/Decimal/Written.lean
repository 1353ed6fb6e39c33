import Slideshow.Proofs.Decimal.Shortest

/-! The texts of double-precision numbers. A text reads back as a decimal that rounds to the number it
was written for, with the sign of the number. -/

namespace Slideshow

open Binary64 (readDecimal? exponentCap infiniteMagnitude)

namespace Binary64

variable {x : Binary64} {q : ℚ}

theorem isNaN_of_isFinite (h : x.isFinite = true) : x.isNaN = false := by
  simp only [isFinite, isNaN, decide_eq_true_eq, decide_eq_false_iff_not] at h ⊢
  omega

theorem isInfinite_of_isFinite (h : x.isFinite = true) : x.isInfinite = false := by
  simp only [isFinite, isInfinite, decide_eq_true_eq, beq_eq_false_iff_ne] at h ⊢
  omega

theorem le_midpoint_zero : (10 : ℚ) ^ (-1075 : Int) ≤ midpoint 0 := by
  have hMidpoint : midpoint 0 = (2 : ℚ) ^ (-1075 : Int) := by
    rw [midpoint, valueOf, show unitsOf 0 = 0 from rfl, show placeOf 0 = -1074 from rfl,
      Nat.cast_zero, zero_mul, zero_add, div_eq_mul_inv, ← zpow_sub_one₀ (by norm_num)]
    rfl
  rw [hMidpoint, zpow_neg, zpow_neg]
  refine inv_anti₀ (by positivity) (zpow_le_zpow_left₀ (by decide) (by norm_num) (by norm_num))

theorem valueOf_infinite_le : valueOf infiniteMagnitude ≤ (10 : ℚ) ^ (1024 : Int) := by
  have hValue : valueOf infiniteMagnitude = (2 : ℚ) ^ (1024 : Int) := by
    rw [valueOf, show unitsOf infiniteMagnitude = 2 ^ 52 from rfl,
      show placeOf infiniteMagnitude = 972 from rfl, Nat.cast_pow, ← zpow_natCast, Nat.cast_ofNat,
      ← zpow_add₀ (by norm_num)]
    rfl
  rw [hValue]
  exact zpow_le_zpow_left₀ (by decide) (by norm_num) (by norm_num)

/-- What rounds to a number other than zero is neither too small nor too large. -/
theorem bounds_of_contains (hFinite : x.isFinite = true) (hZero : x.isZero = false)
    (h : x.rounding.Contains q) : (10 : ℚ) ^ (-1075 : Int) ≤ q ∧ q < (10 : ℚ) ^ (1024 : Int) := by
  simp only [isZero, beq_eq_false_iff_ne] at hZero
  obtain ⟨n, hn⟩ := Nat.exists_eq_add_one_of_ne_zero hZero
  rw [isFinite, decide_eq_true_eq, hn] at hFinite
  have hEnds : midpoint n ≤ q ∧ q ≤ midpoint (n + 1) := by
    rw [contains_iff hn] at h
    split at h
    · exact h
    · exact ⟨h.1.le, h.2.le⟩
  have hSmallest := midpoint_strictMono.monotone (Nat.zero_le n)
  have hLargest : midpoint (n + 1) < valueOf infiniteMagnitude := by
    have hNext := valueOf_strictMono (Nat.lt_succ_self (n + 1))
    have hMax := valueOf_strictMono.monotone (Nat.succ_le_of_lt hFinite)
    rw [midpoint_eq]
    linarith
  exact ⟨le_midpoint_zero.trans (hSmallest.trans hEnds.1),
    (hEnds.2.trans_lt hLargest).trans_le valueOf_infinite_le⟩

theorem significand_pos_of_contains (hFinite : x.isFinite = true) (hZero : x.isZero = false)
    {d : Decimal} (h : x.rounding.Contains d.value) : 0 < d.significand := by
  have hLow := (bounds_of_contains hFinite hZero h).1
  refine Nat.pos_of_ne_zero fun hNone => ?_
  rw [Decimal.value, hNone, Nat.cast_zero, zero_mul] at hLow
  exact absurd hLow (not_le.2 (by positivity))

theorem significand_shortest_pos (tie : Tie) (hFinite : x.isFinite = true)
    (hZero : x.isZero = false) : 0 < (x.shortest tie).significand :=
  significand_pos_of_contains hFinite hZero (contains_shortest tie hZero)

/-- The power of ten of the first digit of a shortest decimal is one that can be read. -/
theorem natAbs_leading_shortest (tie : Tie) (hFinite : x.isFinite = true)
    (hZero : x.isZero = false) : (x.shortest tie).leading.natAbs ≤ exponentCap := by
  obtain ⟨hLow, hHigh⟩ := bounds_of_contains hFinite hZero (contains_shortest tie hZero)
  have hPos := significand_shortest_pos tie hFinite hZero
  have hBelow := (zpow_lt_zpow_iff_right₀ (by norm_num)).1 (hLow.trans_lt (Decimal.value_lt _))
  have hAbove := (zpow_lt_zpow_iff_right₀ (by norm_num)).1 ((Decimal.le_value hPos).trans_lt hHigh)
  rw [exponentCap]
  omega

end Binary64

/-! ### Reading signed numbers -/

/-- The number that a text writes, with a minus sign in front of it if it is negative. -/
def readValue? : List Char → Option ℚ
  | '-' :: cs => (readDecimal? cs).map fun d => -d.value
  | cs => (readDecimal? cs).map Decimal.value

theorem readDecimal?_minus (cs : List Char) : readDecimal? ('-' :: cs) = none := by
  rw [readDecimal?]
  rfl

theorem readValue?_of_readDecimal? {cs : List Char} {d : Decimal} (h : readDecimal? cs = some d) :
    readValue? cs = some d.value := by
  rw [readValue?, h, Option.map_some]
  rintro cs rfl
  rw [readDecimal?_minus] at h
  exact nomatch h

namespace Decimal.Layout

variable {layout : Layout} {x : Binary64}

/-- The text of a number reads back as the shortest decimal, with the sign of the number. -/
theorem readValue?_writeFinite_eq (hTail : layout.tail = [] ∨ layout.tail = ['.', '0'])
    (hFinite : x.isFinite = true) (hZero : x.isZero = false) :
    readValue? (layout.writeFinite x) = some (if x.isNegative then -(x.shortest layout.tie).value
      else (x.shortest layout.tie).value) := by
  obtain ⟨r, hRead, hValue⟩ := readDecimal?_write hTail
    (x.natAbs_leading_shortest layout.tie hFinite hZero)
  rw [writeFinite, ← hValue]
  split
  · rw [readValue?, hRead, Option.map_some]
  · exact readValue?_of_readDecimal? hRead

/-- The text of a number reads back as a number of the same sign that rounds to it. -/
theorem readValue?_writeFinite (hTail : layout.tail = [] ∨ layout.tail = ['.', '0'])
    (hFinite : x.isFinite = true) (hZero : x.isZero = false) :
    ∃ q, readValue? (layout.writeFinite x) = some q ∧ x.rounding.Contains |q| ∧
      (q < 0 ↔ x.isNegative = true) := by
  have hContains := x.contains_shortest layout.tie hZero
  have hPos : 0 < (x.shortest layout.tie).value := lt_of_lt_of_le (by positivity)
    (Binary64.bounds_of_contains hFinite hZero hContains).1
  refine ⟨_, readValue?_writeFinite_eq hTail hFinite hZero, ?_⟩
  split
  · rename_i hNegative
    rw [abs_neg, abs_of_pos hPos]
    exact ⟨hContains, iff_of_true (neg_lt_zero.2 hPos) hNegative⟩
  · rename_i hPositive
    rw [abs_of_pos hPos]
    exact ⟨hContains, iff_of_false (not_lt.2 hPos.le) hPositive⟩

end Decimal.Layout

end Slideshow
