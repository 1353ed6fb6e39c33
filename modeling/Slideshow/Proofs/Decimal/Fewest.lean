import Slideshow.Proofs.Decimal.Nearest
import Slideshow.Proofs.Decimal.Written

/-! The shortest decimal of a double-precision number, told without the search that finds it. Of the
decimals that round to the number it has the fewest digits; of those with as few digits it is the
nearest to the number, and the larger one where two are equally near. One decimal is all that. -/

namespace Slideshow

/-! ### Decimals without zeros at the end -/

namespace Decimal

theorem significand_ofUnits_le (units : Nat) (exponent : Int) :
    (ofUnits units exponent).significand ≤ units := by
  induction units, exponent using ofUnits.induct with
  | case1 units exponent h ih =>
    rw [ofUnits, if_pos h]
    omega
  | case2 units exponent h =>
    rw [ofUnits, if_neg h]

/-- No zero is left at the end. -/
theorem significand_ofUnits_mod (units : Nat) (exponent : Int)
    (h : 0 < (ofUnits units exponent).significand) :
    (ofUnits units exponent).significand % 10 ≠ 0 := by
  induction units, exponent using ofUnits.induct with
  | case1 units exponent hZero ih =>
    rw [ofUnits, if_pos hZero] at h ⊢
    exact ih h
  | case2 units exponent hSome =>
    rw [ofUnits, if_neg hSome] at h ⊢
    exact fun hMod => hSome ⟨h, hMod⟩

theorem exponent_le_of_value_eq {d d' : Decimal} (h : d.significand % 10 ≠ 0)
    (hValue : d.value = d'.value) : d'.exponent ≤ d.exponent := by
  by_contra hLess
  obtain ⟨n, hn⟩ : ∃ n : Nat, d'.exponent = n + 1 + d.exponent :=
    ⟨(d'.exponent - d.exponent - 1).toNat, by omega⟩
  have hPower : (10 : ℚ) ^ d.exponent ≠ 0 := by positivity
  rw [value, value, hn, zpow_add₀ (by norm_num), ← mul_assoc, mul_left_inj' hPower] at hValue
  have hUnits : d.significand = d'.significand * 10 ^ (n + 1) := by exact_mod_cast hValue
  rw [hUnits, pow_succ, ← mul_assoc, Nat.mul_mod_left] at h
  exact h rfl

/-- Without zeros at the end there is one decimal of a value. -/
theorem eq_of_value_eq {d d' : Decimal} (h : d.significand % 10 ≠ 0) (h' : d'.significand % 10 ≠ 0)
    (hValue : d.value = d'.value) : d = d' := by
  have hExponent := le_antisymm (exponent_le_of_value_eq h' hValue.symm)
    (exponent_le_of_value_eq h hValue)
  have hPower : (10 : ℚ) ^ d'.exponent ≠ 0 := by positivity
  rw [value, value, hExponent, mul_left_inj' hPower, Nat.cast_inj] at hValue
  obtain ⟨significand, exponent⟩ := d
  obtain ⟨significand', exponent'⟩ := d'
  obtain rfl := hExponent
  obtain rfl := hValue
  rfl

/-- A power of ten loses all its zeros. -/
theorem length_digits_ofUnits {units more : Nat} (exponent : Int) (h : units ≤ 10 ^ (more + 1)) :
    (ofUnits units exponent).digits.length ≤ more + 1 := by
  rw [digits, Nat.length_toDigits_le_iff (by decide) more.succ_pos]
  have hLe := (significand_ofUnits_le units exponent).trans h
  obtain hNone | hPos := Nat.eq_zero_or_pos (ofUnits units exponent).significand
  · rw [hNone]
    positivity
  · have hMod := significand_ofUnits_mod units exponent hPos
    refine lt_of_le_of_ne hLe fun hTen => hMod ?_
    rw [hTen, pow_succ, Nat.mul_mod_left]

end Decimal

namespace Binary64

variable {x : Binary64}

/-! ### Numbers of digits -/

theorem lt_zpow_neg_mul {num den n : Nat} (h : num * 10 ^ n < den) :
    (num : ℚ) < (10 : ℚ) ^ (-(n : Int)) * den := by
  have hPos : (0 : ℚ) < 10 ^ n := by positivity
  rw [zpow_neg, zpow_natCast, lt_inv_mul_iff₀ hPos, mul_comm]
  exact_mod_cast h

/-- The power of ten above that of the first digit is above the number. -/
theorem lt_zpow_decade {num den : Nat} (hNum : 0 < num) (hDen : 0 < den) :
    (num : ℚ) / den < (10 : ℚ) ^ (decade num den + 1) := by
  have hPos : (0 : ℚ) < den := by exact_mod_cast hDen
  rw [div_lt_iff₀ hPos, decade]
  split
  · have hDigits := (Nat.div_lt_iff_lt_mul hDen).1 (lt_pow_length_toDigits (num / den))
    rw [sub_add_cancel, zpow_natCast]
    exact_mod_cast hDigits
  · rename_i hSmall
    have hPlaces := Nat.length_toDigits_pos (b := 10) (n := den / num)
    have hDigits := pow_length_toDigits_le (Nat.div_pos (not_le.1 hSmall).le hNum)
    rw [Nat.le_div_iff_mul_le hNum, Nat.mul_comm] at hDigits
    simp only
    split
    · have hTen : num * 10 ^ ((Nat.toDigits 10 (den / num)).length - 1) < den * 10 := by omega
      rw [zpow_add_one₀ (by norm_num), mul_assoc, mul_comm 10]
      exact_mod_cast lt_zpow_neg_mul hTen
    · rename_i hPower
      have hLast : -((Nat.toDigits 10 (den / num)).length : Int) + 1 =
          -((Nat.toDigits 10 (den / num)).length - 1 : Nat) := by omega
      rw [hLast]
      exact lt_zpow_neg_mul (not_le.1 hPower)

theorem lt_zpow_firstPlace (hZero : x.isZero = false) :
    valueOf x.magnitude < (10 : ℚ) ^ (x.firstPlace + 1) := by
  obtain ⟨hNum, hDen, hRatio⟩ := scale_zero hZero
  rw [← rounding_value, ← hRatio]
  exact lt_zpow_decade hNum hDen

/-- A decimal that rounds to a number is a multiple of every power of ten that leaves room for its
digits, or such a multiple is nearer to the number. -/
theorem exists_multiple (hZero : x.isZero = false) {d : Decimal} (h : RoundsTo d.value x)
    {more : Nat} (hDigits : d.digits.length ≤ more + 1) :
    ∃ a : Nat, x.rounding.Contains (a * (10 : ℚ) ^ (x.firstPlace - more)) ∧
      (a * (10 : ℚ) ^ (x.firstPlace - more) = d.value ∨
        |a * (10 : ℚ) ^ (x.firstPlace - more) - valueOf x.magnitude| <
          |d.value - valueOf x.magnitude|) := by
  rw [roundsTo_iff hZero] at h
  by_cases hPlace : x.firstPlace ≤ d.leading
  · obtain ⟨n, hShift⟩ : ∃ n : Nat, d.exponent = n + (x.firstPlace - more) := by
      have := d.exponent_eq
      exact ⟨(d.exponent - (x.firstPlace - more)).toNat, by omega⟩
    have hValue : ((d.significand * 10 ^ n : Nat) : ℚ) * 10 ^ (x.firstPlace - more) = d.value := by
      rw [Decimal.value, hShift, zpow_add₀ (by norm_num), zpow_natCast]
      push_cast
      ring
    exact ⟨_, hValue ▸ h, .inl hValue⟩
  · -- The decimal has no digit as high as the first of the number, whose power is between the two.
    have hFirst : ((10 ^ more : Nat) : ℚ) * 10 ^ (x.firstPlace - more) = 10 ^ x.firstPlace := by
      rw [zpow_sub₀ (by norm_num), zpow_natCast]
      push_cast
      field_simp
    have hLess : d.value < (10 : ℚ) ^ x.firstPlace :=
      d.value_lt.trans_le (zpow_le_zpow_right₀ (by norm_num) (by omega))
    have hBelow := zpow_firstPlace_le hZero
    rw [rounding_value] at hBelow
    refine ⟨10 ^ more, ?_, .inr ?_⟩
    · rw [hFirst]
      exact h.between (contains_valueOf hZero) hLess.le hBelow
    · rw [hFirst, abs_of_nonpos (by linarith), abs_of_nonpos (by linarith)]
      linarith

/-- No more digits are taken than the power of ten leaves room for. -/
theorem le_of_nearest?_up (hZero : x.isZero = false) {more c : Nat}
    (h : x.rounding.nearest? .up (x.firstPlace - more) = some c) : c ≤ 10 ^ (more + 1) := by
  have hUnit : (0 : ℚ) < 10 ^ (x.firstPlace - more) := by positivity
  have hPower : (10 : ℚ) ^ (x.firstPlace + 1) =
      ((10 ^ (more + 1) : Nat) : ℚ) * 10 ^ (x.firstPlace - more) := by
    push_cast
    rw [← zpow_natCast, ← zpow_add₀ (by norm_num)]
    congr 1
    push_cast
    ring
  have hBelow := x.rounding.floor_le (x.firstPlace - more)
  rw [rounding_value] at hBelow
  have hLess := hBelow.trans_lt (lt_zpow_firstPlace hZero)
  rw [hPower, mul_lt_mul_iff_of_pos_right hUnit, Nat.cast_lt] at hLess
  obtain ⟨rfl, -⟩ | ⟨rfl, -⟩ := Rounding.nearest?_up_cases h
  · exact hLess.le
  · exact hLess

theorem contains_value (hZero : x.isZero = false) :
    x.rounding.Contains (x.rounding.value * (2 : ℚ) ^ x.rounding.quarter) :=
  rounding_value x ▸ contains_valueOf hZero

/-- What is taken is at least as near as every decimal with as few digits. -/
theorem nearest_of_taken (hZero : x.isZero = false) {more c : Nat}
    (hTaken : x.rounding.nearest? .up (x.firstPlace - more) = some c) {d : Decimal}
    (h : RoundsTo d.value x) (hDigits : d.digits.length ≤ more + 1) :
    |c * (10 : ℚ) ^ (x.firstPlace - more) - valueOf x.magnitude| ≤ |d.value - valueOf x.magnitude| ∧
      (|c * (10 : ℚ) ^ (x.firstPlace - more) - valueOf x.magnitude| =
        |d.value - valueOf x.magnitude| → d.value ≤ c * (10 : ℚ) ^ (x.firstPlace - more)) := by
  obtain ⟨a, ha, hMultiple⟩ := exists_multiple hZero h hDigits
  obtain ⟨hLe, hLarger⟩ := Rounding.nearest_of_nearest?_up hTaken (contains_value hZero) ha
  rw [rounding_value] at hLe hLarger
  obtain hSame | hFurther := hMultiple
  · rw [← hSame]
    refine ⟨hLe, fun hEqual => ?_⟩
    exact mul_le_mul_of_nonneg_right (by exact_mod_cast hLarger hEqual) (by positivity)
  · have hLess := hLe.trans_lt hFurther
    exact ⟨hLess.le, fun hEqual => absurd hEqual hLess.ne⟩

/-- Where nothing is taken, every decimal that rounds to the number has more digits. -/
theorem lt_length_of_nearest?_none (hZero : x.isZero = false) {fewer : Nat}
    (hNone : x.rounding.nearest? .up (x.firstPlace - fewer) = none) {d : Decimal}
    (h : RoundsTo d.value x) : fewer + 1 < d.digits.length := by
  by_contra hDigits
  obtain ⟨a, ha, -⟩ := exists_multiple hZero h (not_lt.1 hDigits)
  obtain ⟨c, hTaken⟩ := Rounding.exists_nearest?_of_contains .up (contains_value hZero) ha
  rw [hNone] at hTaken
  exact nomatch hTaken

/-! ### The shortest decimal -/

/-- A decimal with the fewest digits of those that round to a number; of those with as few it is the
nearest to the number, and the larger one where two are equally near. -/
structure IsShortest (x : Binary64) (d : Decimal) : Prop where
  rounds : RoundsTo d.value x
  fewest : ∀ other : Decimal, RoundsTo other.value x → d.digits.length ≤ other.digits.length
  nearest : ∀ other : Decimal, RoundsTo other.value x → other.digits.length = d.digits.length →
    |d.value - valueOf x.magnitude| ≤ |other.value - valueOf x.magnitude|
  larger : ∀ other : Decimal, RoundsTo other.value x → other.digits.length = d.digits.length →
    |d.value - valueOf x.magnitude| = |other.value - valueOf x.magnitude| → other.value ≤ d.value

/-- What the search finds is the shortest decimal. -/
theorem isShortest_shortest (hZero : x.isZero = false) : x.IsShortest (x.shortest .up) := by
  obtain ⟨more, c, hTaken, hFewer, hShortest⟩ := exists_shortest .up hZero
  have hRounds := (roundsTo_iff hZero).2 (contains_shortest .up hZero)
  have hDigits : (x.shortest .up).digits.length ≤ more + 1 := by
    rw [hShortest]
    exact Decimal.length_digits_ofUnits _ (le_of_nearest?_up hZero hTaken)
  have hNear {other : Decimal} (h : RoundsTo other.value x)
      (hLength : other.digits.length = (x.shortest .up).digits.length) :=
    nearest_of_taken hZero hTaken h (hLength ▸ hDigits)
  rw [← Decimal.value_ofUnits, ← hShortest] at hNear
  refine ⟨hRounds, fun other h => ?_, fun other h hLength => (hNear h hLength).1,
    fun other h hLength => (hNear h hLength).2⟩
  -- A decimal with fewer digits would have been found at an earlier power of ten.
  by_contra hShorter
  have hPos := other.digits_pos
  have := lt_length_of_nearest?_none hZero (hFewer (other.digits.length - 1) (by omega)) h
  omega

namespace IsShortest

variable {d d' : Decimal}

theorem significand_pos (hFinite : x.isFinite = true) (hZero : x.isZero = false)
    (h : x.IsShortest d) : 0 < d.significand :=
  significand_pos_of_contains hFinite hZero ((roundsTo_iff hZero).1 h.rounds)

/-- A zero at the end would be a digit too many. -/
theorem significand_mod (hPos : 0 < d.significand) (h : x.IsShortest d) :
    d.significand % 10 ≠ 0 := by
  intro hMod
  have hUnits : d.significand = 10 * (d.significand / 10) := by omega
  have hValue : (⟨d.significand / 10, d.exponent + 1⟩ : Decimal).value = d.value := by
    rw [Decimal.value, Decimal.value, zpow_add_one₀ (by norm_num)]
    conv_rhs => rw [hUnits]
    push_cast
    ring
  have hFewest := h.fewest _ (hValue ▸ h.rounds)
  rw [Decimal.digits, Decimal.digits, Nat.toDigits_of_base_le (by decide) (by omega),
    List.length_append] at hFewest
  simp at hFewest

/-- There is only one. -/
theorem unique (hFinite : x.isFinite = true) (hZero : x.isZero = false) (h : x.IsShortest d)
    (h' : x.IsShortest d') : d = d' := by
  have hLength := le_antisymm (h.fewest d' h'.rounds) (h'.fewest d h.rounds)
  have hEqual := le_antisymm (h.nearest d' h'.rounds hLength.symm) (h'.nearest d h.rounds hLength)
  have hValue := le_antisymm (h'.larger d h.rounds hLength hEqual.symm)
    (h.larger d' h'.rounds hLength.symm hEqual)
  exact Decimal.eq_of_value_eq (h.significand_mod (h.significand_pos hFinite hZero))
    (h'.significand_mod (h'.significand_pos hFinite hZero)) hValue

end IsShortest

end Binary64

end Slideshow
