import Slideshow.Proofs.Decimal.Interval
import Slideshow.Proofs.Decimal.Layout

/-! The shortest decimal of a double-precision number rounds to it: among the decimals with seventeen
digits there is always one that does. -/

namespace Slideshow.Binary64

/-! ### Comparing with decimals -/

/-- A power is the ratio of the two whole powers that it is split into. -/
theorem zpow_mul_pow_toNat (base : Nat) (hBase : 0 < base) (k : Int) :
    (base : ℚ) ^ k * ((Nat.pow base (-k).toNat : Nat) : ℚ) = ((Nat.pow base k.toNat : Nat) : ℚ) := by
  have hne : (base : ℚ) ≠ 0 := by exact_mod_cast hBase.ne'
  simp only [Nat.pow_eq, Nat.cast_pow]
  rw [← zpow_natCast, ← zpow_natCast, ← zpow_add₀ hne]
  congr 1
  omega

namespace Rounding

variable {r : Rounding} {k : Int}

/-- Numbers of quarters and of `10 ^ k` compare as the values that they stand for. -/
theorem exists_scale (r : Rounding) (k : Int) :
    ∃ t : ℚ, 0 < t ∧ ((r.scale k).1 : ℚ) = (2 : ℚ) ^ r.quarter * t ∧
      ((r.scale k).2 : ℚ) = (10 : ℚ) ^ k * t := by
  refine ⟨((Nat.pow 2 (-r.quarter).toNat : Nat) : ℚ) * ((Nat.pow 10 (-k).toNat : Nat) : ℚ),
    ?_, ?_, ?_⟩
  · simp only [Nat.pow_eq]
    positivity
  · rw [scale, Nat.cast_mul, ← zpow_mul_pow_toNat 2 (by decide)]
    push_cast
    ring
  · rw [scale, Nat.cast_mul, ← zpow_mul_pow_toNat 10 (by decide) k]
    push_cast
    ring

theorem scale_le_iff {a c : Nat} :
    a * (r.scale k).1 ≤ c * (r.scale k).2 ↔
      (a : ℚ) * (2 : ℚ) ^ r.quarter ≤ c * (10 : ℚ) ^ k := by
  obtain ⟨t, hPos, hNum, hDen⟩ := r.exists_scale k
  rw [← Nat.cast_le (α := ℚ), Nat.cast_mul, Nat.cast_mul, hNum, hDen, ← mul_assoc, ← mul_assoc,
    mul_le_mul_iff_of_pos_right hPos]

theorem le_scale_iff {a c : Nat} :
    c * (r.scale k).2 ≤ a * (r.scale k).1 ↔
      (c : ℚ) * (10 : ℚ) ^ k ≤ a * (2 : ℚ) ^ r.quarter := by
  obtain ⟨t, hPos, hNum, hDen⟩ := r.exists_scale k
  rw [← Nat.cast_le (α := ℚ), Nat.cast_mul, Nat.cast_mul, hNum, hDen, ← mul_assoc, ← mul_assoc,
    mul_le_mul_iff_of_pos_right hPos]

theorem holds_iff {c : Nat} : r.holds k c = true ↔ r.Contains (c * (10 : ℚ) ^ k) := by
  simp only [holds, Contains]
  split
  · rw [Bool.and_eq_true, decide_eq_true_iff, decide_eq_true_iff, scale_le_iff, le_scale_iff]
  · rw [Bool.and_eq_true, decide_eq_true_iff, decide_eq_true_iff, ← not_le, ← not_le, ← not_le,
      ← not_le, le_scale_iff, scale_le_iff]

/-- The number of times that `10 ^ k` goes into the number. -/
def floor (r : Rounding) (k : Int) : Nat := r.value * (r.scale k).1 / (r.scale k).2

theorem floor_le (r : Rounding) (k : Int) :
    r.floor k * (10 : ℚ) ^ k ≤ r.value * (2 : ℚ) ^ r.quarter :=
  le_scale_iff.1 (Nat.div_mul_le_self _ _)

theorem scale_pos (r : Rounding) (k : Int) : 0 < (r.scale k).2 := by
  obtain ⟨t, hPos, -, hDen⟩ := r.exists_scale k
  rw [← Nat.cast_pos (α := ℚ), hDen]
  positivity

theorem lt_floor_succ (r : Rounding) (k : Int) :
    r.value * (2 : ℚ) ^ r.quarter < (r.floor k + 1 : Nat) * (10 : ℚ) ^ k := by
  have hNext : r.value * (r.scale k).1 < (r.floor k + 1) * (r.scale k).2 :=
    (Nat.div_lt_iff_lt_mul (r.scale_pos k)).1 (Nat.lt_succ_self _)
  exact not_le.1 (mt le_scale_iff.2 (not_le.2 hNext))

/-- The number is in the lower half between two multiples of `10 ^ k`. -/
theorem twice_mod_lt_iff :
    2 * (r.value * (r.scale k).1 % (r.scale k).2) < (r.scale k).2 ↔
      2 * (r.value * (2 : ℚ) ^ r.quarter - r.floor k * (10 : ℚ) ^ k) < (10 : ℚ) ^ k := by
  obtain ⟨t, hPos, hNum, hDen⟩ := r.exists_scale k
  have hSplit : ((r.scale k).2 : ℚ) * r.floor k +
      (r.value * (r.scale k).1 % (r.scale k).2 : Nat) = r.value * (r.scale k).1 := by
    exact_mod_cast Nat.div_add_mod (r.value * (r.scale k).1) (r.scale k).2
  rw [hNum, hDen] at hSplit
  have hRest : 2 * ((r.value * (r.scale k).1 % (r.scale k).2 : Nat) : ℚ) =
      2 * (r.value * (2 : ℚ) ^ r.quarter - r.floor k * (10 : ℚ) ^ k) * t := by
    linarith
  rw [← Nat.cast_lt (α := ℚ), Nat.cast_mul, Nat.cast_ofNat, hRest, hDen,
    mul_lt_mul_iff_of_pos_right hPos]

/-- What is taken rounds to the number. -/
theorem holds_of_nearest? {tie : Tie} {c : Nat} (h : r.nearest? tie k = some c) :
    r.holds k c = true := by
  simp only [nearest?] at h
  generalize r.value * (r.scale k).1 / (r.scale k).2 = floor at h
  cases hFloor : r.holds k floor <;> cases hNext : r.holds k (floor + 1) <;>
    simp only [hFloor, hNext, reduceCtorEq, Option.some.injEq] at h
  · rw [← h, hNext]
  · rw [← h, hFloor]
  · split at h
    · rw [← Option.some.inj h, hFloor]
    split at h
    · rw [← Option.some.inj h, hNext]
    cases tie with
    | up => rw [← Option.some.inj h, hNext]
    | even =>
      rw [← Option.some.inj h]
      obtain hEven | hOdd := Nat.mod_two_eq_zero_or_one floor
      · rw [hEven, Nat.add_zero, hFloor]
      · rw [hOdd, hNext]

/-- Something is taken if one of the multiples of `10 ^ k` next to the number rounds to it. -/
theorem exists_nearest? (tie : Tie)
    (h : ∀ c : Nat, c * (10 : ℚ) ^ k ≤ r.value * (2 : ℚ) ^ r.quarter →
      r.value * (2 : ℚ) ^ r.quarter < (c + 1 : Nat) * (10 : ℚ) ^ k →
      r.Contains (c * (10 : ℚ) ^ k) ∨ r.Contains ((c + 1 : Nat) * (10 : ℚ) ^ k)) :
    ∃ c, r.nearest? tie k = some c := by
  have hOne := h _ (r.floor_le k) (r.lt_floor_succ k)
  rw [← holds_iff, ← holds_iff] at hOne
  simp only [nearest?]
  rw [floor] at hOne
  generalize r.value * (r.scale k).1 / (r.scale k).2 = floor at hOne
  cases hFloor : r.holds k floor <;> cases hUp : r.holds k (floor + 1) <;>
    simp only [hFloor, hUp, Bool.false_eq_true, or_self] at hOne ⊢
  · exact ⟨_, rfl⟩
  · exact ⟨_, rfl⟩
  · split
    · exact ⟨_, rfl⟩
    split
    · exact ⟨_, rfl⟩
    cases tie <;> exact ⟨_, rfl⟩

end Rounding

/-! ### Seventeen digits -/

theorem zpow_neg_mul_le {num den n : Nat} (h : den ≤ num * 10 ^ n) :
    (10 : ℚ) ^ (-(n : Int)) * den ≤ num := by
  have hPos : (0 : ℚ) < 10 ^ n := by positivity
  rw [zpow_neg, zpow_natCast, inv_mul_le_iff₀ hPos, mul_comm]
  exact_mod_cast h

/-- The power of ten of the first digit is not above the number. -/
theorem zpow_decade_le {num den : Nat} (hNum : 0 < num) (hDen : 0 < den) :
    (10 : ℚ) ^ decade num den ≤ (num : ℚ) / den := by
  have hPos : (0 : ℚ) < den := by exact_mod_cast hDen
  rw [le_div_iff₀ hPos, decade]
  split
  · rename_i hLarge
    have hDigits := pow_length_toDigits_le (Nat.div_pos hLarge hDen)
    have hLength : ((Nat.toDigits 10 (num / den)).length : Int) - 1 =
        ((Nat.toDigits 10 (num / den)).length - 1 : Nat) := by
      rw [Nat.cast_sub Nat.length_toDigits_pos, Nat.cast_one]
    rw [hLength, zpow_natCast]
    exact_mod_cast (Nat.le_div_iff_mul_le hDen).1 hDigits
  · simp only
    split
    · rename_i hPlaces
      exact zpow_neg_mul_le hPlaces
    · have hDigits := lt_pow_length_toDigits (den / num)
      rw [Nat.div_lt_iff_lt_mul hNum, Nat.mul_comm] at hDigits
      exact zpow_neg_mul_le hDigits.le

variable {x : Binary64}

/-- The interval reaches down by half a unit, or by a quarter from a power of two. In either case
the number is small in terms of that. -/
theorem exists_below (hZero : x.isZero = false) :
    ∃ below : Nat, 1 ≤ below ∧ below ≤ 2 ∧ x.rounding.low + below = x.rounding.value ∧
      x.rounding.value ≤ 2 ^ 54 * below := by
  simp only [isZero, beq_eq_false_iff_ne] at hZero
  have hPos := unitsOf_pos (Nat.pos_of_ne_zero hZero)
  have hLess := unitsOf_lt x.magnitude
  rw [rounding, significand_eq]
  by_cases hPower : unitsOf x.magnitude = Nat.pow 2 52 ∧ -1074 < x.exponent
  · have hUnits := hPower.1
    rw [pow_fiftyTwo] at hUnits
    refine ⟨1, le_rfl, by decide, ?_⟩
    simp only [if_pos hPower]
    omega
  · refine ⟨2, by decide, le_rfl, ?_⟩
    simp only [if_neg hPower]
    omega

theorem contains_of_lt {r : Rounding} {q : ℚ} (hLow : r.low * (2 : ℚ) ^ r.quarter < q)
    (hHigh : q < r.high * (2 : ℚ) ^ r.quarter) : r.Contains q := by
  rw [Rounding.Contains]
  split
  · exact ⟨hLow.le, hHigh.le⟩
  · exact ⟨hLow, hHigh⟩

/-- Of two multiples of a step around a number, one rounds to it if the step is at most a part in
`10 ^ 16`. -/
theorem contains_multiple (hZero : x.isZero = false) {step : ℚ}
    (hSmall : step * 10 ^ 16 ≤ x.rounding.value * (2 : ℚ) ^ x.rounding.quarter) {c : Nat}
    (hBelow : c * step ≤ x.rounding.value * (2 : ℚ) ^ x.rounding.quarter)
    (hAbove : x.rounding.value * (2 : ℚ) ^ x.rounding.quarter < (c + 1 : Nat) * step) :
    x.rounding.Contains (c * step) ∨ x.rounding.Contains ((c + 1 : Nat) * step) := by
  obtain ⟨below, hOne, hTwo, hLow, hValue⟩ := exists_below hZero
  have hOne : (1 : ℚ) ≤ below := by exact_mod_cast hOne
  have hTwo : (below : ℚ) ≤ 2 := by exact_mod_cast hTwo
  have hLow : (x.rounding.low : ℚ) = x.rounding.value - below := by
    rw [← hLow]
    push_cast
    ring
  have hHigh : (x.rounding.high : ℚ) = x.rounding.value + 2 := by
    exact_mod_cast (rfl : x.rounding.high = x.rounding.value + 2)
  have hValue : (x.rounding.value : ℚ) ≤ 2 ^ 54 * below := by exact_mod_cast hValue
  have hQuarter : (0 : ℚ) < 2 ^ x.rounding.quarter := by positivity
  have hSum : ((c + 1 : Nat) : ℚ) * step = c * step + step := by
    push_cast
    ring
  -- The step is less than twice the distance to the lower end.
  have hShort : step < 2 * (below * (2 : ℚ) ^ x.rounding.quarter) := by
    have hUnits := mul_le_mul_of_nonneg_right hValue hQuarter.le
    have hDistance : (0 : ℚ) < below * 2 ^ x.rounding.quarter := by positivity
    linarith
  have hReach : below * (2 : ℚ) ^ x.rounding.quarter ≤ 2 * (2 : ℚ) ^ x.rounding.quarter :=
    mul_le_mul_of_nonneg_right hTwo hQuarter.le
  rw [hSum] at hAbove ⊢
  by_cases hNear : x.rounding.low * (2 : ℚ) ^ x.rounding.quarter < c * step
  · refine .inl (contains_of_lt hNear ?_)
    rw [hHigh]
    linarith
  · rw [hLow] at hNear
    refine .inr (contains_of_lt ?_ ?_)
    · rw [hLow]
      linarith
    · rw [hHigh]
      linarith

/-- The power of ten of the first digit of a number. -/
def firstPlace (x : Binary64) : Int :=
  decade (x.rounding.value * (x.rounding.scale 0).1) (x.rounding.scale 0).2

/-- The two whole numbers whose ratio is a number other than zero. -/
theorem scale_zero (hZero : x.isZero = false) :
    0 < x.rounding.value * (x.rounding.scale 0).1 ∧ 0 < (x.rounding.scale 0).2 ∧
      ((x.rounding.value * (x.rounding.scale 0).1 : Nat) : ℚ) / (x.rounding.scale 0).2 =
        x.rounding.value * (2 : ℚ) ^ x.rounding.quarter := by
  have hValue : 0 < x.rounding.value := by
    have hEq : x.rounding.value = 4 * unitsOf x.magnitude := rfl
    simp only [isZero, beq_eq_false_iff_ne] at hZero
    have := unitsOf_pos (Nat.pos_of_ne_zero hZero)
    omega
  obtain ⟨t, hPos, hNum, hDen⟩ := x.rounding.exists_scale 0
  rw [zpow_zero, one_mul] at hDen
  refine ⟨?_, ?_, ?_⟩
  · rw [← Nat.cast_pos (α := ℚ), Nat.cast_mul, hNum]
    positivity
  · rw [← Nat.cast_pos (α := ℚ), hDen]
    exact hPos
  · rw [Nat.cast_mul, hNum, hDen, ← mul_assoc, mul_div_cancel_right₀ _ hPos.ne']

theorem zpow_firstPlace_le (hZero : x.isZero = false) :
    (10 : ℚ) ^ x.firstPlace ≤ x.rounding.value * (2 : ℚ) ^ x.rounding.quarter := by
  obtain ⟨hNum, hDen, hRatio⟩ := scale_zero hZero
  rw [← hRatio]
  exact zpow_decade_le hNum hDen

/-- Seventeen digits are enough. -/
theorem exists_seventeen (tie : Tie) (hZero : x.isZero = false) :
    ∃ c, x.rounding.nearest? tie (x.firstPlace - (16 : Nat)) = some c := by
  refine Rounding.exists_nearest? tie fun c hBelow hAbove => contains_multiple hZero ?_ hBelow hAbove
  rw [zpow_sub₀ (by norm_num), zpow_natCast, div_mul_cancel₀ _ (by norm_num)]
  exact zpow_firstPlace_le hZero

/-- The shortest decimal is taken from the first power of ten that has a multiple to take. -/
theorem exists_shortest (tie : Tie) (hZero : x.isZero = false) :
    ∃ more c : Nat, x.rounding.nearest? tie (x.firstPlace - more) = some c ∧
      (∀ fewer < more, x.rounding.nearest? tie (x.firstPlace - fewer) = none) ∧
      x.shortest tie = .ofUnits c (x.firstPlace - more) := by
  let taken (more : Nat) : Option Decimal :=
    (x.rounding.nearest? tie (x.firstPlace - more)).map (.ofUnits · (x.firstPlace - more))
  have hSome : ((List.range 17).findSome? taken).isSome = true := by
    obtain ⟨c, hSeventeen⟩ := exists_seventeen tie hZero
    exact List.findSome?_isSome_iff.2 ⟨16, by decide, by simp only [taken, hSeventeen]; rfl⟩
  obtain ⟨d, hFound⟩ := Option.isSome_iff_exists.1 hSome
  obtain ⟨before, more, after, hRange, hMore, hBefore⟩ := List.findSome?_eq_some_iff.1 hFound
  obtain ⟨c, hNearest, hUnits⟩ := Option.map_eq_some_iff.1 hMore
  refine ⟨more, c, hNearest, fun fewer hLess => ?_, ?_⟩
  · -- The range is in order, so that what is less than `more` stands before it.
    have hSorted := List.pairwise_append.1 (hRange ▸ List.pairwise_lt_range)
    have hIn : more ∈ List.range 17 := hRange ▸ List.mem_append_right _ List.mem_cons_self
    have hMem : fewer ∈ before ++ more :: after :=
      hRange ▸ List.mem_range.2 (hLess.trans (List.mem_range.1 hIn))
    rw [List.mem_append, List.mem_cons] at hMem
    obtain hMem | rfl | hMem := hMem
    · exact Option.map_eq_none_iff.1 (hBefore fewer hMem)
    · exact absurd hLess (lt_irrefl _)
    · exact absurd hLess (List.rel_of_pairwise_cons hSorted.2.1 hMem).asymm
  · rw [shortest]
    simp only
    split
    · rename_i d' hFound'
      rw [hUnits]
      exact Option.some.inj (hFound'.symm.trans hFound)
    · rename_i hNone
      exact absurd (hFound.symm.trans hNone) (Option.some_ne_none d)

/-- The shortest decimal rounds to the number. -/
theorem contains_shortest (tie : Tie) (hZero : x.isZero = false) :
    x.rounding.Contains (x.shortest tie).value := by
  obtain ⟨more, c, hNearest, -, hShortest⟩ := exists_shortest tie hZero
  rw [hShortest, Decimal.value_ofUnits]
  exact Rounding.holds_iff.1 (Rounding.holds_of_nearest? hNearest)

end Slideshow.Binary64
