import Slideshow.Decimal.Layout
import Slideshow.Decimal.Reader
import Slideshow.Proofs.Decimal.Value

/-! A written decimal reads back as a decimal of the same value, whatever its layout. -/

namespace Slideshow

open Binary64 (readDecimal? readExponent? exponentCap)

/-! ### Reading -/

variable {whole fraction : List Char}

/-- What follows the digits of a decimal, units of a power of ten, as it is read. -/
def readPower? (units places : Nat) : List Char → Option Decimal
  | [] => some ⟨units, -places⟩
  | e :: r =>
    if e = 'e' ∨ e = 'E' then (readExponent? r).map fun n => ⟨units, n - places⟩ else none

theorem readDecimal?_point (rest : List Char) (hWhole : AllDigits whole)
    (hFraction : AllDigits fraction) (hRest : ∀ c ∈ rest.head?, c = 'e') (hne : whole ≠ []) :
    readDecimal? (whole ++ '.' :: (fraction ++ rest)) =
      readPower? (ofDecimalDigits (whole ++ fraction)) fraction.length rest := by
  have hTake : (whole ++ '.' :: (fraction ++ rest)).takeWhile isDecimalDigit = whole := by
    refine hWhole.takeWhile_append fun c hc => ?_
    cases hc
    decide
  have hTakeRest : (fraction ++ rest).takeWhile isDecimalDigit = fraction := by
    refine hFraction.takeWhile_append fun c hc => ?_
    rw [hRest c hc]
    decide
  have hSome : (whole.isEmpty && fraction.isEmpty) = false := by simp [hne]
  rw [readDecimal?]
  simp only [hTake, List.drop_left, hTakeRest, hSome]
  cases rest <;> rfl

theorem readDecimal?_plain (rest : List Char) (hWhole : AllDigits whole)
    (hRest : ∀ c ∈ rest.head?, c = 'e') (hne : whole ≠ []) :
    readDecimal? (whole ++ rest) = readPower? (ofDecimalDigits whole) 0 rest := by
  have hTake : (whole ++ rest).takeWhile isDecimalDigit = whole := by
    refine hWhole.takeWhile_append fun c hc => ?_
    rw [hRest c hc]
    decide
  have hSome : whole.isEmpty = false := by simp [hne]
  rw [readDecimal?]
  simp only [hTake, List.drop_left]
  cases rest with
  | nil => simp [hSome, readPower?]
  | cons c rest =>
    rw [hRest c rfl]
    simp [hSome, readPower?]

theorem readExponent?_written {e : Int} (h : e.natAbs ≤ exponentCap) :
    readExponent? ((if e < 0 then '-' else '+') :: Nat.toDigits 10 e.natAbs) = some e := by
  have hAll : (Nat.toDigits 10 e.natAbs).all isDecimalDigit = true :=
    List.all_eq_true.2 (allDigits_toDigits _)
  have hSome : (Nat.toDigits 10 e.natAbs).isEmpty = false := by
    simp [Nat.toDigits_ne_nil]
  have hRead : min (ofDecimalDigits (Nat.toDigits 10 e.natAbs)) exponentCap = e.natAbs := by
    rw [ofDecimalDigits_toDigits, Nat.min_eq_left h]
  by_cases hSign : e < 0
  · have hValue : -(e.natAbs : Int) = e := by omega
    rw [if_pos hSign, readExponent?]
    simp only [hAll, hSome, hRead]
    exact congrArg some hValue
  · have hValue : (e.natAbs : Int) = e := by omega
    rw [if_neg hSign, readExponent?]
    simp only [hAll, hSome, hRead]
    exact congrArg some hValue

/-! ### Layouts -/

namespace Decimal

theorem zeros_allDigits (n : Nat) : AllDigits (zeros n) := by
  intro c hc
  rw [List.eq_of_mem_replicate hc]
  decide

theorem digits_allDigits (d : Decimal) : AllDigits d.digits := allDigits_toDigits _

theorem ofDecimalDigits_digits (d : Decimal) : ofDecimalDigits d.digits = d.significand :=
  ofDecimalDigits_toDigits _

theorem ofDecimalDigits_zeros (n : Nat) : ofDecimalDigits (zeros n) = 0 := by
  rw [ofDecimalDigits_eq, zeros, Nat.ofDigitChars_replicate_zero, Nat.mul_zero]

/-- The power of ten of the last digit in terms of that of the first. -/
theorem exponent_eq (d : Decimal) : d.exponent = d.leading + 1 - d.digits.length := by
  rw [leading]
  ring

theorem readDecimal?_positional {tail : List Char} (hTail : tail = [] ∨ tail = ['.', '0'])
    (d : Decimal) :
    ∃ r, readDecimal? (d.positional tail) = some r ∧ r.value = d.value := by
  have hPos := d.digits_pos
  have hne : d.digits ≠ [] := List.ne_nil_of_length_pos hPos
  have hExponent := d.exponent_eq
  have hZero : AllDigits ['0'] := zeros_allDigits 1
  have hNothing : ofDecimalDigits ['0'] = 0 := ofDecimalDigits_zeros 1
  simp only [positional]
  split
  · -- All digits are behind the point.
    rename_i hLeading
    have hFraction := (zeros_allDigits (-d.leading - 1).toNat).append d.digits_allDigits
    have hRead := readDecimal?_point [] hZero hFraction (by simp) (List.cons_ne_nil _ _)
    have hUnits : ofDecimalDigits (['0'] ++ (zeros (-d.leading - 1).toNat ++ d.digits)) =
        d.significand := by
      simp only [ofDecimalDigits_append, ofDecimalDigits_zeros, ofDecimalDigits_digits, hNothing]
      omega
    rw [List.append_nil, hUnits] at hRead
    refine ⟨_, hRead, ?_⟩
    rw [value, value]
    congr 2
    simp only [List.length_append, zeros, List.length_replicate]
    omega
  · split
    · -- All digits are in front of the point.
      rename_i hLeading hWhole
      have hAll := d.digits_allDigits.append
        (zeros_allDigits (d.leading.toNat + 1 - d.digits.length))
      have hUnits : ofDecimalDigits (d.digits ++ zeros (d.leading.toNat + 1 - d.digits.length)) =
          10 ^ (d.leading.toNat + 1 - d.digits.length) * d.significand := by
        rw [ofDecimalDigits_append, ofDecimalDigits_zeros, ofDecimalDigits_digits, zeros,
          List.length_replicate, Nat.add_zero]
      have hPower : d.exponent = ((d.leading.toNat + 1 - d.digits.length : Nat) : Int) := by omega
      obtain rfl | rfl := hTail
      · have hRead := readDecimal?_plain [] hAll (by simp) (by simp [hne])
        rw [hUnits] at hRead
        refine ⟨_, hRead, ?_⟩
        rw [value, value, hPower, zpow_natCast]
        push_cast
        ring
      · have hRead := readDecimal?_point [] hAll hZero (by simp) (by simp [hne])
        rw [ofDecimalDigits_append, hUnits, List.append_nil] at hRead
        refine ⟨_, hRead, ?_⟩
        rw [value, value, hPower, zpow_natCast, hNothing, List.length_singleton]
        push_cast
        rw [zpow_neg_one]
        ring
    · -- The point is among the digits.
      rename_i hLeading hWhole
      have hTake : AllDigits (d.digits.take (d.leading.toNat + 1)) :=
        fun c hc => d.digits_allDigits c (List.mem_of_mem_take hc)
      have hDrop : AllDigits (d.digits.drop (d.leading.toNat + 1)) :=
        fun c hc => d.digits_allDigits c (List.mem_of_mem_drop hc)
      have hRead := readDecimal?_point [] hTake hDrop (by simp) (by simp [hne])
      rw [List.append_nil, List.take_append_drop, ofDecimalDigits_digits] at hRead
      refine ⟨_, hRead, ?_⟩
      rw [value, value]
      congr 2
      simp only [List.length_drop]
      omega

theorem readDecimal?_scientific {d : Decimal} (h : d.leading.natAbs ≤ exponentCap) :
    readDecimal? d.scientific = some d := by
  have hPos := d.digits_pos
  have hExponent := d.exponent_eq
  have hRead := readExponent?_written h
  let power := 'e' :: (if d.leading < 0 then '-' else '+') :: Nat.toDigits 10 d.leading.natAbs
  have hPower : ∀ c ∈ power.head?, c = 'e' := by simp [power]
  have hSame {others : List Char} {first : Char} (hDigits : d.digits = first :: others) :
      readPower? d.significand others.length power = some d := by
    have hPlaces : d.leading - (others.length : Int) = d.exponent := by
      rw [hExponent, hDigits, List.length_cons]
      push_cast
      ring
    rw [readPower?, if_pos (.inl rfl), hRead, Option.map_some, hPlaces]
  rw [scientific]
  cases hDigits : d.digits with
  | nil => simp [hDigits] at hPos
  | cons first others =>
    have hUnits := d.ofDecimalDigits_digits
    have hAll := d.digits_allDigits
    rw [hDigits] at hUnits hAll
    cases others with
    | nil =>
      have hPlain := readDecimal?_plain power hAll hPower (List.cons_ne_nil _ _)
      rw [hUnits, ← List.length_nil, hSame hDigits] at hPlain
      exact hPlain
    | cons second others =>
      have ⟨hFirst, hOthers⟩ := List.forall_mem_cons.1 hAll
      have hPoint := readDecimal?_point power (List.forall_mem_singleton.2 hFirst) hOthers hPower
        (List.cons_ne_nil _ _)
      rw [List.singleton_append, List.singleton_append, hUnits, hSame hDigits] at hPoint
      exact hPoint

/-- A written decimal of moderate size reads back as one of the same value. -/
theorem Layout.readDecimal?_write {layout : Layout}
    (hTail : layout.tail = [] ∨ layout.tail = ['.', '0']) {d : Decimal}
    (h : d.leading.natAbs ≤ exponentCap) :
    ∃ r, readDecimal? (layout.write d) = some r ∧ r.value = d.value := by
  rw [write]
  split
  · exact readDecimal?_positional hTail d
  · exact ⟨d, readDecimal?_scientific h, rfl⟩

end Decimal

end Slideshow
