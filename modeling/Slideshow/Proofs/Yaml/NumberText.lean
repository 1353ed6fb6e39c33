import Slideshow.Proofs.Decimal.Fewest
import Slideshow.Proofs.Yaml.ScalarText

/-! The text of a number is the one that JavaScript prints for it: the fewest digits that round to the
number, in one of four layouts. -/

namespace Slideshow

/-- The digits of a number laid out as JavaScript prints them, of which `n` stand in front of the
point: a whole number with zeros after its digits, a point among the digits, a point and zeros in
front of them, or a power of ten after them. -/
def scriptText (ds : List Char) (n : Int) : List Char :=
  if ds.length ≤ n ∧ n ≤ 21 then ds ++ List.replicate (n - ds.length).toNat '0'
  else if 0 < n ∧ n ≤ 21 then ds.take n.toNat ++ '.' :: ds.drop n.toNat
  else if -6 < n ∧ n ≤ 0 then '0' :: '.' :: (List.replicate (-n).toNat '0' ++ ds)
  else
    ds.take 1 ++ (if 1 < ds.length then '.' :: ds.drop 1 else []) ++
      'e' :: (if n - 1 < 0 then '-' else '+') :: Nat.toDigits 10 (n - 1).natAbs

/-- A minus sign in front of the text of a negative number. -/
def signed (negative : Bool) (text : List Char) : List Char :=
  if negative then '-' :: text else text

namespace Decimal

theorem scientific_eq (d : Decimal) :
    d.scientific = d.digits.take 1 ++ (if 1 < d.digits.length then '.' :: d.digits.drop 1 else []) ++
      'e' :: (if d.leading < 0 then '-' else '+') :: Nat.toDigits 10 d.leading.natAbs := by
  have hPos := d.digits_pos
  rw [scientific]
  cases hDigits : d.digits with
  | nil => simp [hDigits] at hPos
  | cons first others => cases others <;> simp

/-- The two written forms of a decimal are the four layouts. -/
theorem write_eq_scriptText (d : Decimal) :
    Yaml.Number.layout.write d = scriptText d.digits (d.leading + 1) := by
  have hPos := d.digits_pos
  have hWrite : Yaml.Number.layout.write d =
      if -6 ≤ d.leading ∧ d.leading ≤ 20 then d.positional [] else d.scientific := rfl
  rw [hWrite, scriptText]
  by_cases hRange : -6 ≤ d.leading ∧ d.leading ≤ 20
  · rw [if_pos hRange, positional]
    simp only
    by_cases hSmall : d.leading < 0
    · have hZeros : -(d.leading + 1) = -d.leading - 1 := by ring
      rw [if_pos hSmall, if_neg (by omega), if_neg (by omega), if_pos (by omega), hZeros]
      rfl
    · rw [if_neg hSmall]
      have hPoint : (d.leading + 1).toNat = d.leading.toNat + 1 := by omega
      by_cases hWhole : d.digits.length ≤ d.leading.toNat + 1
      · have hZeros : (d.leading + 1 - d.digits.length).toNat =
            d.leading.toNat + 1 - d.digits.length := by omega
        rw [if_pos hWhole, if_pos (by omega), hZeros, List.append_nil]
        rfl
      · rw [if_neg hWhole, if_neg (by omega), if_pos (by omega), hPoint]
  · rw [if_neg hRange, if_neg (by omega), if_neg (by omega), if_neg (by omega), scientific_eq,
      add_sub_cancel_right]

end Decimal

namespace Yaml.Number

variable {x : Binary64}

theorem text_finite (hFinite : x.isFinite = true) (hZero : x.isZero = false) :
    (real x).text = String.ofList (signed x.isNegative
      (scriptText (x.shortest .up).digits ((x.shortest .up).leading + 1))) := by
  rw [text, Binary64.isNaN_of_isFinite hFinite, Binary64.isInfinite_of_isFinite hFinite, hZero,
    ← Decimal.write_eq_scriptText]
  rfl

theorem readValue?_finite (hFinite : x.isFinite = true) (hZero : x.isZero = false) :
    readValue? (real x).text.toList =
      some (if x.isNegative then -(x.shortest .up).value else (x.shortest .up).value) := by
  rw [text_finite hFinite hZero, String.toList_ofList, ← Decimal.write_eq_scriptText]
  exact layout.readValue?_writeFinite_eq (.inl rfl) hFinite hZero

theorem text_integer (n : Int) :
    (integer n).text = String.ofList (signed (n < 0) (Nat.toDigits 10 n.natAbs)) := by
  rw [← String.toList_inj, String.toList_ofList, text, Text.toList_toString, signed]
  simp only [decide_eq_true_eq]

/-- A finite number other than zero has one shortest decimal, without zeros at either end. Its text
is that decimal as JavaScript prints it, and reads back as the decimal without any rounding. The
numbers that are not finite are named, both zeros are `0`, and a whole number has all its digits. -/
theorem text_printed :
    (∀ x : Binary64, x.isFinite = true → x.isZero = false →
      ∃ d : Decimal, (∀ other, x.IsShortest other ↔ other = d) ∧
        d.digits.head? ≠ some '0' ∧ d.digits.getLast? ≠ some '0' ∧
        (real x).text =
          String.ofList (signed x.isNegative (scriptText d.digits (d.leading + 1))) ∧
        readValue? (real x).text.toList = some ((if x.isNegative then -1 else 1) *
          (ofDecimalDigits d.digits * (10 : ℚ) ^ (d.leading - d.digits.length + 1)))) ∧
    (∀ x : Binary64, x.isZero = true → (real x).text = "0") ∧
    (∀ x : Binary64, x.isNaN = true → (real x).text = "NaN") ∧
    (∀ x : Binary64, x.isInfinite = true →
      (real x).text = if x.isNegative then "-Infinity" else "Infinity") ∧
    ∀ n : Int,
      (integer n).text = String.ofList (signed (n < 0) (Nat.toDigits 10 n.natAbs)) ∧
      readValue? (integer n).text.toList = some (n : ℚ) := by
  refine ⟨fun x hFinite hZero => ?_, fun _ => text_zero, fun _ => text_nan,
    fun _ => text_infinite, fun n => ⟨text_integer n, readValue?_integer n⟩⟩
  have hShortest := x.isShortest_shortest hZero
  have hPos := hShortest.significand_pos hFinite hZero
  have hExponent : (x.shortest .up).leading - (x.shortest .up).digits.length + 1 =
      (x.shortest .up).exponent := by
    rw [(x.shortest .up).exponent_eq]
    ring
  refine ⟨x.shortest .up, fun other => ⟨fun h => h.unique hFinite hZero hShortest, ?_⟩,
    head?_toDigits hPos, getLast?_toDigits (hShortest.significand_mod hPos),
    text_finite hFinite hZero, ?_⟩
  · rintro rfl
    exact hShortest
  · rw [readValue?_finite hFinite hZero, Decimal.ofDecimalDigits_digits, hExponent,
      ← Decimal.value]
    split <;> ring_nf

theorem text_printed_kinds :
    ((⟨0xC63F8DEF8808B024⟩ : Binary64).isFinite = true ∧
      (⟨0xC63F8DEF8808B024⟩ : Binary64).isZero = false ∧
      ∃ d : Decimal, (⟨0xC63F8DEF8808B024⟩ : Binary64).IsShortest d ∧
        String.ofList (signed true (scriptText d.digits (d.leading + 1))) = "-2.5e+30") ∧
    (real (.zero true)).text = "0" ∧ (real .nan).text = "NaN" ∧
    (real (.infinity true)).text = "-Infinity" := by
  obtain ⟨hFinite, hZero, hNaN, hInfinite, -⟩ := text_printed
  obtain ⟨d, hShortest, -, -, hText, -⟩ := hFinite ⟨0xC63F8DEF8808B024⟩ (by decide) (by decide)
  have hWritten : (real ⟨0xC63F8DEF8808B024⟩).text = "-2.5e+30" := by decide +kernel
  exact ⟨⟨by decide, by decide, d, (hShortest d).2 rfl, hText.symm.trans hWritten⟩,
    hZero _ (by decide), hNaN _ (by decide), hInfinite _ (by decide)⟩

-- The two sides of the boundary at `10 ^ 21`.
example : (real ⟨0x4415AF1D78B58C40⟩).text = "100000000000000000000" ∧
    (real ⟨0x444B1AE4D6E2EF50⟩).text = "1e+21" := by
  decide +kernel

end Yaml.Number

end Slideshow
