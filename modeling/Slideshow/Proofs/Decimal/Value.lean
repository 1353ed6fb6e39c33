import Mathlib.Algebra.Order.Field.Power
import Mathlib.Data.Rat.Cast.Order
import Mathlib.Tactic.FieldSimp
import Mathlib.Tactic.IntervalCases
import Mathlib.Tactic.Linarith
import Mathlib.Tactic.Positivity
import Mathlib.Tactic.Ring
import Slideshow.Decimal.Basic

/-! The value of a decimal, and what its digits say of it. -/

namespace Slideshow

theorem ofDecimalDigits_eq (ds : List Char) : ofDecimalDigits ds = Nat.ofDigitChars 10 ds 0 := rfl

theorem ofDecimalDigits_toDigits (n : Nat) : ofDecimalDigits (Nat.toDigits 10 n) = n :=
  Nat.ofDigitChars_ten_toDigits

theorem ofDecimalDigits_append (as bs : List Char) :
    ofDecimalDigits (as ++ bs) = 10 ^ bs.length * ofDecimalDigits as + ofDecimalDigits bs := by
  rw [ofDecimalDigits_eq, Nat.ofDigitChars_append, Nat.ofDigitChars_eq_ofDigitChars_zero]
  rfl

/-- The number of digits bounds a positive number from below. -/
theorem pow_length_toDigits_le {n : Nat} (h : 0 < n) :
    10 ^ ((Nat.toDigits 10 n).length - 1) ≤ n := by
  by_contra hLess
  by_cases hOne : (Nat.toDigits 10 n).length - 1 = 0
  · rw [hOne] at hLess
    exact hLess h
  · have hShort := (Nat.length_toDigits_le_iff (by decide) (Nat.pos_of_ne_zero hOne)).2
      (not_le.1 hLess)
    omega

theorem lt_pow_length_toDigits (n : Nat) : n < 10 ^ (Nat.toDigits 10 n).length :=
  (Nat.length_toDigits_le_iff (by decide) Nat.length_toDigits_pos).1 le_rfl

/-- A positive number is written without zeros in front. -/
theorem head?_toDigits {n : Nat} (h : 0 < n) : (Nat.toDigits 10 n).head? ≠ some '0' := by
  induction n using Nat.strongRecOn with
  | ind n ih =>
    by_cases hSmall : n < 10
    · rw [Nat.toDigits_of_lt_base hSmall]
      interval_cases n <;> decide
    · rw [Nat.toDigits_of_base_le (by decide) (not_lt.1 hSmall),
        List.head?_append_of_ne_nil _ Nat.toDigits_ne_nil]
      exact ih (n / 10) (by omega) (by omega)

/-- What is no multiple of ten is written without zeros at the end. -/
theorem getLast?_toDigits {n : Nat} (h : n % 10 ≠ 0) : (Nat.toDigits 10 n).getLast? ≠ some '0' := by
  have hLast : (Nat.toDigits 10 n).getLast? = some (Nat.digitChar (n % 10)) := by
    by_cases hSmall : n < 10
    · rw [Nat.toDigits_of_lt_base hSmall, Nat.mod_eq_of_lt hSmall, List.getLast?_singleton]
    · rw [Nat.toDigits_of_base_le (by decide) (not_lt.1 hSmall), List.getLast?_concat]
  have hLess := Nat.mod_lt n (by decide : 0 < 10)
  rw [hLast]
  generalize n % 10 = last at h hLess
  interval_cases last <;> simp at h ⊢

/-- Every character is a decimal digit. -/
def AllDigits (cs : List Char) : Prop := ∀ c ∈ cs, isDecimalDigit c = true

theorem isDecimalDigit_of_isDigit {c : Char} (h : c.isDigit = true) : isDecimalDigit c = true := by
  have hRange : '0' ≤ c ∧ c ≤ '9' := by
    simpa [Char.isDigit, Char.le_def] using h
  rw [isDecimalDigit, digitValue?, if_pos hRange]
  rfl

theorem allDigits_toDigits (n : Nat) : AllDigits (Nat.toDigits 10 n) :=
  fun _ h => isDecimalDigit_of_isDigit (Nat.isDigit_of_mem_toDigits (by decide) (by decide) h)

theorem AllDigits.append {as bs : List Char} (ha : AllDigits as) (hb : AllDigits bs) :
    AllDigits (as ++ bs) := List.forall_mem_append.2 ⟨ha, hb⟩

/-- A text that starts with a digit is split after its digits. -/
theorem AllDigits.takeWhile_append {ds rest : List Char} (h : AllDigits ds)
    (hRest : ∀ c ∈ rest.head?, isDecimalDigit c = false) :
    (ds ++ rest).takeWhile isDecimalDigit = ds := by
  rw [List.takeWhile_append_of_pos h]
  cases rest with
  | nil => exact List.append_nil ds
  | cons c rest =>
    rw [List.takeWhile_cons_of_neg (by simpa using hRest c rfl), List.append_nil]

namespace Decimal

/-- The number that a decimal stands for. -/
def value (d : Decimal) : ℚ := d.significand * (10 : ℚ) ^ d.exponent

theorem value_ofUnits (units : Nat) (exponent : Int) :
    (ofUnits units exponent).value = units * (10 : ℚ) ^ exponent := by
  induction units, exponent using ofUnits.induct with
  | case1 units exponent h ih =>
    have hUnits : units = 10 * (units / 10) := by omega
    rw [ofUnits, if_pos h, ih, zpow_add₀ (by norm_num), zpow_one]
    conv_rhs => rw [hUnits]
    push_cast
    ring
  | case2 units exponent h =>
    rw [ofUnits, if_neg h]
    rfl

theorem digits_pos (d : Decimal) : 0 < d.digits.length := Nat.length_toDigits_pos

/-- The power of ten of the first digit bounds a decimal from above. -/
theorem value_lt (d : Decimal) : d.value < (10 : ℚ) ^ (d.leading + 1) := by
  have hDigits : d.significand < 10 ^ d.digits.length := lt_pow_length_toDigits d.significand
  have hLeading : d.leading + 1 = (d.digits.length : Int) + d.exponent := by
    rw [leading]
    ring
  rw [value, hLeading, zpow_add₀ (by norm_num), zpow_natCast]
  have hPower : (0 : ℚ) < 10 ^ d.exponent := by positivity
  exact mul_lt_mul_of_pos_right (by exact_mod_cast hDigits) hPower

/-- The power of ten of the first digit bounds a positive decimal from below. -/
theorem le_value {d : Decimal} (h : 0 < d.significand) : (10 : ℚ) ^ d.leading ≤ d.value := by
  have hDigits : 10 ^ (d.digits.length - 1) ≤ d.significand := pow_length_toDigits_le h
  have hLeading : d.leading = ((d.digits.length - 1 : Nat) : Int) + d.exponent := by
    rw [leading, Nat.cast_sub d.digits_pos]
    push_cast
    ring
  rw [value, hLeading, zpow_add₀ (by norm_num), zpow_natCast]
  have hPower : (0 : ℚ) < 10 ^ d.exponent := by positivity
  exact mul_le_mul_of_nonneg_right (by exact_mod_cast hDigits) hPower.le

end Decimal

end Slideshow
