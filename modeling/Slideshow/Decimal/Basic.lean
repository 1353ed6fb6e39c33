/-! Decimal numbers as a whole number of units of a power of ten, and their digits. -/

namespace Slideshow

/-- The number `significand * 10 ^ exponent`. -/
structure Decimal where
  significand : Nat
  exponent : Int
  deriving DecidableEq, Repr

namespace Decimal

/-- The digits of the significand, most significant first. -/
def digits (d : Decimal) : List Char := Nat.toDigits 10 d.significand

/-- The power of ten of the first digit: the `e` of `d₁.d₂…dₖ × 10^e`. -/
def leading (d : Decimal) : Int := d.exponent + (d.digits.length - 1 : Int)

/-- The same number with the zeros at the end of its significand moved into its exponent. -/
def ofUnits (significand : Nat) (exponent : Int) : Decimal :=
  if 0 < significand ∧ significand % 10 = 0 then ofUnits (significand / 10) (exponent + 1)
  else ⟨significand, exponent⟩
termination_by significand
decreasing_by omega

end Decimal

/-- The value of a decimal digit. -/
def digitValue? (c : Char) : Option Nat :=
  if '0' ≤ c ∧ c ≤ '9' then some (c.toNat - '0'.toNat) else none

/-- Whether a character is one of the ten ASCII digits. -/
def isDecimalDigit (c : Char) : Bool := (digitValue? c).isSome

/-- The whole number that a row of decimal digits writes. -/
def ofDecimalDigits (ds : List Char) : Nat :=
  ds.foldl (fun n c => 10 * n + (c.toNat - '0'.toNat)) 0

end Slideshow
