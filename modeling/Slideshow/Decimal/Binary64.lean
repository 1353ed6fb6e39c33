import Slideshow.Decimal.Basic

/-! Double-precision numbers held as their bits, the exact value that the bits stand for, and the
rounding of a ratio of whole numbers to the nearest of them. -/

namespace Slideshow

/-- A double-precision number: one bit of sign, eleven of exponent, fifty-two of fraction. -/
structure Binary64 where
  bits : UInt64
  deriving DecidableEq, Repr

namespace Binary64

/-- All bits but the sign, as a whole number; larger numbers have larger magnitudes. -/
def magnitude (x : Binary64) : Nat := x.bits.toNat % Nat.pow 2 63

def isNegative (x : Binary64) : Bool := decide (Nat.pow 2 63 ≤ x.bits.toNat)

/-- The magnitude of the infinities; the larger ones are not numbers. -/
def infiniteMagnitude : Nat := 2047 * Nat.pow 2 52

def isNaN (x : Binary64) : Bool := decide (infiniteMagnitude < x.magnitude)

def isInfinite (x : Binary64) : Bool := x.magnitude == infiniteMagnitude

def isFinite (x : Binary64) : Bool := decide (x.magnitude < infiniteMagnitude)

def isZero (x : Binary64) : Bool := x.magnitude == 0

/-- A finite number has the absolute value `significand * 2 ^ exponent`. -/
def significand (x : Binary64) : Nat :=
  if x.magnitude < Nat.pow 2 52 then x.magnitude else x.magnitude % Nat.pow 2 52 + Nat.pow 2 52

/-- A finite number has the absolute value `significand * 2 ^ exponent`. -/
def exponent (x : Binary64) : Int :=
  if x.magnitude < Nat.pow 2 52 then -1074 else (x.magnitude / Nat.pow 2 52 : Nat) - 1075

/-- Equality of values: the two zeros are equal, and so are any two that are not numbers. -/
def same (x y : Binary64) : Bool :=
  x.isNaN && y.isNaN || x.isZero && y.isZero || x == y

/-- The number of a sign and a magnitude. -/
def ofMagnitude (negative : Bool) (magnitude : Nat) : Binary64 :=
  ⟨UInt64.ofNat (magnitude + if negative then Nat.pow 2 63 else 0)⟩

def nan : Binary64 := ofMagnitude false (infiniteMagnitude + Nat.pow 2 51)

def infinity (negative : Bool) : Binary64 := ofMagnitude negative infiniteMagnitude

def zero (negative : Bool) : Binary64 := ofMagnitude negative 0

/-- The whole number nearest to `num / den`; a half goes to the even neighbour. -/
def roundDiv (num den : Nat) : Nat :=
  let floor := num / den
  let twice := 2 * (num % den)
  if den < twice ∨ twice = den ∧ floor % 2 = 1 then floor + 1 else floor

/-- `num / den` in units of `2 ^ q`, as a numerator and a denominator. -/
def inUnits (num den : Nat) (q : Int) : Nat × Nat :=
  (num * Nat.pow 2 (-q).toNat, den * Nat.pow 2 q.toNat)

/-- The unit of the last place for `num / den`: the power of two that leaves fifty-three bits
before the point, or the smallest one there is. -/
def unitOf (num den : Nat) : Int :=
  let guess : Int := (Nat.log2 num : Int) - (Nat.log2 den : Int) - 52
  let (n, d) := inUnits num den guess
  max (-1074) (if n / d < Nat.pow 2 52 then guess - 1 else guess)

/-- The number nearest to `num / den` with the given sign, for a positive `den`; a tie goes to the
even significand, and what is too large becomes infinite. -/
def ofRatio (negative : Bool) (num den : Nat) : Binary64 :=
  if num = 0 then zero negative
  else
    let q := unitOf num den
    let (n, d) := inUnits num den q
    let magnitude := roundDiv n d + (q + 1074).toNat * Nat.pow 2 52
    ofMagnitude negative (min magnitude infiniteMagnitude)

/-- The number nearest to a decimal. Beyond the powers of ten that can matter the answer is zero
or infinite, whatever the digits. -/
def ofDecimal (negative : Bool) (d : Decimal) : Binary64 :=
  if d.significand = 0 then zero negative
  else if 310 < d.leading then infinity negative
  else if d.leading < -330 then zero negative
  else ofRatio negative (d.significand * Nat.pow 10 d.exponent.toNat) (Nat.pow 10 (-d.exponent).toNat)

end Binary64

end Slideshow
