import Slideshow.Decimal.Shortest

/-! The written forms of a decimal: positional, with a point among the digits, and scientific, with
a power of ten after them. A `Layout` says which decimals are written positionally and how. -/

namespace Slideshow

namespace Decimal

/-- Zeros in a row. -/
def zeros (n : Nat) : List Char := List.replicate n '0'

/-- The digits with a point where it belongs, and with zeros up to the point where digits are
missing. A whole number ends in `tail`. -/
def positional (tail : List Char) (d : Decimal) : List Char :=
  let ds := d.digits
  let e := d.leading
  if e < 0 then '0' :: '.' :: zeros (-e - 1).toNat ++ ds
  else
    let whole := e.toNat + 1
    if ds.length ≤ whole then ds ++ zeros (whole - ds.length) ++ tail
    else ds.take whole ++ '.' :: ds.drop whole

/-- The first digit, the others after a point, and the power of ten with its sign. -/
def scientific (d : Decimal) : List Char :=
  let mantissa := match d.digits with
    | first :: second :: rest => first :: '.' :: second :: rest
    | ds => ds
  let sign := if d.leading < 0 then '-' else '+'
  mantissa ++ 'e' :: sign :: Nat.toDigits 10 d.leading.natAbs

/-- How numbers are written: the powers of ten of the first digit that are written positionally, and
what follows a whole number. -/
structure Layout where
  lowest : Int
  highest : Int
  tail : List Char
  tie : Binary64.Tie

/-- The text of a positive decimal. -/
def Layout.write (layout : Layout) (d : Decimal) : List Char :=
  if layout.lowest ≤ d.leading ∧ d.leading ≤ layout.highest then d.positional layout.tail
  else d.scientific

/-- The text of a finite number other than zero. -/
def Layout.writeFinite (layout : Layout) (x : Binary64) : List Char :=
  let text := layout.write (x.shortest layout.tie)
  if x.isNegative then '-' :: text else text

end Decimal

end Slideshow
