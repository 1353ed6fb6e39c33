import Slideshow.Decimal.Binary64

/-! Reading a double-precision number from text: an optional sign, then digits with an optional
point and an optional power of ten, or a name of an infinity or of no number. -/

namespace Slideshow

namespace Binary64

/-- The largest power of ten that is told apart from larger ones. -/
def exponentCap : Nat := 1000000

/-- A power of ten as written after the `e`: an optional sign and at least one digit. -/
def readExponent? (cs : List Char) : Option Int :=
  let (negative, ds) := match cs with
    | '-' :: ds => (true, ds)
    | '+' :: ds => (false, ds)
    | ds => (false, ds)
  if ds.isEmpty || !ds.all isDecimalDigit then none
  else
    let n := min (ofDecimalDigits ds) exponentCap
    some (if negative then -n else n)

/-- Digits with at most one point and at least one digit, then nothing or a power of ten. -/
def readDecimal? (cs : List Char) : Option Decimal :=
  let whole := cs.takeWhile isDecimalDigit
  let afterWhole := cs.drop whole.length
  let (fraction, rest) := match afterWhole with
    | '.' :: r =>
      let ds := r.takeWhile isDecimalDigit
      (ds, r.drop ds.length)
    | r => ([], r)
  if whole.isEmpty && fraction.isEmpty then none
  else
    let units := ofDecimalDigits (whole ++ fraction)
    match rest with
    | [] => some ⟨units, -fraction.length⟩
    | e :: r =>
      if e = 'e' ∨ e = 'E' then (readExponent? r).map fun n => ⟨units, n - fraction.length⟩
      else none

/-- The number that a text writes. The names of the infinities and of no number are read in any
ASCII case. -/
def read? (cs : List Char) : Option Binary64 :=
  let (negative, body) := match cs with
    | '-' :: r => (true, r)
    | '+' :: r => (false, r)
    | r => (false, r)
  let name := String.ofList (body.map Char.toLower)
  if name = "inf" ∨ name = "infinity" then some (infinity negative)
  else if name = "nan" then some nan
  else (readDecimal? body).map (ofDecimal negative)

end Binary64

end Slideshow
