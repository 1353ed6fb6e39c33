import Slideshow.Decimal.Layout

/-! Numbers of a document: whole numbers, and double-precision numbers, which stay distinct from
whole numbers of the same value. -/

namespace Slideshow.Yaml

inductive Number
  | integer (value : Int)
  | real (value : Binary64)
  deriving DecidableEq, Repr

namespace Number

/-- Equality of values within one kind; a whole number never equals a double-precision one. -/
def same : Number → Number → Bool
  | integer m, integer n => m == n
  | real x, real y => x.same y
  | _, _ => false

/-- In markup, whole values have no point, and numbers from `1e-6` up to but not including `1e21`
are written positionally. -/
def layout : Decimal.Layout := ⟨-6, 20, [], .up⟩

/-- The text of a number in markup and in names. -/
def text : Number → String
  | integer n => toString n
  | real x =>
    if x.isNaN then "NaN"
    else if x.isInfinite then if x.isNegative then "-Infinity" else "Infinity"
    else if x.isZero then "0"
    else String.ofList (layout.writeFinite x)

end Number

end Slideshow.Yaml
