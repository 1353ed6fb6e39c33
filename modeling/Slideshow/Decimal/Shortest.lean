import Slideshow.Decimal.Binary64

/-! The shortest decimal that reads back as a given double-precision number. A decimal reads back
when it lies in the interval of numbers that round to the given one; of the decimals with the fewest
digits in that interval, the nearest is taken. -/

namespace Slideshow

namespace Binary64

/-- Which way an exact tie between two decimals of the same length goes. -/
inductive Tie
  | even
  | up
  deriving DecidableEq, Repr

/-- A positive number with the numbers that round to it, in quarters of a unit of its last place:
`low ≤ 4 * significand ≤ high`, where each quarter is `2 ^ quarter`. -/
structure Rounding where
  low : Nat
  value : Nat
  high : Nat
  quarter : Int
  closed : Bool
  deriving Repr

/-- The numbers halfway to both neighbours; the lower neighbour of a power of two is nearer, and the
ends belong to the interval when the significand is even. -/
def rounding (x : Binary64) : Rounding :=
  let m := x.significand
  let below := if m = Nat.pow 2 52 ∧ -1074 < x.exponent then 1 else 2
  ⟨4 * m - below, 4 * m, 4 * m + 2, x.exponent - 2, m % 2 == 0⟩

/-- `a` quarters as a number of `10 ^ k`, written `numerator / denominator`. -/
def Rounding.scale (r : Rounding) (k : Int) : Nat × Nat :=
  (Nat.pow 2 r.quarter.toNat * Nat.pow 10 (-k).toNat,
    Nat.pow 2 (-r.quarter).toNat * Nat.pow 10 k.toNat)

/-- Whether `c * 10 ^ k` rounds to the number. -/
def Rounding.holds (r : Rounding) (k : Int) (c : Nat) : Bool :=
  let (n, d) := r.scale k
  if r.closed then decide (r.low * n ≤ c * d) && decide (c * d ≤ r.high * n)
  else decide (r.low * n < c * d) && decide (c * d < r.high * n)

/-- The multiple of `10 ^ k` nearest to the number, of those next to it that round to it. -/
def Rounding.nearest? (r : Rounding) (tie : Tie) (k : Int) : Option Nat :=
  let (n, d) := r.scale k
  let floor := r.value * n / d
  let twice := 2 * (r.value * n % d)
  match r.holds k floor, r.holds k (floor + 1) with
  | true, false => some floor
  | false, true => some (floor + 1)
  | false, false => none
  | true, true =>
    if twice < d then some floor
    else if d < twice then some (floor + 1)
    else match tie with
      | .up => some (floor + 1)
      | .even => some (floor + floor % 2)

/-- The power of ten of the first digit of `num / den`, both positive. -/
def decade (num den : Nat) : Int :=
  if den ≤ num then ((Nat.toDigits 10 (num / den)).length : Int) - 1
  else
    let places := (Nat.toDigits 10 (den / num)).length
    if den ≤ num * Nat.pow 10 (places - 1) then -((places - 1 : Nat) : Int) else -(places : Int)

/-- The fewest digits that read back as a finite number other than zero, at most seventeen. -/
def shortest (tie : Tie) (x : Binary64) : Decimal :=
  let r := x.rounding
  let (n, d) := r.scale 0
  let first := decade (r.value * n) d
  let grid (more : Nat) : Int := first - more
  match (List.range 17).findSome? fun more =>
      (r.nearest? tie (grid more)).map (Decimal.ofUnits · (grid more)) with
  | some shortest => shortest
  | none => .ofUnits (x.significand * Nat.pow 2 x.exponent.toNat) 0

end Binary64

end Slideshow
