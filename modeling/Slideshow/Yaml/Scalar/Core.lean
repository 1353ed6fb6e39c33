import Slideshow.Decimal.Reader
import Slideshow.Yaml.Error
import Slideshow.Yaml.Tag
import Slideshow.Yaml.Value

/-! The values of scalars under the core schema: which plain texts are null, truth values and
numbers, and what a tag demands. All other texts are strings. -/

namespace Slideshow.Yaml.Core

def isNullWord (text : String) : Bool := ["null", "Null", "NULL", "~"].contains text

def bool? (text : String) : Option Bool :=
  if ["true", "True", "TRUE"].contains text then some true
  else if ["false", "False", "FALSE"].contains text then some false
  else none

/-- The number that digits of a base up to sixteen write; at least one digit is needed. -/
def natural? (base : Nat) (ds : List Char) : Option Nat := do
  guard (!ds.isEmpty)
  let values ← ds.mapM fun d => (JsonText.hexValue? d).filter (· < base)
  return values.foldl (fun n v => base * n + v) 0

/-- A whole number without a sign. Only a lone zero starts with one. -/
def unsigned? : List Char → Option Nat
  | '0' :: 'x' :: ds => natural? 16 ds
  | '0' :: 'o' :: ds => natural? 8 ds
  | '0' :: 'b' :: ds => natural? 2 ds
  | '0' :: _ :: _ => none
  | ds => natural? 10 ds

/-- A whole number of any size. -/
def signed? : List Char → Option Int
  | '-' :: cs => (unsigned? cs).map fun n => -n
  | '+' :: cs => (unsigned? cs).map Int.ofNat
  | cs => (unsigned? cs).map Int.ofNat

/-- A whole number of sixty-four bits. One that needs up to twice as many is an error, and one
beyond that is not a whole number. -/
def integer? (cs : List Char) : Except Error (Option Int) :=
  match signed? cs with
  | none => .ok none
  | some n =>
    if -(Nat.pow 2 63 : Int) ≤ n ∧ n < (Nat.pow 2 64 : Int) then .ok (some n)
    else if -(Nat.pow 2 127 : Int) ≤ n ∧ n < (Nat.pow 2 128 : Int) then .error .integerRange
    else .ok none

/-- Whether a text is a row of digits with a zero too many in front, after an optional sign. -/
def isZeroPadded (cs : List Char) : Bool :=
  match cs with
  | '-' :: '0' :: d :: ds | '+' :: '0' :: d :: ds | '0' :: d :: ds =>
    (d :: ds).all isDecimalDigit
  | _ => false

def isInfinityWord (cs : List Char) : Bool :=
  [".inf", ".Inf", ".INF"].contains (String.ofList cs)

def isNaNWord (cs : List Char) : Bool := [".nan", ".NaN", ".NAN"].contains (String.ofList cs)

/-- A double-precision number without a plus sign; the words for those that are not finite start
with a point. -/
def finite? (cs : List Char) : Option Binary64 := (Binary64.read? cs).filter (·.isFinite)

/-- A double-precision number. -/
def real? (cs : List Char) : Option Binary64 :=
  if isNaNWord cs then some .nan
  else match cs with
    | '+' :: '+' :: _ | '+' :: '-' :: _ => none
    | '+' :: cs => if isInfinityWord cs then some (.infinity false) else finite? cs
    | '-' :: r => if isInfinityWord r then some (.infinity true) else finite? cs
    | _ => if isInfinityWord cs then some (.infinity false) else finite? cs

/-- The value of a plain text: null, a truth value, a whole number, a double-precision number, or
else a string. -/
def plain (text : String) : Except Error Value :=
  if text.isEmpty || isNullWord text then .ok .null
  else match bool? text with
    | some b => .ok (.bool b)
    | none => do
      match ← integer? text.toList with
      | some n => return .number (.integer n)
      | none =>
        if isZeroPadded text.toList then return .string text
        else match real? text.toList with
          | some x => return .number (.real x)
          | none => return .string text

/-- What is demanded, or else an error. -/
def demand : Option Value → Except Error Value
  | some v => .ok v
  | none => .error .wrongTag

/-- The value of a text under the tag of a core type, which must be of that type. -/
def ofType (type : CoreType) (text : String) : Except Error Value :=
  match type with
  | .null => demand (if isNullWord text then some .null else none)
  | .bool => demand ((bool? text).map .bool)
  | .integer => do demand ((← integer? text.toList).map fun n => .number (.integer n))
  | .real => demand ((real? text.toList).map fun x => .number (.real x))

/-- The value of a scalar. Quoted texts and those with a tag that is no name are strings, unless the
tag is one of a core type. -/
def scalar (tag : Option Tag) (isPlain : Bool) (text : String) : Except Error Value :=
  match tag with
  | some (.core type) => ofType type text
  | some .other => .ok (.string text)
  | some (.named _) | none => if isPlain then plain text else .ok (.string text)

end Slideshow.Yaml.Core
