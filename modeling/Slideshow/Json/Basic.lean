import Slideshow.Decimal.Layout

/-! JSON values and their compact text. -/

namespace Slideshow

/-- A JSON value; the fields of an object are in the order in which they are written. -/
inductive Json
  | null
  | bool (value : Bool)
  | integer (value : Int)
  | real (value : Binary64)
  | string (value : String)
  | array (items : List Json)
  | object (fields : List (String × Json))
  deriving Inhabited

namespace Json

/-- In JSON, whole values end in `.0`, and numbers from `1e-5` up to but not including `1e16` are
written positionally. -/
def layout : Decimal.Layout := ⟨-5, 15, ['.', '0'], .even⟩

/-- The text of a finite number. -/
def realText (x : Binary64) : List Char :=
  if x.isZero then if x.isNegative then ['-', '0', '.', '0'] else ['0', '.', '0']
  else layout.writeFinite x

/-- A character as it stands in a string: quotes, backslashes and control characters are escaped. -/
def escapeChar (c : Char) : List Char :=
  if c = '"' then ['\\', '"']
  else if c = '\\' then ['\\', '\\']
  else if c = '\n' then ['\\', 'n']
  else if c = '\r' then ['\\', 'r']
  else if c = '\t' then ['\\', 't']
  else if c = '\x08' then ['\\', 'b']
  else if c = '\x0c' then ['\\', 'f']
  else if c.toNat < 32 then
    ['\\', 'u', '0', '0', Nat.digitChar (c.toNat / 16), Nat.digitChar (c.toNat % 16)]
  else [c]

def quote (s : String) : List Char := '"' :: s.toList.flatMap escapeChar ++ ['"']

mutual

/-- The text of a value without any white space. A number that is not finite is null. -/
def compactChars : Json → List Char
  | null => "null".toList
  | bool true => "true".toList
  | bool false => "false".toList
  | integer n => (toString n).toList
  | real x => if x.isFinite then realText x else "null".toList
  | string s => quote s
  | array [] => ['[', ']']
  | array (v :: vs) => '[' :: compactChars v ++ compactItems vs
  | object [] => ['\x7b', '\x7d']
  | object ((k, v) :: fs) => '\x7b' :: quote k ++ ':' :: compactChars v ++ compactFields fs

/-- The items of an array after the first, and its end. -/
def compactItems : List Json → List Char
  | [] => [']']
  | v :: vs => ',' :: compactChars v ++ compactItems vs

/-- The fields of an object after the first, and its end. -/
def compactFields : List (String × Json) → List Char
  | [] => ['\x7d']
  | (k, v) :: fs => ',' :: quote k ++ ':' :: compactChars v ++ compactFields fs

end

/-- The text of a value without any white space. -/
def compact (v : Json) : String := String.ofList v.compactChars

end Json

end Slideshow
