import Slideshow.Yaml.Number

/-! The values of a document, with the equality that its mapping keys are told apart by, and the
mappings themselves: entries in order, with at most one entry per key. -/

namespace Slideshow.Yaml

/-- A document's value. The entries of a mapping are in the order of the document. -/
inductive Value
  | null
  | bool (value : Bool)
  | number (value : Number)
  | string (value : String)
  | list (items : List Value)
  | mapping (entries : List (Value × Value))
  | tagged (tag : String) (value : Value)
  deriving Inhabited

/-- The entries of a mapping, in order. -/
abbrev Mapping := List (Value × Value)

/-- The name of a tag: one exclamation mark in front of it does not count, unless it is all there
is. -/
def tagName (text : String) : String :=
  match text.toList with
  | '!' :: c :: cs => String.ofList (c :: cs)
  | _ => text

namespace Value

mutual

/-- Equality of values as keys: lists item by item, mappings whatever the order of their entries. -/
def same : Value → Value → Bool
  | null, null => true
  | bool a, bool b => a == b
  | number a, number b => a.same b
  | string a, string b => a == b
  | list as, list bs => sameItems as bs
  | mapping as, mapping bs => as.length == bs.length && sameEntries as bs
  | tagged s a, tagged t b => s == t && a.same b
  | _, _ => false

def sameItems : List Value → List Value → Bool
  | [], [] => true
  | a :: as, b :: bs => a.same b && sameItems as bs
  | _, _ => false

/-- Every entry on the left has an equal one on the right. -/
def sameEntries : List (Value × Value) → List (Value × Value) → Bool
  | [], _ => true
  | (k, a) :: as, bs => bs.any (fun b => k.same b.1 && a.same b.2) && sameEntries as bs

end

/-- A value without the tags around it. -/
def untag : Value → Value
  | tagged _ v => v.untag
  | v => v

/-- The text of a scalar as it is shown: strings as they are, `true` and `false`, numbers in their
written form. Null, lists, mappings and tagged values have none. -/
def scalarText? : Value → Option String
  | string s => some s
  | bool b => some (if b then "true" else "false")
  | number n => some n.text
  | _ => none

end Value

namespace Mapping

def find? (m : Mapping) (key : Value) : Option Value :=
  (List.find? (fun e => e.1.same key) m).map (·.2)

def contains (m : Mapping) (key : Value) : Bool := List.any m fun e => e.1.same key

/-- The mapping with `key` set to `value`: in its place if it is there, else at the end. -/
def insert (m : Mapping) (key value : Value) : Mapping :=
  match m with
  | [] => [(key, value)]
  | (k, v) :: rest => if k.same key then (k, value) :: rest else (k, v) :: insert rest key value

/-- The mapping with an entry added at its end unless the key is there already. -/
def insertNew (m : Mapping) (key value : Value) : Mapping :=
  if m.contains key then m else m ++ [(key, value)]

/-- The mapping of the entries given from left to right. -/
def ofList (es : List (Value × Value)) : Mapping :=
  es.foldl (fun m e => m.insert e.1 e.2) []

/-- The value under an untagged string key. -/
def field? (m : Mapping) (name : String) : Option Value := m.find? (.string name)

end Mapping

/-- What a value is, as said in messages. -/
inductive Shape
  | null
  | boolean
  | number
  | string
  | list
  | mapping
  | tagged
  deriving DecidableEq, Repr

namespace Shape

def ofValue : Value → Shape
  | .null => null
  | .bool _ => boolean
  | .number _ => number
  | .string _ => string
  | .list _ => list
  | .mapping _ => mapping
  | .tagged .. => tagged

def describe : Shape → String
  | null => "null"
  | boolean => "a boolean"
  | number => "a number"
  | string => "a string"
  | list => "a list"
  | mapping => "a mapping"
  | tagged => "a tagged value"

end Shape

end Slideshow.Yaml
