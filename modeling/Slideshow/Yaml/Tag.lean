import Slideshow.Json.Reader
import Slideshow.Yaml.Cursor
import Slideshow.Yaml.Error

/-! Tags: a name with an exclamation mark in front of it, or one of the types of the core schema.
They are written as a handle, which directives can redefine, and a rest in which octets can be
escaped. -/

namespace Slideshow.Yaml

/-- The types that a tag can demand of a scalar. -/
inductive CoreType
  | null
  | bool
  | integer
  | real
  deriving DecidableEq, Repr

/-- A tag as far as it counts. A name is missing when its octets are not a text; it is never
empty. -/
inductive Tag
  | named (name : Option String)
  | core (type : CoreType)
  | other
  deriving DecidableEq, Repr

/-- The octets of a text of ASCII characters. -/
def octets (cs : List Char) : List UInt8 := cs.map fun c => UInt8.ofNat c.toNat

def octetsOf (s : String) : List UInt8 := octets s.toList

namespace Tag

/-- The text that octets encode. -/
def decode? (os : List UInt8) : Option String := String.fromUTF8? ⟨os.toArray⟩

def coreUri : String := "tag:yaml.org,2002:"

/-- The tag that octets write. An exclamation mark starts a name, and alone it is one. -/
def ofOctets (os : List UInt8) : Tag :=
  if os.head? = some 0x21 then named (decode? (if os.tail.isEmpty then os else os.tail))
  else if os = octetsOf (coreUri ++ "null") then core .null
  else if os = octetsOf (coreUri ++ "bool") then core .bool
  else if os = octetsOf (coreUri ++ "int") then core .integer
  else if os = octetsOf (coreUri ++ "float") then core .real
  else other

end Tag

/-- A tag as it is written: its handle, empty for a tag in full, and the rest. -/
structure TagText where
  handle : List UInt8
  suffix : List UInt8
  deriving DecidableEq, Repr

/-- What handles stand for. -/
abbrev TagHandles := List (List UInt8 × List UInt8)

def defaultHandles : TagHandles :=
  [(octetsOf "!", octetsOf "!"), (octetsOf "!!", octetsOf Tag.coreUri)]

/-- The tag that is meant, if its handle is known. -/
def TagText.resolve? (t : TagText) (handles : TagHandles) : Option Tag :=
  if t.handle.isEmpty then some (.ofOctets t.suffix)
  else (handles.lookup t.handle).map fun start => .ofOctets (start ++ t.suffix)

namespace TagText

/-- The characters of a tag after its handle; inside angle brackets there are more of them. -/
def isUriChar (verbatim : Bool) (c : Char) : Bool :=
  isWordChar c || ";/?:@&=+$.%!~*'()".toList.contains c || verbatim && ",[]".toList.contains c

/-- How many escaped octets of UTF-8 follow a first one. -/
def trailing? (first : Nat) : Option Nat :=
  if first < 0x80 then some 0
  else if 0xC0 ≤ first ∧ first < 0xE0 then some 1
  else if 0xE0 ≤ first ∧ first < 0xF0 then some 2
  else if 0xF0 ≤ first ∧ first < 0xF8 then some 3
  else none

/-- The octets of a tag up to a character that does not belong to it, and the number of characters
that write them. `due` escaped octets must follow first. -/
def readUri? (verbatim : Bool) (due : Nat) : List Char → Option (List UInt8 × Nat)
  | '%' :: a :: b :: rest => do
    let octet ← JsonText.hexNumber? [a, b]
    let due ← match due with
      | 0 => trailing? octet
      | n + 1 => if 0x80 ≤ octet ∧ octet < 0xC0 then some n else none
    let (os, n) ← readUri? verbatim due rest
    return (UInt8.ofNat octet :: os, n + 3)
  | c :: rest =>
    if 0 < due then none
    else if c = '%' then none
    else if isUriChar verbatim c then do
      let (os, n) ← readUri? verbatim 0 rest
      return (UInt8.ofNat c.toNat :: os, n + 1)
    else some ([], 0)
  | [] => if 0 < due then none else some ([], 0)

/-- What counts of octets: a zero ends them. -/
def cut (os : List UInt8) : List UInt8 := os.takeWhile (· ≠ 0)

/-- A handle: an exclamation mark, word characters, and possibly another mark. -/
def readHandle (cs : List Char) : List Char :=
  match cs with
  | '!' :: rest =>
    let word := rest.takeWhile isWordChar
    if (rest.drop word.length).head? = some '!' then '!' :: word ++ ['!'] else '!' :: word
  | _ => []

/-- Whether a handle ends in a second mark, and so is more than the start of a name. -/
def isFullHandle (handle : List Char) : Bool :=
  1 < handle.length && handle.getLast? == some '!'

/-- The tag that comes next, with an exclamation mark first, and the number of its characters. -/
def read? (cs : List Char) : Option (TagText × Nat) :=
  match cs with
  | '!' :: '<' :: rest => do
    let (os, n) ← readUri? true 0 rest
    if os.isEmpty ∨ (rest.drop n).head? ≠ some '>' then none
    else return (⟨[], cut os⟩, n + 3)
  | _ => do
    let handle := readHandle cs
    let (os, n) ← readUri? false 0 (cs.drop handle.length)
    if isFullHandle handle then
      if os.isEmpty then none else return (⟨octets handle, cut os⟩, handle.length + n)
    else
      let suffix := cut (octets handle.tail ++ os)
      if suffix.isEmpty then return (⟨[], octets ['!']⟩, handle.length + n)
      else return (⟨octets ['!'], suffix⟩, handle.length + n)

end TagText

end Slideshow.Yaml
