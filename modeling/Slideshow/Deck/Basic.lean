import Slideshow.Dictionary
import Slideshow.Yaml.Value

/-! Decks: sections in order, which hold elements directly or in named subsections. -/

namespace Slideshow

open Yaml (Value Number)

/-- The value of a style property. -/
inductive StyleValue
  | text (value : String)
  | number (value : Number)

/-- What a wrapper is decorated with. The style is kept but never rendered. -/
structure Decoration where
  classes : List String := []
  style : Option (Dictionary StyleValue) := none

/-- Whether there is a style with at least one property. -/
def Decoration.hasStyle (d : Decoration) : Bool :=
  match d.style with
  | some style => !style.isEmpty
  | none => false

/-- The tags of text elements. -/
inductive TextTag
  | h1
  | h2
  | h3
  | h4
  | h5
  | h6
  | p
  | div
  deriving DecidableEq, Repr

namespace TextTag

def name : TextTag → String
  | h1 => "h1"
  | h2 => "h2"
  | h3 => "h3"
  | h4 => "h4"
  | h5 => "h5"
  | h6 => "h6"
  | p => "p"
  | div => "div"

def all : List TextTag := [h1, h2, h3, h4, h5, h6, p, div]

def ofName? (name : String) : Option TextTag := all.find? fun t => t.name == name

end TextTag

/-- One element. A list also counts the entries that are not text; a custom element is the mapping
it was written as, for the rule of its tag; what has no meaning is kept as it was written. -/
inductive Element
  | scalar (text : String)
  | marker (decoration : Decoration)
  | text (tag : TextTag) (content : String) (decoration : Decoration)
  | image (source : String) (decoration : Decoration)
  | list (entries : List String) (skipped : Nat) (decoration : Decoration)
  | custom (tag : String) (value : Value)
  | unrecognized (value : Value)

namespace Element

/-- The tag of a typed element. -/
def tag? : Element → Option String
  | scalar _ | unrecognized _ => none
  | marker _ => some "config"
  | text tag _ _ => some tag.name
  | image _ _ => some "img"
  | list _ _ _ => some "ul"
  | custom tag _ => some tag

/-- The decoration of an element that carries one. -/
def decoration? : Element → Option Decoration
  | marker d | text _ _ d | image _ d | list _ _ d => some d
  | scalar _ | custom _ _ | unrecognized _ => none

/-- The decoration that an element gives to the subsection around it. -/
def marker? : Element → Option Decoration
  | marker d => some d
  | _ => none

end Element

structure Subsection where
  elements : List Element

/-- The decoration of a subsection: that of its first marker. -/
def Subsection.decoration? (s : Subsection) : Option Decoration := s.elements.findSome? (·.marker?)

/-- A section is flat, with elements of its own, or divided into named subsections. -/
inductive Section
  | flat (content : Subsection)
  | divided (decoration : Option Decoration) (subsections : List (String × Subsection))

/-- Sections in order, each with its name. -/
structure Deck where
  sections : List (String × Section)

namespace Deck

def size (d : Deck) : Nat := d.sections.length

def isEmpty (d : Deck) : Bool := d.sections.isEmpty

/-- The first section with the given name. -/
def section? (d : Deck) (name : String) : Option Section := d.sections.lookup name

end Deck

end Slideshow
