import Slideshow.Deck.Basic
import Slideshow.Markup.Escape
import Slideshow.Rule.Template

/-! The markup of decks: a wrapper around every section and every subsection, with the elements on
lines of their own. The contents are put in as they are. -/

namespace Slideshow

namespace Markup

/-- An attribute with a space in front of it. -/
def attributeText (a : String × String) : String := " " ++ a.1 ++ "=\"" ++ a.2 ++ "\""

/-- Content inside a tag. The class names are always there, joined by spaces; other attributes
follow in order. -/
def wrap (content tag : String) (classes : List String) (attributes : List (String × String)) :
    String :=
  "<" ++ tag ++ " class=\"" ++ " ".intercalate classes ++ "\"" ++
    String.join (attributes.map attributeText) ++ ">" ++ content ++ "</" ++ tag ++ ">"

/-- Texts on lines of their own. -/
def lines (texts : List String) : String := "\n".intercalate texts

def sectionTag : String := "section"

/-- An entry of a list. -/
def item (content : String) : String := "<li>" ++ content ++ "</li>"

end Markup

open Markup

/-- The class names of a decoration that may be missing. -/
def classesOf (d : Option Decoration) : List String := (d.map (·.classes)).getD []

/-- The markup of an element. Markers, custom elements without a rule and unrecognized values have
none. -/
def Element.render (rules : RuleSet) : Element → String
  | scalar s => wrap s "p" [] []
  | text tag content d => wrap content tag.name d.classes []
  | image source d => wrap "" "img" d.classes [("src", source)]
  | list entries _ d => wrap (lines (entries.map item)) "ul" d.classes []
  | custom tag v =>
    match rules.get? tag with
    | some rule => rule v
    | none => ""
  | marker _ | unrecognized _ => ""

/-- A subsection in its wrapper. Every element gives a line, an empty one included. -/
def Subsection.render (rules : RuleSet) (s : Subsection) : String :=
  wrap (lines (s.elements.map (·.render rules))) sectionTag (classesOf s.decoration?) []

/-- A section in its wrapper. A flat one is the wrapper of a single subsection. -/
def Section.render (rules : RuleSet) : Section → String
  | flat content => wrap (content.render rules) sectionTag [] []
  | divided d parts =>
    wrap (lines (parts.map fun part => part.2.render rules)) sectionTag (classesOf d) []

/-- The markup of a deck, not escaped. -/
def Deck.render (rules : RuleSet) (d : Deck) : String :=
  lines (d.sections.map fun part => part.2.render rules)

/-- The markup of a deck as it stands in a template literal. -/
def Deck.compile (rules : RuleSet) (d : Deck) : String := escape (d.render rules)

/-- The module that exports the markup of a deck. -/
def Deck.toModule (rules : RuleSet) (d : Deck) : String := Markup.toModule (d.compile rules)

end Slideshow
