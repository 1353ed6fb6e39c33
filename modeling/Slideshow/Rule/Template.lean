import Slideshow.Dictionary
import Slideshow.Text
import Slideshow.Yaml.Value

/-! Rules for elements whose type is not built in, one per type, and the templates that they are
written in: text with fields in braces, in which a doubled brace is a literal one. A template is read
as a row of tokens, and the tokens as segments of literal text and fields. -/

namespace Slideshow

open Yaml (Value Mapping)

/-- A rule gives the markup of an element from the whole mapping that describes it. -/
abbrev Rule := Yaml.Value → String

/-- Rules under the types they are for; registering a rule again replaces it. -/
abbrev RuleSet := Dictionary Rule

namespace Template

/-- The opening brace. -/
def opening : Char := '\x7b'

/-- The closing brace. -/
def closing : Char := '\x7d'

/-- The tokens of a template. A tail is an opening brace that is never closed, with all that
follows. -/
inductive Token
  | openingPair
  | closingPair
  | hole (raw : List Char)
  | char (c : Char)
  | tail (text : List Char)
  deriving DecidableEq, Repr

/-- The tokens of a text, from left to right. -/
def scan (cs : List Char) : List Token :=
  match cs with
  | [] => []
  | c :: rest =>
    if c = opening then
      if rest.head? = some opening then .openingPair :: scan (rest.drop 1)
      else if closing ∈ rest then
        let raw := rest.takeWhile (· ≠ closing)
        .hole raw :: scan (rest.drop (raw.length + 1))
      else [.tail cs]
    else if c = closing ∧ rest.head? = some closing then .closingPair :: scan (rest.drop 1)
    else .char c :: scan rest
termination_by cs.length
decreasing_by all_goals simp only [List.length_drop, List.length_cons]; omega

/-- A part of a template. -/
inductive Segment
  | literal (text : String)
  | field (name : String)
  deriving DecidableEq, Repr

/-- Literal text in front of segments, joined with a literal that they start with. -/
def prepend (text : List Char) : List Segment → List Segment
  | .literal s :: rest => .literal (String.ofList text ++ s) :: rest
  | rest => if text.isEmpty then rest else .literal (String.ofList text) :: rest

/-- The segments that tokens stand for. White space around the name of a field does not count. -/
def meaning : List Token → List Segment
  | [] => []
  | .openingPair :: ts => prepend [opening] (meaning ts)
  | .closingPair :: ts => prepend [closing] (meaning ts)
  | .hole raw :: ts => .field (String.ofList (Text.trim raw)) :: meaning ts
  | .char c :: ts => prepend [c] (meaning ts)
  | .tail text :: ts => prepend text (meaning ts)

end Template

/-- A template: literals, of which none is empty and no two are adjacent, and fields. -/
structure Template where
  segments : List Template.Segment
  deriving DecidableEq, Repr

namespace Template

def parse (text : String) : Template := ⟨meaning (scan text.toList)⟩

/-- The text of a field of an element: the scalar under its name, looked up under any tags around
the mapping, or nothing. -/
def fieldText (element : Value) (name : String) : String :=
  match element.untag with
  | .mapping es => ((Mapping.field? es name).bind (·.scalarText?)).getD ""
  | _ => ""

def Segment.render (element : Value) : Segment → String
  | literal text => text
  | field name => fieldText element name

/-- The rule of a template: its literals, with the texts of the element's fields between them. -/
def render (t : Template) : Rule := fun element =>
  String.join (t.segments.map (·.render element))

end Template

/-- The rules of templates given by type. -/
def RuleSet.ofTemplates (templates : Dictionary String) : RuleSet :=
  templates.map fun text => (Template.parse text).render

end Slideshow
