import Slideshow.Deck.Basic
import Slideshow.Deck.Error
import Slideshow.Rule.Template

/-! What is worth telling about a deck: values that render as nothing, decorations without effect,
and empty sections. Rendering never depends on it. -/

namespace Slideshow

inductive Severity
  | error
  | warning
  | info
  deriving DecidableEq, Repr

def Severity.name : Severity → String
  | error => "error"
  | warning => "warning"
  | info => "info"

/-- What was found. Elements are counted from zero in their subsection. -/
inductive Finding
  | notLoaded (cause : LoadError)
  | noRule (index : Nat) (tag : String)
  | unrecognized (index : Nat)
  | skippedEntries (index : Nat) (count : Nat)
  | secondMarker (index : Nat)
  | styleUnused
  | noSubsections
  | noElements
  deriving DecidableEq, Repr

namespace Finding

def code : Finding → String
  | notLoaded _ => "D000"
  | noRule _ _ => "D001"
  | unrecognized _ | skippedEntries _ _ => "D002"
  | secondMarker _ => "D003"
  | styleUnused => "D004"
  | noSubsections | noElements => "D005"

def severity : Finding → Severity
  | notLoaded _ => .error
  | styleUnused => .info
  | _ => .warning

def message : Finding → String
  | notLoaded cause => cause.message
  | noRule i tag =>
    "Element " ++ toString i ++ ": no rule registered for type '" ++ tag ++
      "'; it renders as nothing"
  | unrecognized i =>
    "Element " ++ toString i ++ ": unrecognized element shape; it renders as nothing"
  | skippedEntries i n =>
    "Element " ++ toString i ++ ": " ++ toString n ++
      " list entries are not text and render as nothing"
  | secondMarker i =>
    "Element " ++ toString i ++ ": more than one config marker; only the first is used"
  | styleUnused => "style is not rendered and has no effect"
  | noSubsections => "Section has no subsections"
  | noElements => "Subsection has no elements"

end Finding

/-- A finding and the dotted name of the section or subsection that it is about. -/
structure Diagnostic where
  place : String
  finding : Finding
  deriving DecidableEq, Repr

/-- The finding that a decoration gives rise to. -/
def Decoration.findings (d : Decoration) : List Finding :=
  if d.hasStyle then [.styleUnused] else []

/-- What is lost of the element at an index, which `markers` markers precede. -/
def Element.losses (rules : RuleSet) (index markers : Nat) : Element → List Finding
  | marker _ => if markers = 1 then [.secondMarker index] else []
  | custom tag _ => if rules.contains tag then [] else [.noRule index tag]
  | list _ skipped _ => if 0 < skipped then [.skippedEntries index skipped] else []
  | unrecognized _ => [.unrecognized index]
  | scalar _ | text _ _ _ | image _ _ => []

/-- The findings on the elements from an index on, of which `markers` markers come before. -/
def elementFindings (rules : RuleSet) (index markers : Nat) : List Element → List Finding
  | [] => []
  | e :: es =>
    let own := match e.decoration? with
      | some d => d.findings
      | none => []
    let markersAfter := if e.marker?.isSome then markers + 1 else markers
    own ++ e.losses rules index markers ++ elementFindings rules (index + 1) markersAfter es

def Subsection.findings (rules : RuleSet) (s : Subsection) : List Finding :=
  (if s.elements.isEmpty then [.noElements] else []) ++ elementFindings rules 0 0 s.elements

/-- The findings on the subsection at a place. -/
def Subsection.diagnostics (rules : RuleSet) (place : String) (s : Subsection) :
    List Diagnostic :=
  (s.findings rules).map (Diagnostic.mk place)

def Section.diagnostics (rules : RuleSet) (name : String) : Section → List Diagnostic
  | flat content => content.diagnostics rules name
  | divided decoration parts =>
    let own := match decoration with
      | some d => d.findings
      | none => []
    let empty := if parts.isEmpty then [Finding.noSubsections] else []
    (own ++ empty).map (Diagnostic.mk name) ++
      parts.flatMap fun part => part.2.diagnostics rules (name ++ "." ++ part.1)

/-- All findings on a deck, in its order. -/
def Deck.diagnostics (rules : RuleSet) (d : Deck) : List Diagnostic :=
  d.sections.flatMap fun part => part.2.diagnostics rules part.1

/-- The one diagnostic of a text that is not a deck. -/
def LoadError.diagnostic (e : LoadError) : Diagnostic := ⟨e.place, .notLoaded e⟩

end Slideshow
