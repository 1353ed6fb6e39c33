import Slideshow.Deck.Basic
import Slideshow.Deck.Merge
import Slideshow.Yaml.Document

/-! Decks from values, and from texts. Every value of a mapping of sections must be a list of elements or a mapping
of such lists; any value at all is an element. -/

namespace Slideshow

open Yaml (Value Mapping Shape)

/-- The key of a decoration in a divided section, and the type of an element that is a marker. -/
def configName : String := "config"

/-- The properties of a style, in order: texts and numbers under scalar keys. Others are left
out. -/
def styleEntries : List (Value × Value) → List (String × StyleValue)
  | [] => []
  | (key, v) :: es =>
    match key.scalarText?, v with
    | some name, .string s => (name, .text s) :: styleEntries es
    | some name, .number n => (name, .number n) :: styleEntries es
    | _, _ => styleEntries es

/-- The class names and the style given in a mapping, which may hold anything else beside them. -/
def Decoration.ofMapping (m : Mapping) : Decoration where
  classes := match m.field? "className" with
    | some (.list vs) => vs.filterMap (·.scalarText?)
    | some (.string s) => [s]
    | _ => []
  style := match m.field? "style" with
    | some (.mapping es) => some (.ofList (styleEntries es))
    | _ => none

/-- The scalar under a field. -/
def scalarField? (m : Mapping) (name : String) : Option String :=
  (m.field? name).bind (·.scalarText?)

namespace Element

/-- The element of a given type that a mapping describes, if the field it needs is there. -/
def ofTyped (tag : String) (m : Mapping) : Element :=
  if tag = configName then .marker (.ofMapping m)
  else match TextTag.ofName? tag with
    | some textTag =>
      match scalarField? m "content" with
      | some content => .text textTag content (.ofMapping m)
      | none => .unrecognized (.mapping m)
    | none =>
      if tag = "img" then
        match scalarField? m "src" with
        | some source => .image source (.ofMapping m)
        | none => .unrecognized (.mapping m)
      else if tag = "ul" then
        match m.field? "contents" with
        | some (.list vs) =>
          let entries := vs.filterMap (·.scalarText?)
          .list entries (vs.length - entries.length) (.ofMapping m)
        | _ => .unrecognized (.mapping m)
      else .custom tag (.mapping m)

/-- The element that a value describes: a scalar stands for its text, a mapping for an element of
its type. -/
def ofValue (v : Value) : Element :=
  match v with
  | .mapping m =>
    match Mapping.field? m "type" with
    | some (.string tag) => ofTyped tag m
    | _ => .unrecognized v
  | _ =>
    match v.scalarText? with
    | some shown => .scalar shown
    | none => .unrecognized v

end Element

def Subsection.ofItems (vs : List Value) : Subsection := ⟨vs.map Element.ofValue⟩

/-- The name that a key gives, in the section called `place`. -/
def keyName (place : String) (key : Value) : Except LoadError String :=
  match key.scalarText? with
  | some name => .ok name
  | none => .error (.malformed place ⟨.scalarKey, .ofValue key⟩)

/-- The decoration of a divided section: its last `config` entry, empty unless that is a mapping. -/
def sectionDecoration? (m : Mapping) : Option Decoration :=
  match List.find? (fun e => e.1.scalarText? == some configName) m.reverse with
  | some (_, .mapping es) => some (.ofMapping es)
  | some _ => some {}
  | none => none

/-- The subsections of the section called `place`: every entry but `config`, in order. -/
def readSubsections (place : String) :
    List (Value × Value) → Except LoadError (List (String × Subsection))
  | [] => .ok []
  | (key, v) :: es => do
    let name ← keyName place key
    if name = configName then readSubsections place es
    else match v with
      | .list vs => return (name, .ofItems vs) :: (← readSubsections place es)
      | _ => .error (.malformed (place ++ "." ++ name) ⟨.elements, .ofValue v⟩)

/-- The section called `name`: flat when its value is a list, divided when it is a mapping. -/
def Section.ofValue (name : String) (v : Value) : Except LoadError Section :=
  match v with
  | .list vs => .ok (.flat (.ofItems vs))
  | .mapping m => (readSubsections name m).map (.divided (sectionDecoration? m))
  | _ => .error (.malformed name ⟨.sectionBody, .ofValue v⟩)

def readSections : List (Value × Value) → Except LoadError (List (String × Section))
  | [] => .ok []
  | (key, v) :: es => do
    let name ← keyName rootName key
    let body ← Section.ofValue name v
    return (name, body) :: (← readSections es)

/-- The deck that a value describes, its merge keys taken as ordinary keys; null is the empty
deck. -/
def Deck.ofValue (v : Value) : Except LoadError Deck :=
  match v with
  | .null => .ok ⟨[]⟩
  | .mapping es => (readSections es).map Deck.mk
  | _ => .error (.malformed rootName ⟨.sections, .ofValue v⟩)

/-- The deck that a text writes, its merge keys expanded. -/
def Deck.read (text : String) : Except LoadError Deck :=
  match Yaml.read text with
  | .error cause => .error (.yaml cause)
  | .ok v => do Deck.ofValue (← expandMerges rootName v)

end Slideshow
