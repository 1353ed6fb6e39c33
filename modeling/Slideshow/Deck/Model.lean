import Slideshow.Deck.Basic
import Slideshow.Json.Basic

/-! The JSON form of a deck. Only the values that custom and unrecognized elements carry can be
beyond JSON: a key of a mapping must be a scalar, and a finite one. -/

namespace Slideshow

open Yaml (Value Number)

/-- Why a key of a mapping cannot be the name of a field. -/
inductive KeyError
  | notScalar
  | notFinite
  deriving DecidableEq, Repr

def KeyError.message : KeyError → String
  | notScalar => "key must be a string"
  | notFinite => "float key must be finite (got NaN or +/-inf)"

/-- A number as a value: one that is not finite is null. -/
def Yaml.Number.toJson : Number → Json
  | .integer n => .integer n
  | .real x => if x.isFinite then .real x else .null

/-- The field name that a key gives. -/
def fieldName : Value → Except KeyError String
  | .string s => .ok s
  | .bool b => .ok (if b then "true" else "false")
  | .number (.integer n) => .ok (toString n)
  | .number (.real x) =>
    if x.isFinite then .ok (String.ofList (Json.realText x)) else .error .notFinite
  | _ => .error .notScalar

mutual

/-- A value in JSON: a mapping is an object, a tagged value an object with its tag as only field.
The error is that of the first key in the order of writing. -/
def Yaml.Value.toJson : Value → Except KeyError Json
  | .null => .ok .null
  | .bool b => .ok (.bool b)
  | .number n => .ok n.toJson
  | .string s => .ok (.string s)
  | .list vs => return .array (← itemsToJson vs)
  | .mapping es => return .object (← entriesToJson es)
  | .tagged tag v => return .object [("!" ++ tag, ← v.toJson)]

def itemsToJson : List Value → Except KeyError (List Json)
  | [] => .ok []
  | v :: vs => do
    let first ← v.toJson
    return first :: (← itemsToJson vs)

def entriesToJson : List (Value × Value) → Except KeyError (List (String × Json))
  | [] => .ok []
  | (key, v) :: es => do
    let name ← fieldName key
    let first ← v.toJson
    return (name, first) :: (← entriesToJson es)

end

def StyleValue.toJson : StyleValue → Json
  | text s => .string s
  | number n => n.toJson

/-- The fields of a decoration: no class names and no style are left out. -/
def Decoration.jsonFields (d : Decoration) : List (String × Json) :=
  let classes := if d.classes.isEmpty then [] else [("className", .array (d.classes.map .string))]
  let style := match d.style with
    | some style => [("style", .object (style.map StyleValue.toJson).entries)]
    | none => []
  classes ++ style

def Decoration.toJson (d : Decoration) : Json := .object d.jsonFields

/-- The first field of an object that can be of several kinds. -/
def kindField (kind : String) : String × Json := ("kind", .string kind)

def Element.toJson : Element → Except KeyError Json
  | scalar s => .ok (.object [kindField "scalar", ("text", .string s)])
  | marker d => .ok (.object (kindField "config" :: d.jsonFields))
  | text tag content d =>
    .ok (.object (kindField "text" :: ("tag", .string tag.name) :: ("content", .string content) ::
      d.jsonFields))
  | image source d =>
    .ok (.object (kindField "image" :: ("src", .string source) :: d.jsonFields))
  | list entries _ d =>
    .ok (.object (kindField "list" :: ("contents", .array (entries.map .string)) :: d.jsonFields))
  | custom tag v =>
    return .object [kindField "custom", ("tag", .string tag), ("value", ← v.toJson)]
  | unrecognized v => return .object [kindField "unrecognized", ("value", ← v.toJson)]

def Subsection.jsonField (s : Subsection) : Except KeyError (String × Json) :=
  return ("elements", .array (← s.elements.mapM Element.toJson))

def Section.toJson : Section → Except KeyError Json
  | flat content => return .object [kindField "sub", ← content.jsonField]
  | divided decoration subsections => do
    let parts ← subsections.mapM fun (name, content) =>
      return .array [.string name, .object [← content.jsonField]]
    let decoration := match decoration with
      | some d => d.toJson
      | none => .null
    return .object [kindField "main", ("config", decoration), ("subsections", .array parts)]

def Deck.toJson (d : Deck) : Except KeyError Json := do
  let sections ← d.sections.mapM fun (name, body) => return .array [.string name, ← body.toJson]
  return .object [("sections", .array sections)]

end Slideshow
