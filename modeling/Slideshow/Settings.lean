import Slideshow.Dictionary
import Slideshow.Json.Reader
import Slideshow.Path
import Slideshow.Rule.Template

/-! The settings of a project: where modules go, which files are decks, and the rules for custom
elements. -/

namespace Slideshow

structure Settings where
  outDir : Option String := none
  extensions : List String := ["yaml", "yml"]
  templates : Dictionary String := .empty

namespace Settings

/-- A text, or nothing for null. -/
def textOrNull? : JsonText → Option (Option String)
  | .null => some none
  | .string s => s.map some
  | _ => none

def text? : JsonText → Option String
  | .string s => s
  | _ => none

/-- A list of texts. -/
def texts? : JsonText → Option (List String)
  | .array vs => vs.mapM text?
  | _ => none

/-- Texts under names; of two under one name the later stays. -/
def dictionary? : JsonText → Option (Dictionary String)
  | .object fs => do
    let entries ← fs.mapM fun (f : Option String × JsonText) => do return (← f.1, ← text? f.2)
    return .ofList entries
  | _ => none

/-- The settings with each part that is given; what is not given has its default. -/
def ofParts? (outDir extensions templates : Option JsonText) : Option Settings := do
  let defaults : Settings := {}
  let outDir ← (outDir.map textOrNull?).getD (some defaults.outDir)
  let extensions ← (extensions.map texts?).getD (some defaults.extensions)
  let templates ← (templates.map dictionary?).getD (some defaults.templates)
  return { outDir, extensions, templates }

/-- Settings as an object, in which each known field stands at most once and others do not count, or
as an array of the known fields in order, which may end early. -/
def ofJson? : JsonText → Option Settings
  | .object fs => do
    let fs ← fs.mapM fun f => f.1.map fun name => (name, f.2)
    let names := fs.map (·.1)
    if ["outDir", "extensions", "rules"].all fun name => names.count name ≤ 1 then
      ofParts? (fs.lookup "outDir") (fs.lookup "extensions") (fs.lookup "rules")
    else none
  | .array vs => if vs.length ≤ 3 then ofParts? vs[0]? vs[1]? vs[2]? else none
  | _ => none

/-- The settings that a text holds. -/
def read? (text : String) : Option Settings := (JsonText.read? text).bind ofJson?

/-- The rules of the templates. -/
def rules (s : Settings) : RuleSet := .ofTemplates s.templates

/-- Whether two texts differ at most in the case of ASCII letters. -/
def sameUpToCase (a b : String) : Bool := a.toList.map Char.toLower == b.toList.map Char.toLower

/-- Whether a path has the extension of a deck. -/
def isDeck (s : Settings) (p : Path) : Bool :=
  match p.extension? with
  | some e => s.extensions.any (sameUpToCase e)
  | none => false

end Settings

end Slideshow
