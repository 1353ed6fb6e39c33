import Slideshow.Browser
import Slideshow.Proofs.Dictionary
import Slideshow.Proofs.Json.Written
import Slideshow.Proofs.Success
import Slideshow.Proofs.Yaml.Document

/-! The JSON form of a deck determines its markup: all that the markup is made of can be found in it,
and it can be read back from its text. -/

namespace Slideshow

open Markup

/-! ### Looking into JSON -/

namespace JsonText

/-- The text of a string. -/
def text : JsonText → String
  | string s => s.getD ""
  | _ => ""

def items : JsonText → List JsonText
  | array vs => vs
  | _ => []

def field (name : String) : JsonText → JsonText
  | object fs => (fs.lookup (some name)).getD null
  | _ => null

/-- The value behind a name. -/
def second (v : JsonText) : JsonText := v.items[1]?.getD null

def hasKind (kind : String) (v : JsonText) : Bool := (v.field "kind").text == kind

def classes (v : JsonText) : List String := (v.field "className").items.map text

/-- The class names of a marker. -/
def markerClasses? (v : JsonText) : Option (List String) :=
  if v.hasKind "config" then some v.classes else none

/-- The markup of an element without rules. -/
def elementMarkup (v : JsonText) : String :=
  if v.hasKind "scalar" then wrap (v.field "text").text "p" [] []
  else if v.hasKind "text" then wrap (v.field "content").text (v.field "tag").text v.classes []
  else if v.hasKind "image" then wrap "" "img" v.classes [("src", (v.field "src").text)]
  else if v.hasKind "list" then
    wrap (lines ((v.field "contents").items.map fun entry => item entry.text)) "ul" v.classes []
  else ""

def subsectionMarkup (v : JsonText) : String :=
  let elements := (v.field "elements").items
  wrap (lines (elements.map elementMarkup)) sectionTag
    ((elements.findSome? markerClasses?).getD []) []

def sectionMarkup (v : JsonText) : String :=
  if v.hasKind "sub" then wrap v.subsectionMarkup sectionTag [] []
  else
    wrap (lines ((v.field "subsections").items.map fun part => part.second.subsectionMarkup))
      sectionTag (v.field "config").classes []

def deckMarkup (v : JsonText) : String :=
  lines ((v.field "sections").items.map fun part => part.second.sectionMarkup)

end JsonText

open JsonText
open Json (itemsAsRead fieldsAsRead)

namespace Json

theorem field_asRead (name : String) (fs : List (String × Json)) :
    (object fs).asRead.field name = ((fs.lookup name).map asRead).getD .null := by
  show ((fieldsAsRead fs).lookup (some name)).getD .null = _
  congr 1
  induction fs with
  | nil => rfl
  | cons f fs ih =>
    obtain ⟨key, v⟩ := f
    rw [fieldsAsRead, Dictionary.lookup_cons, Dictionary.lookup_cons, ih]
    by_cases hName : name = key <;> simp [hName]

theorem map_strings (f : String → String) (texts : List String) :
    (array (texts.map string)).asRead.items.map (fun v => f v.text) = texts.map f := by
  show (itemsAsRead (texts.map string)).map (fun v => f v.text) = texts.map f
  rw [itemsAsRead_eq_map, List.map_map, List.map_map]
  rfl

end Json

theorem Decoration.lookup_jsonFields (d : Decoration) :
    d.jsonFields.lookup "className" =
      if d.classes.isEmpty then none else some (.array (d.classes.map .string)) := by
  simp only [jsonFields]
  rw [List.lookup_append]
  split
  · cases d.style <;> rfl
  · rfl

/-- The class names are found behind any fields with other names. -/
theorem Decoration.classes_jsonFields (d : Decoration) (before : List (String × Json))
    (h : before.lookup "className" = none) :
    (Json.object (before ++ d.jsonFields)).asRead.classes = d.classes := by
  rw [JsonText.classes, Json.field_asRead, List.lookup_append, h, Option.none_or, lookup_jsonFields]
  split
  · rename_i hNone
    exact (List.isEmpty_iff.1 hNone).symm
  · exact (Json.map_strings id d.classes).trans (List.map_id _)

/-- An element is rendered from its JSON, and is a marker there if it is one. -/
theorem Element.markup_asRead {e : Element} {v : Json} (h : e.toJson = .ok v) :
    v.asRead.elementMarkup = e.render .empty ∧
      v.asRead.markerClasses? = e.marker?.map (·.classes) := by
  cases e with
  | scalar s =>
    cases h
    exact ⟨rfl, rfl⟩
  | marker d =>
    cases h
    refine ⟨rfl, ?_⟩
    show some (Json.object ([kindField "config"] ++ d.jsonFields)).asRead.classes = _
    rw [d.classes_jsonFields _ rfl]
    rfl
  | text tag content d =>
    cases h
    refine ⟨?_, rfl⟩
    show wrap content tag.name (Json.object ([kindField "text", ("tag", .string tag.name),
      ("content", .string content)] ++ d.jsonFields)).asRead.classes [] = _
    rw [d.classes_jsonFields _ rfl]
    rfl
  | image source d =>
    cases h
    refine ⟨?_, rfl⟩
    show wrap "" "img" (Json.object ([kindField "image", ("src", .string source)] ++
      d.jsonFields)).asRead.classes [("src", source)] = _
    rw [d.classes_jsonFields _ rfl]
    rfl
  | list entries _ d =>
    cases h
    refine ⟨?_, rfl⟩
    show wrap (lines ((Json.array (entries.map .string)).asRead.items.map fun entry =>
        item entry.text)) "ul" (Json.object ([kindField "list",
      ("contents", .array (entries.map .string))] ++ d.jsonFields)).asRead.classes [] = _
    rw [d.classes_jsonFields _ rfl, Json.map_strings]
    rfl
  | custom tag v =>
    obtain ⟨w, -, hObject⟩ := bind_eq_ok.1 h
    cases hObject
    exact ⟨rfl, rfl⟩
  | unrecognized v =>
    obtain ⟨w, -, hObject⟩ := bind_eq_ok.1 h
    cases hObject
    exact ⟨rfl, rfl⟩

theorem findSome?_eq_map {α β : Type} (f : α → Option β) (as : List α) :
    as.findSome? f = (as.map f).findSome? id := by
  rw [List.findSome?_map]
  rfl

theorem Subsection.markup_asRead {s : Subsection} {f : String × Json} (h : s.jsonField = .ok f)
    (before : List (String × Json)) (hBefore : before.lookup "elements" = none) :
    (Json.object (before ++ [f])).asRead.subsectionMarkup = s.render .empty := by
  obtain ⟨vs, hElements, hField⟩ := bind_eq_ok.1 h
  cases hField
  have hMarkup : (vs.map Json.asRead).map elementMarkup = s.elements.map (·.render .empty) := by
    rw [List.map_map]
    exact map_eq_of_mapM (fun e v h => (Element.markup_asRead h).1) hElements
  have hMarkers : (vs.map Json.asRead).map markerClasses? =
      s.elements.map fun e => e.marker?.map (·.classes) := by
    rw [List.map_map]
    exact map_eq_of_mapM (fun e v h => (Element.markup_asRead h).2) hElements
  have hItems :
      ((Json.object (before ++ [("elements", .array vs)])).asRead.field "elements").items =
        vs.map Json.asRead := by
    rw [Json.field_asRead, List.lookup_append, hBefore, ← Json.itemsAsRead_eq_map]
    rfl
  simp only [subsectionMarkup, hItems, hMarkup]
  rw [findSome?_eq_map, hMarkers, ← findSome?_eq_map, render, classesOf, decoration?,
    List.map_findSome?]
  rfl

theorem Section.markup_asRead {s : Section} {v : Json} (h : s.toJson = .ok v) :
    v.asRead.sectionMarkup = s.render .empty := by
  cases s with
  | flat content =>
    obtain ⟨f, hField, hObject⟩ := bind_eq_ok.1 h
    cases hObject
    show wrap (Json.object ([kindField "sub"] ++ [f])).asRead.subsectionMarkup sectionTag [] [] = _
    rw [Subsection.markup_asRead hField _ rfl]
    rfl
  | divided decoration parts =>
    obtain ⟨vs, hParts, hObject⟩ := bind_eq_ok.1 h
    cases hObject
    have hMarkup : (itemsAsRead vs).map (fun part => part.second.subsectionMarkup) =
        parts.map fun part => part.2.render .empty := by
      rw [Json.itemsAsRead_eq_map, List.map_map]
      refine map_eq_of_mapM ?_ hParts
      rintro ⟨name, content⟩ w hPart
      obtain ⟨f, hField, hArray⟩ := bind_eq_ok.1 hPart
      cases hArray
      exact Subsection.markup_asRead hField [] rfl
    rw [sectionMarkup, if_neg (by exact Bool.false_ne_true)]
    show wrap (lines ((itemsAsRead vs).map fun part => part.second.subsectionMarkup)) sectionTag
      (Json.asRead _).classes [] = _
    rw [hMarkup]
    apply congrArg (wrap _ sectionTag · [])
    cases decoration with
    | none => rfl
    | some d => exact d.classes_jsonFields [] rfl

theorem Deck.markup_asRead {d : Deck} {v : Json} (h : d.toJson = .ok v) :
    v.asRead.deckMarkup = d.render .empty := by
  obtain ⟨vs, hSections, hObject⟩ := bind_eq_ok.1 h
  cases hObject
  have hMarkup : (itemsAsRead vs).map (fun part => part.second.sectionMarkup) =
      d.sections.map fun part => part.2.render .empty := by
    rw [Json.itemsAsRead_eq_map, List.map_map]
    refine map_eq_of_mapM ?_ hSections
    rintro ⟨name, body⟩ w hPart
    obtain ⟨v, hBody, hArray⟩ := bind_eq_ok.1 hPart
    cases hArray
    exact Section.markup_asRead hBody
  show lines ((itemsAsRead vs).map fun part => part.second.sectionMarkup) = _
  rw [hMarkup]
  rfl

namespace Browser

/-- The markup of the deck that a JSON text is the model of. -/
def markupOf (json : String) : String := ((JsonText.read? json).map deckMarkup).getD ""

theorem model_eq_ok {text json : String} (h : model text = .ok json) :
    ∃ deck, Deck.read text = .ok deck ∧ markupOf json = deck.render .empty := by
  rw [model] at h
  split at h
  · exact nomatch h
  · rename_i deck hDeck
    split at h
    · exact nomatch h
    · rename_i v hJson
      cases h
      refine ⟨deck, hDeck, ?_⟩
      rw [markupOf, JsonText.read?_compact, Option.map_some, Option.getD_some]
      exact Deck.markup_asRead hJson

/-- Two texts with one model have one markup in all its forms, which is found in the model. -/
theorem markup_eq_of_model {a b json : String} (ha : model a = .ok json) (hb : model b = .ok json) :
    compile a = compile b ∧ renderHtml a = renderHtml b ∧ compileModule a = compileModule b ∧
      renderHtml a = .ok (markupOf json) := by
  obtain ⟨d, hd, hMarkup⟩ := model_eq_ok ha
  obtain ⟨e, he, hSame⟩ := model_eq_ok hb
  have hRender : d.render .empty = e.render .empty := hMarkup.symm.trans hSame
  have hCompile : d.compile .empty = e.compile .empty := congrArg escape hRender
  have hModule : d.toModule .empty = e.toModule .empty := congrArg toModule hCompile
  rw [compile, compile, renderHtml, renderHtml, compileModule, compileModule, hd, he, hMarkup]
  exact ⟨congrArg Except.ok hCompile, congrArg Except.ok hRender, congrArg Except.ok hModule, rfl⟩

theorem markup_eq_of_model_truthAndText :
    ∃ json, model "s: [true]" = .ok json ∧ model "s: ['true']" = .ok json ∧
      compile "s: [true]" = compile "s: ['true']" ∧
      renderHtml "s: [true]" = .ok (markupOf json) := by
  have hTruthTokens : (Yaml.Token.scan "s: [true]").toOption =
      some (Yaml.listUnder "s" [.scalar "true" true]) := by decide +kernel
  have hTextTokens : (Yaml.Token.scan "s: ['true']").toOption =
      some (Yaml.listUnder "s" [.scalar "true" false]) := by decide +kernel
  have hTruth : Yaml.read "s: [true]" =
      .ok (.mapping [(.string "s", .list [.bool true])]) := Yaml.read_of_scan hTruthTokens rfl
  have hText : Yaml.read "s: ['true']" =
      .ok (.mapping [(.string "s", .list [.string "true"])]) := Yaml.read_of_scan hTextTokens rfl
  have ha : model "s: [true]" = .ok (Json.object [("sections", .array [.array [.string "s",
      .object [kindField "sub", ("elements", .array
        [.object [kindField "scalar", ("text", .string "true")]])]]])]).compact := by
    rw [model, Deck.read, hTruth]
    rfl
  have hb : model "s: ['true']" = model "s: [true]" := by
    rw [model, model, Deck.read, Deck.read, hTruth, hText]
    rfl
  have hSame := markup_eq_of_model ha (hb.trans ha)
  exact ⟨_, ha, hb.trans ha, hSame.1, hSame.2.2.2⟩

end Browser

end Slideshow
