import Slideshow.Proofs.Deck.Stripped
import Slideshow.Proofs.Rule.Reach
import Slideshow.Proofs.Yaml.Mapping

/-! What no output shows. Documents that differ only in the styles of sections and of elements of
built-in types, and in the names of sections and subsections, are read alike: their decks have the
same markup and are told the same, unused styles apart. -/

namespace Slideshow

open Yaml (Value Mapping)

/-! ### Documents alike -/

/-- Two mappings with the same fields but for the style, which may be new, gone or another. -/
def Restyled (m m' : Mapping) : Prop := ∀ name, name ≠ "style" → m.field? name = m'.field? name

/-- Two items of a subsection: the same, or elements of one built-in type with other styles. -/
inductive SameItem : Value → Value → Prop
  | unchanged (v : Value) : SameItem v v
  | restyled {m m' : Mapping} {tag : String} : m.field? "type" = some (.string tag) →
      tag ∈ builtInTypes → Restyled m m' → SameItem (.mapping m) (.mapping m')

/-- Two entries of a divided section: decorations with other styles, or subsections with other
names. -/
inductive SamePart : Value × Value → Value × Value → Prop
  | unchanged {key : Value} (v : Value) : key.scalarText? = some configName →
      SamePart (key, v) (key, v)
  | restyled {key : Value} {m m' : Mapping} : key.scalarText? = some configName → Restyled m m' →
      SamePart (key, .mapping m) (key, .mapping m')
  | renamed {key key' : Value} {items items' : List Value} :
      key.scalarText? ≠ some configName → key'.IsScalar → key'.scalarText? ≠ some configName →
      List.Forall₂ SameItem items items' → SamePart (key, .list items) (key', .list items')

/-- Two sections, which may have different names. -/
inductive SameSection : Value × Value → Value × Value → Prop
  | flat {key key' : Value} {items items' : List Value} : key'.IsScalar →
      List.Forall₂ SameItem items items' → SameSection (key, .list items) (key', .list items')
  | divided {key key' : Value} {m m' : Mapping} : key'.IsScalar → List.Forall₂ SamePart m m' →
      SameSection (key, .mapping m) (key', .mapping m')

/-- Two documents that differ only in what is not seen. -/
inductive SameDocument : Value → Value → Prop
  | null : SameDocument .null .null
  | mapping {es es' : Mapping} : List.Forall₂ SameSection es es' →
      SameDocument (.mapping es) (.mapping es')

/-- Two decks with the same markup, escaped or not, and the same module, about which the same is
said but for unused styles and places. -/
structure Deck.SameSeen (rules : RuleSet) (d d' : Deck) : Prop where
  render : d.render rules = d'.render rules
  compile : d.compile rules = d'.compile rules
  toModule : d.toModule rules = d'.toModule rules
  diagnostics : seen (d.diagnostics rules) = seen (d'.diagnostics rules)

/-- Only what is left after stripping is seen. -/
theorem Deck.sameSeen_of_stripped {d d' : Deck} (h : d.stripped = d'.stripped) (rules : RuleSet) :
    d.SameSeen rules d' := by
  have hRender : d.render rules = d'.render rules := by
    rw [← d.render_stripped, h, d'.render_stripped]
  have hCompile : d.compile rules = d'.compile rules := by rw [compile, compile, hRender]
  refine ⟨hRender, hCompile, by rw [toModule, toModule, hCompile], ?_⟩
  rw [← d.seen_diagnostics_stripped, h, d'.seen_diagnostics_stripped]

/-! ### Elements -/

theorem Yaml.Value.same_string {v : Value} {s : String} (h : v.same (.string s) = true) :
    v = .string s := by
  cases v with
  | string t => simpa [same] using h
  | _ => simp [same] at h

/-- To give a mapping a style is to restyle it. -/
theorem restyled_insert (m : Mapping) (style : Value) :
    Restyled m (m.insert (.string "style") style) := by
  intro name hName
  have hOther : (Value.string "style").same (.string name) = false := by
    simpa [Value.same] using Ne.symm hName
  rw [Mapping.field?, Mapping.field?]
  induction m with
  | nil => simp [Mapping.insert, hOther]
  | cons e m ih =>
    obtain ⟨key, v⟩ := e
    rw [Mapping.insert]
    split
    · rename_i hStyle
      simp [Value.same_string hStyle, hOther]
    · simp [ih]

theorem Restyled.decoration {m m' : Mapping} (h : Restyled m m') :
    (Decoration.ofMapping m).stripped = (Decoration.ofMapping m').stripped := by
  rw [Decoration.stripped, Decoration.stripped, Decoration.ofMapping, Decoration.ofMapping,
    h "className" (by decide)]

theorem Restyled.scalarField {m m' : Mapping} (h : Restyled m m') {name : String}
    (hName : name ≠ "style") : scalarField? m name = scalarField? m' name := by
  rw [scalarField?, scalarField?, h name hName]

theorem Restyled.element {m m' : Mapping} {tag : String} (h : Restyled m m')
    (hTag : tag ∈ builtInTypes) :
    (Element.ofTyped tag m).stripped = (Element.ofTyped tag m').stripped := by
  have hDecoration := h.decoration
  rw [Element.ofTyped, Element.ofTyped, ← h.scalarField (by decide : "content" ≠ "style"),
    ← h.scalarField (by decide : "src" ≠ "style"), ← h "contents" (by decide)]
  split
  · simp [Element.stripped, hDecoration]
  rename_i hConfig
  split
  · split <;> simp [Element.stripped, hDecoration]
  rename_i hText
  split
  · split <;> simp [Element.stripped, hDecoration]
  rename_i hImage
  split
  · split <;> simp [Element.stripped, hDecoration]
  rename_i hList
  have hCustom : Element.ofTyped tag m = .custom tag (.mapping m) := by
    simp [Element.ofTyped, hConfig, hText, hImage, hList]
  exact absurd hTag (Element.ofTyped_eq_custom hCustom).2.2

theorem SameItem.element {v v' : Value} (h : SameItem v v') :
    (Element.ofValue v).stripped = (Element.ofValue v').stripped := by
  cases h with
  | unchanged => rfl
  | restyled hType hTag h =>
    have hType' := (h "type" (by decide)).symm.trans hType
    simp only [Element.ofValue, hType, hType', h.element hTag]

theorem SameItem.elements {items items' : List Value} (h : List.Forall₂ SameItem items items') :
    (items.map Element.ofValue).map (·.stripped) = (items'.map Element.ofValue).map (·.stripped) := by
  rw [← List.forall₂_eq_eq_eq]
  simpa using h.imp fun _ _ => SameItem.element

/-! ### Sections -/

theorem SamePart.key_iff {e e' : Value × Value} (h : SamePart e e') :
    e.1.scalarText? = some configName ↔ e'.1.scalarText? = some configName := by
  cases h with
  | unchanged => rfl
  | restyled => rfl
  | renamed hKey _ hKey' => simp [hKey, hKey']

theorem SamePart.decoration {m m' : Mapping} (h : List.Forall₂ SamePart m m') :
    (sectionDecoration? m).map (·.stripped) = (sectionDecoration? m').map (·.stripped) := by
  have hConfigs : List.Forall₂ SamePart
      (m.reverse.filter fun e => e.1.scalarText? == some configName)
      (m'.reverse.filter fun e => e.1.scalarText? == some configName) :=
    List.rel_filter (fun _ _ hPart => by simpa using hPart.key_iff) (List.rel_reverse h)
  rw [sectionDecoration?, sectionDecoration?, ← List.head?_filter, ← List.head?_filter]
  generalize m.reverse.filter _ = configs, m'.reverse.filter _ = configs' at hConfigs
  cases hConfigs with
  | nil => rfl
  | cons hFirst _ =>
    cases hFirst with
    | unchanged => rfl
    | restyled _ h => exact congrArg some h.decoration
    | renamed => rfl

/-- Lists of like items give subsections of one stripped form. -/
theorem SameItem.stripped {items items' : List Value} {content : Subsection}
    (h : List.Forall₂ SameItem items items')
    (hContent : content.elements = items.map Element.ofValue) :
    (Subsection.ofItems items').stripped = content.stripped := by
  rw [Subsection.stripped, Subsection.stripped, Subsection.ofItems, hContent, elements h]

theorem SamePart.exists_part {e e' : Value × Value} {part : String × Subsection}
    (h : SamePart e e') (hPart : GivesPart e part) :
    ∃ part', GivesPart e' part' ∧ part'.2.stripped = part.2.stripped := by
  obtain ⟨hName, hConfig, items, hItems, hContent⟩ := hPart
  cases h with
  | unchanged _ hKey => exact absurd (Option.some.inj (hName.symm.trans hKey)) hConfig
  | restyled hKey _ => exact absurd (Option.some.inj (hName.symm.trans hKey)) hConfig
  | @renamed _ _ _ items' _ hScalar hKey' hSame =>
    cases hItems
    obtain ⟨name', hName'⟩ := Value.isScalar_iff.1 hScalar
    have hConfig' : name' ≠ configName := fun h => hKey' (h ▸ hName')
    refine ⟨(name', .ofItems items'), ⟨hName', hConfig', items', rfl, rfl⟩, ?_⟩
    exact SameItem.stripped hSame hContent

/-- Like sections are divided into like subsections. -/
theorem SamePart.exists_parts {m m' : Mapping} {parts : List (String × Subsection)}
    (h : List.Forall₂ SamePart m m')
    (hParts : List.Forall₂ GivesPart (m.filter fun e => e.1.scalarText? ≠ some configName) parts) :
    ∃ parts', List.Forall₂ GivesPart (m'.filter fun e => e.1.scalarText? ≠ some configName) parts' ∧
      parts'.map (fun part => ("", part.2.stripped)) =
        parts.map fun part => ("", part.2.stripped) := by
  have hOthers : List.Forall₂ SamePart (m.filter fun e => e.1.scalarText? ≠ some configName)
      (m'.filter fun e => e.1.scalarText? ≠ some configName) :=
    List.rel_filter (fun _ _ hPart => by simpa using not_congr hPart.key_iff) h
  refine exists_forall₂_map_eq hOthers hParts fun e e' part hSame hPart => ?_
  obtain ⟨part', hPart', hEq⟩ := hSame.exists_part hPart
  exact ⟨part', hPart', congrArg (Prod.mk "") hEq⟩

theorem SameSection.exists_section {e e' : Value × Value} {part : String × Section}
    (h : SameSection e e') (hPart : GivesSection e part) :
    ∃ part', GivesSection e' part' ∧ part'.2.stripped = part.2.stripped := by
  cases h with
  | @flat _ _ _ items' hScalar hSame =>
    obtain ⟨name', hName'⟩ := Value.isScalar_iff.1 hScalar
    cases hPart with
    | flat _ hContent =>
      refine ⟨(name', .flat (.ofItems items')), .flat hName' rfl, ?_⟩
      exact congrArg Section.flat (SameItem.stripped hSame hContent)
  | @divided _ _ _ m' hScalar hSame =>
    obtain ⟨name', hName'⟩ := Value.isScalar_iff.1 hScalar
    cases hPart with
    | divided _ hParts =>
      obtain ⟨parts', hParts', hMap⟩ := SamePart.exists_parts hSame hParts
      refine ⟨(name', .divided (sectionDecoration? m') parts'), .divided hName' hParts', ?_⟩
      rw [Section.stripped, Section.stripped, hMap, SamePart.decoration hSame]

/-! ### Documents -/

theorem SameDocument.exists_deck {v v' : Value} {d : Deck} (h : SameDocument v v')
    (hd : GivesDeck v d) : ∃ d', GivesDeck v' d' ∧ d'.stripped = d.stripped := by
  cases h with
  | null => exact ⟨d, hd, rfl⟩
  | mapping hSame =>
    cases hd with
    | mapping hSections =>
      have hStep (e e' : Value × Value) (part : String × Section) (hSame : SameSection e e')
          (hPart : GivesSection e part) :
          ∃ part', GivesSection e' part' ∧ ("", part'.2.stripped) = ("", part.2.stripped) := by
        obtain ⟨part', hPart', hEq⟩ := hSame.exists_section hPart
        exact ⟨part', hPart', congrArg (Prod.mk "") hEq⟩
      obtain ⟨sections', hSections', hMap⟩ := exists_forall₂_map_eq hSame hSections hStep
      exact ⟨⟨sections'⟩, .mapping hSections', congrArg Deck.mk hMap⟩

/-- Neither styles nor names are seen: where a document can be read, so can every other one that
differs from it in them alone, and the two give the same under all rules. The new names may be any. -/
theorem Deck.sameSeen_of_sameDocument {v v' : Value} {d : Deck} (hd : Deck.ofValue v = .ok d)
    (h : SameDocument v v') :
    ∃ d', Deck.ofValue v' = .ok d' ∧ ∀ rules, d.SameSeen rules d' := by
  obtain ⟨d', hd', hStripped⟩ := h.exists_deck (ofValue_eq_ok.1 hd)
  exact ⟨d', ofValue_eq_ok.2 hd', sameSeen_of_stripped hStripped.symm⟩

def paragraph : Mapping := [(.string "type", .string "p"), (.string "content", .string "x")]

def red : Value := .mapping [(.string "color", .string "red")]

def plainDocument : Value :=
  .mapping [(.string "s", .mapping [(.string "config", .mapping []),
    (.string "t", .list [.mapping paragraph])])]

/-- The same with styles, and with a number and a truth value for names. -/
def styledDocument : Value :=
  .mapping [(.number (.integer 1),
    .mapping [(.string "config", .mapping (Mapping.insert [] (.string "style") red)),
      (.bool true, .list [.mapping (paragraph.insert (.string "style") red)])])]

theorem Deck.sameSeen_of_sameDocument_styled :
    ∃ d d', Deck.ofValue plainDocument = .ok d ∧ SameDocument plainDocument styledDocument ∧
      Deck.ofValue styledDocument = .ok d' ∧ (∀ rules, d.SameSeen rules d') ∧
      d.diagnostics .empty = [] ∧
      d'.diagnostics .empty = [⟨"1", .styleUnused⟩, ⟨"1.true", .styleUnused⟩] := by
  have hItems : List.Forall₂ SameItem [.mapping paragraph]
      [.mapping (paragraph.insert (.string "style") red)] :=
    .cons (.restyled (by rfl) (by decide) (restyled_insert paragraph red)) .nil
  have hParts : List.Forall₂ SamePart
      [(.string "config", .mapping []), (.string "t", .list [.mapping paragraph])]
      [(.string "config", .mapping (Mapping.insert [] (.string "style") red)),
        (.bool true, .list [.mapping (paragraph.insert (.string "style") red)])] :=
    .cons (.restyled rfl (restyled_insert [] red))
      (.cons (.renamed (by decide) (.bool true) (by decide) hItems) .nil)
  have hSame : SameDocument plainDocument styledDocument :=
    .mapping (.cons (.divided (.number _) hParts) .nil)
  obtain ⟨d', hd', hSeen⟩ := sameSeen_of_sameDocument (by rfl) hSame
  refine ⟨_, d', rfl, hSame, hd', hSeen, rfl, ?_⟩
  cases Except.ok.inj hd'
  rfl

end Slideshow
