import Slideshow.CommandLine.Run
import Slideshow.Proofs.Deck.Items
import Slideshow.Proofs.Diagnostic
import Slideshow.Proofs.Markup.Shown
import Slideshow.Proofs.Yaml.Document

/-! What it means that a text has no diagnostics. Every item that counts is an element with markup,
every entry of a list and every textual class name stands in the markup. Two kinds of input can
still be dropped: a list under `config` in a divided section, and class names that are no scalars. -/

namespace Slideshow

open Yaml (Value Mapping)
open Markup

/-! ### Class names -/

/-- The class names in a mapping as they are written: a list of them, or a single text. -/
def classTokens (m : Mapping) : List Value :=
  match m.field? "className" with
  | some (.list tokens) => tokens
  | some (.string token) => [.string token]
  | _ => []

theorem classes_ofMapping (m : Mapping) :
    (Decoration.ofMapping m).classes = (classTokens m).filterMap (·.scalarText?) := by
  simp only [Decoration.ofMapping, classTokens]
  cases m.field? "className" with
  | none => rfl
  | some given => cases given <;> rfl

/-- A decorated element has the decoration that its mapping gives. -/
theorem Element.decoration?_ofValue {m : Mapping} {decoration : Decoration}
    (h : (Element.ofValue (.mapping m)).decoration? = some decoration) :
    decoration = .ofMapping m := by
  simp only [ofValue] at h
  split at h
  · rw [ofTyped] at h
    split at h
    · exact (Option.some.inj h).symm
    split at h
    · split at h
      · exact (Option.some.inj h).symm
      · cases h
    split at h
    · split at h
      · exact (Option.some.inj h).symm
      · cases h
    split at h
    · split at h
      · exact (Option.some.inj h).symm
      · cases h
    · cases h
  · cases h

/-- The mappings whose class names are applied: the decoration of a divided section, which is its
last entry under `config`, and every item that is a marker or a built-in element. -/
inductive Decorates (v : Value) (m : Mapping) : Prop
  | divided {key config : Value} {parts : Mapping} : (key, .mapping parts) ∈ entriesOf v →
      parts.reverse.find? (fun e => e.1.scalarText? == some configName) =
        some (config, .mapping m) → Decorates v m
  | element {decoration : Decoration} : .mapping m ∈ elementItems v →
      (Element.ofValue (.mapping m)).decoration? = some decoration → Decorates v m

/-! ### What is dropped -/

/-- An element has markup of its own: it is no marker, it has a meaning, and if it is custom there
is a rule for it. -/
inductive Element.IsRendered (rules : RuleSet) : Element → Prop
  | scalar (text : String) : IsRendered rules (.scalar text)
  | text (tag : TextTag) (content : String) (d : Decoration) : IsRendered rules (.text tag content d)
  | image (source : String) (d : Decoration) : IsRendered rules (.image source d)
  | list (entries : List String) (skipped : Nat) (d : Decoration) :
      IsRendered rules (.list entries skipped d)
  | custom {tag : String} {v : Value} {rule : Rule} : rules.get? tag = some rule →
      IsRendered rules (.custom tag v)

/-- Nothing of a document is dropped on the way to its markup: not an item of a list, not an
element, not an entry of a list element, and not an applied class name. -/
structure NothingDropped (rules : RuleSet) (v : Value) (d : Deck) : Prop where
  count : (listItems v).length = d.elements.length
  items : ∀ i ∈ listItems v, Element.ofValue i ∈ d.elements
  elements : ∀ e ∈ d.elements, e.marker? = none → e.IsRendered rules
  entries : ∀ (m : Mapping) (contents : List Value), .mapping m ∈ listItems v →
    m.field? "type" = some (.string "ul") → m.field? "contents" = some (.list contents) →
    ∀ entry ∈ contents, ∃ text, entry.scalarText? = some text ∧ Shown (item text) (d.render rules)
  classes : ∀ m, Decorates v m → ∀ token ∈ classTokens m,
    ∃ text, token.scalarText? = some text ∧ Shown text (d.render rules)

/-! ### What no diagnostics say -/

variable {rules : RuleSet} {v : Value} {d : Deck} {place : String} {s : Subsection} {e : Element}

theorem Deck.SubsectionAt.findings_nil (hs : d.SubsectionAt place s)
    (hNone : d.diagnostics rules = []) : s.findings rules = [] := by
  have hInfix := hs.diagnostics_infix rules
  rw [hNone, List.infix_nil, Subsection.diagnostics, List.map_eq_nil_iff] at hInfix
  exact hInfix

theorem Subsection.losses_nil (hNone : s.findings rules = []) {i : Nat}
    (he : s.elements[i]? = some e) :
    e.losses rules i ((s.elements.take i).countP (·.marker?.isSome)) = [] := by
  rw [← Subsection.filter_findings he, hNone]
  rfl

/-- Every element but a marker is rendered. -/
theorem Subsection.isRendered (hNone : s.findings rules = []) (he : e ∈ s.elements)
    (hMarker : e.marker? = none) : e.IsRendered rules := by
  obtain ⟨i, hi⟩ := List.getElem?_of_mem he
  have hLosses := Subsection.losses_nil hNone hi
  cases e with
  | scalar text => exact .scalar text
  | marker decoration => cases hMarker
  | text tag content decoration => exact .text tag content decoration
  | image source decoration => exact .image source decoration
  | list entries skipped decoration => exact .list entries skipped decoration
  | unrecognized w => cases hLosses
  | custom tag w =>
    rw [Element.losses] at hLosses
    split at hLosses
    · rename_i hRule
      obtain ⟨rule, hRule⟩ := Option.isSome_iff_exists.1 hRule
      exact .custom hRule
    · cases hLosses

theorem Subsection.skipped_eq_zero (hNone : s.findings rules = []) {entries : List String}
    {skipped : Nat} {decoration : Decoration} (he : .list entries skipped decoration ∈ s.elements) :
    skipped = 0 := by
  obtain ⟨i, hi⟩ := List.getElem?_of_mem he
  have hLosses := Subsection.losses_nil hNone hi
  rw [Element.losses] at hLosses
  split at hLosses
  · cases hLosses
  · omega

/-- A second marker would be a finding. -/
theorem countP_marker_le {es : List Element} {k m : Nat}
    (hNone : elementFindings rules k m es = []) (hm : m ≤ 1) :
    m + es.countP (·.marker?.isSome) ≤ 1 := by
  induction es generalizing k m with
  | nil => exact hm
  | cons e es ih =>
    obtain ⟨own, -, hCons⟩ := elementFindings_cons rules k m e es
    rw [hCons, List.append_eq_nil_iff, List.append_eq_nil_iff] at hNone
    obtain ⟨-, hLosses, hRest⟩ := hNone
    rw [List.countP_cons]
    cases e with
    | marker decoration =>
      rw [Element.losses] at hLosses
      split at hLosses
      · cases hLosses
      · have hLe := ih hRest (by simp [Element.marker?]; omega)
        simp only [Element.marker?, Option.isSome_some, if_true] at hLe ⊢
        omega
    | _ => exact ih hRest hm

theorem findSome?_marker {es : List Element} {decoration : Decoration}
    (hOne : es.countP (·.marker?.isSome) ≤ 1) (he : .marker decoration ∈ es) :
    es.findSome? (·.marker?) = some decoration := by
  induction es with
  | nil => exact absurd he List.not_mem_nil
  | cons e es ih =>
    rw [List.countP_cons] at hOne
    obtain rfl | he := List.mem_cons.1 he
    · rfl
    · have hPos : 0 < es.countP (·.marker?.isSome) := List.countP_pos_iff.2 ⟨_, he, rfl⟩
      cases hMarker : e.marker? with
      | some first =>
        rw [hMarker] at hOne
        simp only [Option.isSome_some, if_true] at hOne
        omega
      | none =>
        rw [List.findSome?_cons, hMarker]
        exact ih (by omega) he

/-- There is at most one marker, so every one counts. -/
theorem Subsection.decoration?_of_marker (hNone : s.findings rules = []) {decoration : Decoration}
    (he : .marker decoration ∈ s.elements) : s.decoration? = some decoration := by
  rw [findings, List.append_eq_nil_iff] at hNone
  have hOne := countP_marker_le hNone.2 (Nat.zero_le 1)
  rw [Nat.zero_add] at hOne
  exact findSome?_marker hOne he

/-! ### What the markup shows -/

theorem Deck.shown_element (rules : RuleSet) (he : e ∈ d.elements) :
    Shown (e.render rules) (d.render rules) := by
  obtain ⟨place, s, hs, he⟩ := d.exists_of_mem_elements he
  exact (Subsection.shown_element he).trans hs.shown

/-- The class names of every decorated element are shown, those of a marker by the subsection. -/
theorem Deck.shown_class (hNone : d.diagnostics rules = []) (he : e ∈ d.elements)
    {decoration : Decoration} (hDecoration : e.decoration? = some decoration) {name : String}
    (hName : name ∈ decoration.classes) : Shown name (d.render rules) := by
  obtain ⟨place, s, hs, hMem⟩ := d.exists_of_mem_elements he
  have hElement := Deck.shown_element rules he
  cases e with
  | marker own =>
    cases hDecoration
    have hWrapper : Shown name (s.render rules) := by
      rw [Subsection.render, Subsection.decoration?_of_marker (hs.findings_nil hNone) hMem]
      exact shown_wrap_class hName
    exact hWrapper.trans hs.shown
  | text tag content own =>
    cases hDecoration
    exact Shown.trans (shown_wrap_class hName) hElement
  | image source own =>
    cases hDecoration
    exact Shown.trans (shown_wrap_class hName) hElement
  | list entries skipped own =>
    cases hDecoration
    exact Shown.trans (shown_wrap_class hName) hElement
  | _ => exact nomatch hDecoration

theorem Deck.isRendered (hNone : d.diagnostics rules = []) (he : e ∈ d.elements)
    (hMarker : e.marker? = none) : e.IsRendered rules := by
  obtain ⟨place, s, hs, hMem⟩ := d.exists_of_mem_elements he
  exact Subsection.isRendered (hs.findings_nil hNone) hMem hMarker

/-- Every textual class name that is applied is shown. -/
theorem Decorates.shown {m : Mapping} (h : Decorates v m) (hd : GivesDeck v d)
    (hNone : d.diagnostics rules = []) {token : Value} (hToken : token ∈ classTokens m)
    {text : String} (hText : token.scalarText? = some text) : Shown text (d.render rules) := by
  have hClass : text ∈ (Decoration.ofMapping m).classes := by
    rw [classes_ofMapping]
    exact List.mem_filterMap.2 ⟨token, hToken, hText⟩
  cases h with
  | @divided key config parts hEntry hConfig =>
    cases hd with
    | null => exact absurd hEntry List.not_mem_nil
    | mapping hSections =>
      obtain ⟨⟨name, body⟩, hMem, hGives⟩ := exists_of_mem_left hSections hEntry
      cases hGives with
      | divided hName hParts =>
        have hSection := Deck.shown_section rules hMem
        rw [sectionDecoration?, hConfig, Section.render] at hSection
        exact Shown.trans (shown_wrap_class hClass) hSection
  | element hItem hDecoration =>
    have hElement : Element.ofValue (.mapping m) ∈ d.elements := by
      rw [hd.elements]
      exact List.mem_map_of_mem hItem
    rw [← Element.decoration?_ofValue hDecoration] at hClass
    exact Deck.shown_class hNone hElement hDecoration hClass

theorem Element.ofValue_ul {m : Mapping} {contents : List Value}
    (hType : m.field? "type" = some (.string "ul"))
    (hContents : m.field? "contents" = some (.list contents)) :
    Element.ofValue (.mapping m) = .list (contents.filterMap (·.scalarText?))
      (contents.length - (contents.filterMap (·.scalarText?)).length) (.ofMapping m) := by
  have hTag : TextTag.ofName? "ul" = none := by rfl
  simp [ofValue, hType, ofTyped, configName, hTag, hContents]

/-- Every entry of a list element is shown. -/
theorem Deck.shown_entry {m : Mapping} {contents : List Value} (hd : GivesDeck v d)
    (hNone : d.diagnostics rules = []) (hItem : .mapping m ∈ elementItems v)
    (hType : m.field? "type" = some (.string "ul"))
    (hContents : m.field? "contents" = some (.list contents)) {entry : Value}
    (hEntry : entry ∈ contents) :
    ∃ text, entry.scalarText? = some text ∧ Shown (item text) (d.render rules) := by
  have hElement : Element.ofValue (.mapping m) ∈ d.elements := by
    rw [hd.elements]
    exact List.mem_map_of_mem hItem
  rw [Element.ofValue_ul hType hContents] at hElement
  obtain ⟨place, s, hs, hMem⟩ := d.exists_of_mem_elements hElement
  have hSkipped := Subsection.skipped_eq_zero (hs.findings_nil hNone) hMem
  have hLength := List.length_filterMap_le (·.scalarText?) contents
  have hAll : (contents.filterMap (·.scalarText?)).length = contents.length := by omega
  obtain ⟨text, hText⟩ :=
    Option.isSome_iff_exists.1 (List.filterMap_length_eq_length.1 hAll entry hEntry)
  have hShown : item text ∈ (contents.filterMap (·.scalarText?)).map item :=
    List.mem_map_of_mem (List.mem_filterMap.2 ⟨entry, hEntry, hText⟩)
  have hMarkup := Deck.shown_element rules hElement
  rw [Element.render] at hMarkup
  exact ⟨text, hText, ((shown_lines hShown).trans shown_wrap_content).trans hMarkup⟩

/-! ### Nothing dropped -/

theorem CommandLine.diagnosticsOf_eq_nil {text : String} (h : diagnosticsOf rules text = []) :
    ∃ d, Deck.read text = .ok d ∧ d.diagnostics rules = [] := by
  rw [diagnosticsOf] at h
  split at h
  · rename_i d hRead
    exact ⟨d, hRead, h⟩
  · exact nomatch h

/-- Where a text has no diagnostics, nothing is dropped if and only if there is no item under
`config` in a divided section and all class names that are applied are scalars. In any case the
elements are all the other items in order, all of them but the markers have markup, and the entries
of list elements and the textual class names that are applied are shown. -/
theorem nothingDropped_iff_of_silence {text : String}
    (h : CommandLine.diagnosticsOf rules text = []) :
    ∃ written v d, Yaml.read text = .ok written ∧ expandMerges rootName written = .ok v ∧
      Deck.ofValue v = .ok d ∧
      (NothingDropped rules v d ↔ reservedItems v = [] ∧
        ∀ m, Decorates v m → ∀ token ∈ classTokens m, token.IsScalar) ∧
      d.elements = (elementItems v).map Element.ofValue ∧
      (∀ e ∈ d.elements, e.marker? = none → e.IsRendered rules) ∧
      (∀ (m : Mapping) (contents : List Value), .mapping m ∈ elementItems v →
        m.field? "type" = some (.string "ul") → m.field? "contents" = some (.list contents) →
        ∀ entry ∈ contents, ∃ text, entry.scalarText? = some text ∧
          Shown (item text) (d.render rules)) ∧
      (∀ m, Decorates v m → ∀ token ∈ classTokens m, ∀ text, token.scalarText? = some text →
        Shown text (d.render rules)) := by
  obtain ⟨d, hRead, hNone⟩ := CommandLine.diagnosticsOf_eq_nil h
  obtain ⟨written, v, hWritten, hv, hd⟩ := Deck.read_eq_ok hRead
  have hGives := Deck.ofValue_eq_ok.1 hd
  have hCount := (listItems_perm v).length_eq
  have hElements := hGives.elements
  rw [List.length_append] at hCount
  refine ⟨written, v, d, hWritten, hv, hd, ⟨fun hAll => ⟨?_, ?_⟩, ?_⟩, hElements,
    fun e he => Deck.isRendered hNone he,
    fun m contents hItem hType hContents entry => Deck.shown_entry hGives hNone hItem hType hContents,
    fun m hm token hToken text => hm.shown hGives hNone hToken⟩
  · have hLength := hAll.count
    rw [hElements, List.length_map] at hLength
    exact List.eq_nil_of_length_eq_zero (by omega)
  · intro m hm token hToken
    obtain ⟨text, hText, -⟩ := hAll.classes m hm token hToken
    exact Yaml.Value.isScalar_iff.2 ⟨text, hText⟩
  · rintro ⟨hReserved, hScalar⟩
    have hMem (i : Value) : i ∈ listItems v ↔ i ∈ elementItems v := by
      rw [(listItems_perm v).mem_iff, hReserved, List.append_nil]
    refine ⟨?_, fun i hi => ?_, fun e he => Deck.isRendered hNone he, ?_, ?_⟩
    · rw [hElements, List.length_map, hCount, hReserved, List.length_nil, Nat.add_zero]
    · rw [hElements]
      exact List.mem_map_of_mem ((hMem i).1 hi)
    · intro m contents hItem hType hContents entry
      exact Deck.shown_entry hGives hNone ((hMem _).1 hItem) hType hContents
    · intro m hm token hToken
      obtain ⟨text, hText⟩ := Yaml.Value.isScalar_iff.1 (hScalar m hm token hToken)
      exact ⟨text, hText, hm.shown hGives hNone hToken hText⟩

/-! ### A list under `config` -/

def reservedList : String := "s: \x7bconfig: [a], t: [b]\x7d"

def reservedListValue : Value :=
  .mapping [(.string "s", .mapping [(.string "config", .list [.string "a"]),
    (.string "t", .list [.string "b"])])]

/-- The deck of `reservedListValue`, in which the item `a` has no place. -/
def reservedListDeck : Deck := ⟨[("s", .divided (some {}) [("t", ⟨[.scalar "b"]⟩)])]⟩

theorem read_reservedList : Yaml.read reservedList = .ok reservedListValue := by
  have hTokens : (Yaml.Token.scan reservedList).toOption =
      some [.blockMappingStart, .key, .scalar "s" true, .value, .flowMappingStart, .key,
        .scalar "config" true, .value, .flowListStart, .scalar "a" true, .flowListEnd, .flowEntry,
        .key, .scalar "t" true, .value, .flowListStart, .scalar "b" true, .flowListEnd,
        .flowMappingEnd, .blockEnd] := by decide +kernel
  exact Yaml.read_of_scan hTokens rfl

theorem expandMerges_reservedList :
    expandMerges rootName reservedListValue = .ok reservedListValue := by rfl

theorem ofValue_reservedList : Deck.ofValue reservedListValue = .ok reservedListDeck := by rfl

theorem diagnosticsOf_reservedList : CommandLine.diagnosticsOf .empty reservedList = [] := by
  have hRead : Deck.read reservedList = .ok reservedListDeck := by
    rw [Deck.read, read_reservedList]
    exact bind_eq_ok.2 ⟨_, expandMerges_reservedList, ofValue_reservedList⟩
  rw [CommandLine.diagnosticsOf, hRead]
  rfl

/-- A text without diagnostics can have an item that is dropped. -/
theorem silence_drops_item : ∃ (text : String) (written v : Value) (d : Deck),
    CommandLine.diagnosticsOf .empty text = [] ∧ Yaml.read text = .ok written ∧
      expandMerges rootName written = .ok v ∧ Deck.ofValue v = .ok d ∧
      ¬ NothingDropped .empty v d := by
  refine ⟨reservedList, _, _, _, diagnosticsOf_reservedList, read_reservedList,
    expandMerges_reservedList, ofValue_reservedList, fun hAll => ?_⟩
  have hCount : 2 = 1 := hAll.count
  exact absurd hCount (by decide)

theorem nothingDropped_iff_of_silence_reservedList :
    CommandLine.diagnosticsOf .empty reservedList = [] ∧
    ∃ written v d, Yaml.read reservedList = .ok written ∧
      expandMerges rootName written = .ok v ∧ Deck.ofValue v = .ok d ∧
      (NothingDropped .empty v d ↔ reservedItems v = [] ∧
        ∀ m, Decorates v m → ∀ token ∈ classTokens m, token.IsScalar) ∧
      d.elements = (elementItems v).map Element.ofValue := by
  obtain ⟨written, v, d, hWritten, hv, hd, hIff, hElements, -⟩ :=
    nothingDropped_iff_of_silence diagnosticsOf_reservedList
  exact ⟨diagnosticsOf_reservedList, written, v, d, hWritten, hv, hd, hIff, hElements⟩

end Slideshow
