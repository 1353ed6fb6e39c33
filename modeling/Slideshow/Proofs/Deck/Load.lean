import Slideshow.Deck.Load
import Slideshow.Proofs.Pairing
import Slideshow.Proofs.Success

/-! Where the parts of a loaded deck come from: sections from the entries of the document, and
subsections from the lists of values in it, every element from one value. -/

namespace Slideshow

open Yaml (Value Mapping)

theorem Deck.read_eq_ok {text : String} {d : Deck} (h : Deck.read text = .ok d) :
    ∃ written v, Yaml.read text = .ok written ∧ expandMerges rootName written = .ok v ∧
      Deck.ofValue v = .ok d := by
  rw [Deck.read] at h
  split at h
  · exact nomatch h
  · rename_i written hWritten
    obtain ⟨v, hv, hd⟩ := bind_eq_ok.1 h
    exact ⟨written, v, hWritten, hv, hd⟩

theorem keyName_eq_ok {place name : String} {key : Value} :
    keyName place key = .ok name ↔ key.scalarText? = some name := by
  rw [keyName]
  split <;> simp_all

/-- The subsections that are read are the entries other than `config`, in order. -/
theorem readSubsections_eq_ok {place : String} {es : Mapping} {parts : List (String × Subsection)} :
    readSubsections place es = .ok parts ↔
      (∀ e ∈ es, e.1.scalarText?.isSome = true) ∧
      List.Forall₂ (fun e part => e.1.scalarText? = some part.1 ∧
          ∃ items, e.2 = .list items ∧ part.2 = .ofItems items)
        (es.filter fun e => e.1.scalarText? ≠ some configName) parts := by
  induction es generalizing parts with
  | nil => cases parts <;> simp [readSubsections]
  | cons e es ih =>
    obtain ⟨key, v⟩ := e
    rw [readSubsections, bind_eq_ok]
    simp only [keyName_eq_ok, List.forall_mem_cons]
    constructor
    · rintro ⟨name, hName, h⟩
      by_cases hConfig : name = configName
      · rw [if_pos hConfig, ih] at h
        rw [List.filter_cons_of_neg (by simp [hName, hConfig])]
        exact ⟨⟨by simp [hName], h.1⟩, h.2⟩
      · rw [if_neg hConfig] at h
        rw [List.filter_cons_of_pos (by simp [hName, hConfig])]
        cases v with
        | list items =>
          simp only [bind_eq_ok, ih] at h
          obtain ⟨rest, ⟨hKeys, hRest⟩, h⟩ := h
          rw [← Except.ok.inj h]
          exact ⟨⟨by simp [hName], hKeys⟩, .cons ⟨hName, items, rfl, rfl⟩ hRest⟩
        | _ => exact nomatch h
    · rintro ⟨⟨hKey, hKeys⟩, h⟩
      obtain ⟨name, hName⟩ := Option.isSome_iff_exists.1 hKey
      refine ⟨name, hName, ?_⟩
      by_cases hConfig : name = configName
      · rw [List.filter_cons_of_neg (by simp [hName, hConfig])] at h
        rw [if_pos hConfig, ih]
        exact ⟨hKeys, h⟩
      · rw [List.filter_cons_of_pos (by simp [hName, hConfig])] at h
        obtain ⟨⟨name', _⟩, rest, ⟨hName', items, rfl, rfl⟩, hRest, rfl⟩ :=
          List.forall₂_cons_left_iff.1 h
        obtain rfl : name = name' := Option.some.inj (hName.symm.trans hName')
        rw [if_neg hConfig]
        simp only [bind_eq_ok, ih]
        exact ⟨rest, ⟨hKeys, hRest⟩, rfl⟩

/-- The sections that are read are the entries of the document, in order. -/
theorem readSections_eq_ok {es : Mapping} {sections : List (String × Section)} :
    readSections es = .ok sections ↔
      List.Forall₂ (fun e part => e.1.scalarText? = some part.1 ∧
        Section.ofValue part.1 e.2 = .ok part.2) es sections := by
  induction es generalizing sections with
  | nil => cases sections <;> simp [readSections]
  | cons e es ih =>
    rw [readSections]
    simp only [bind_eq_ok, keyName_eq_ok, ih, List.forall₂_cons_left_iff]
    constructor
    · rintro ⟨name, hName, body, hBody, rest, hRest, h⟩
      exact ⟨(name, body), rest, ⟨hName, hBody⟩, hRest, (Except.ok.inj h).symm⟩
    · rintro ⟨⟨name, body⟩, rest, ⟨hName, hBody⟩, hRest, rfl⟩
      exact ⟨name, hName, body, hBody, rest, hRest, rfl⟩

/-! ### Subsections -/

/-- A subsection of a deck with its place: the name of the section, and its own name if the section
is divided. -/
inductive Deck.SubsectionAt (d : Deck) : String → Subsection → Prop
  | flat {name : String} {s : Subsection} : (name, .flat s) ∈ d.sections →
      SubsectionAt d name s
  | part {name sub : String} {decoration : Option Decoration} {parts : List (String × Subsection)}
      {s : Subsection} : (name, .divided decoration parts) ∈ d.sections → (sub, s) ∈ parts →
      SubsectionAt d (name ++ "." ++ sub) s

/-- A list of a document that stands where the elements of a subsection do, with its place. -/
inductive ItemsAt : Value → String → List Value → Prop
  | flat {es : Mapping} {key : Value} {name : String} {items : List Value} :
      (key, .list items) ∈ es → key.scalarText? = some name → ItemsAt (.mapping es) name items
  | part {es parts : Mapping} {key subKey : Value} {name sub : String} {items : List Value} :
      (key, .mapping parts) ∈ es → key.scalarText? = some name → (subKey, .list items) ∈ parts →
      subKey.scalarText? = some sub → sub ≠ configName →
      ItemsAt (.mapping es) (name ++ "." ++ sub) items

/-- Every subsection of a loaded deck is a list of the document, read item by item. -/
theorem Deck.SubsectionAt.items {v : Value} {d : Deck} {place : String} {s : Subsection}
    (hs : d.SubsectionAt place s) (hd : Deck.ofValue v = .ok d) :
    ∃ items, ItemsAt v place items ∧ s.elements = items.map Element.ofValue := by
  cases v with
  | null =>
    cases Except.ok.inj hd
    cases hs with
    | flat h => exact absurd h List.not_mem_nil
    | part h _ => exact absurd h List.not_mem_nil
  | mapping es =>
    rw [Deck.ofValue, map_eq_ok] at hd
    obtain ⟨sections, hSections, rfl⟩ := hd
    rw [readSections_eq_ok] at hSections
    cases hs with
    | flat h =>
      obtain ⟨⟨key, body⟩, hMem, hName, hBody⟩ := exists_of_mem_right hSections h
      cases body with
      | list items =>
        cases Except.ok.inj hBody
        exact ⟨items, .flat hMem hName, rfl⟩
      | mapping parts =>
        obtain ⟨_, _, h⟩ := map_eq_ok.1 hBody
        exact nomatch h
      | _ => exact nomatch hBody
    | part h hPart =>
      obtain ⟨⟨key, body⟩, hMem, hName, hBody⟩ := exists_of_mem_right hSections h
      cases body with
      | list items => exact nomatch hBody
      | mapping parts =>
        obtain ⟨_, hParts, hEq⟩ := map_eq_ok.1 hBody
        cases hEq
        obtain ⟨⟨subKey, w⟩, hSub, hSubName, items, rfl, rfl⟩ :=
          exists_of_mem_right (readSubsections_eq_ok.1 hParts).2 hPart
        rw [List.mem_filter] at hSub
        have hNotConfig := hSub.2
        simp only [hSubName, decide_eq_true_eq] at hNotConfig
        exact ⟨items, .part hMem hName hSub.1 hSubName (fun h => hNotConfig (congrArg some h)), rfl⟩
      | _ => exact nomatch hBody
  | _ => exact nomatch hd

/-! ### Elements -/

theorem Element.ofTyped_eq_list {tag : String} {m : Mapping} {entries : List String} {skipped : Nat}
    {decoration : Decoration} (h : Element.ofTyped tag m = .list entries skipped decoration) :
    tag = "ul" ∧ ∃ contents, m.field? "contents" = some (.list contents) ∧
      entries = contents.filterMap (·.scalarText?) ∧
      skipped = contents.length - entries.length := by
  rw [ofTyped] at h
  split at h
  · exact nomatch h
  split at h
  · split at h <;> exact nomatch h
  split at h
  · split at h <;> exact nomatch h
  split at h
  · rename_i hTag
    split at h
    · rename_i contents hContents
      cases h
      exact ⟨hTag, contents, hContents, rfl, rfl⟩
    · exact nomatch h
  · exact nomatch h

/-- A list element comes from a mapping of type `ul`; it shows those of the `contents` that are text
and counts the others. -/
theorem Element.ofValue_eq_list {v : Value} {entries : List String} {skipped : Nat}
    {decoration : Decoration} (h : Element.ofValue v = .list entries skipped decoration) :
    ∃ (m : Mapping) (contents : List Value), v = .mapping m ∧
      m.field? "type" = some (.string "ul") ∧ m.field? "contents" = some (.list contents) ∧
      entries = contents.filterMap (·.scalarText?) ∧
      entries.length + skipped = contents.length := by
  cases v with
  | mapping m =>
    simp only [ofValue] at h
    split at h
    · rename_i tag hType
      obtain ⟨rfl, contents, hContents, rfl, rfl⟩ := ofTyped_eq_list h
      have hLength := List.length_filterMap_le (·.scalarText?) contents
      exact ⟨m, contents, rfl, hType, hContents, rfl, by omega⟩
    · exact nomatch h
  | _ => exact nomatch h

end Slideshow
