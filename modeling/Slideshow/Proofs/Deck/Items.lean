import Mathlib.Data.List.Perm.Basic
import Slideshow.Proofs.Deck.Grammar

/-! The items of the lists in a document beside the elements of its deck. Every item is an element, in
order, but for those of a list that stands where the decoration of a divided section is looked for. -/

namespace Slideshow

open Yaml (Value Mapping)

/-! ### Items -/

/-- The entries of a document. -/
def entriesOf : Value → Mapping
  | .mapping es => es
  | _ => []

/-- The items of the list that an entry holds. -/
def itemsOf (e : Value × Value) : List Value :=
  match e.2 with
  | .list items => items
  | _ => []

/-- The items of the lists under a key of a document: of the list that stands there, or of those in
the mapping that stands there, under keys that count. -/
def sectionItems (counts : Value × Value → Bool) (e : Value × Value) : List Value :=
  match e.2 with
  | .list items => items
  | .mapping parts => (parts.filter counts).flatMap itemsOf
  | _ => []

/-- The items of all lists under keys of a document and of the mappings in it. -/
def listItems (v : Value) : List Value := (entriesOf v).flatMap (sectionItems fun _ => true)

/-- The items of those lists that do not stand under `config` in a mapping. -/
def elementItems (v : Value) : List Value :=
  (entriesOf v).flatMap (sectionItems fun e => e.1.scalarText? ≠ some configName)

/-- The items of the lists that stand under `config` in a mapping. -/
def reservedItems (v : Value) : List Value :=
  (entriesOf v).flatMap fun e =>
    match e.2 with
    | .mapping parts => (parts.filter fun e => e.1.scalarText? = some configName).flatMap itemsOf
    | _ => []

theorem listItems_perm (v : Value) : (listItems v).Perm (elementItems v ++ reservedItems v) := by
  rw [elementItems, reservedItems]
  refine .trans (List.Perm.flatMap_left _ fun e _ => ?_) (List.flatMap_append_perm _ _ _).symm
  obtain ⟨key, body⟩ := e
  cases body with
  | list items => exact .of_eq (List.append_nil items).symm
  | mapping parts =>
    have hSplit := List.filter_append_perm (fun e => e.1.scalarText? ≠ some configName) parts
    have hAll := (hSplit.flatMap_right itemsOf).symm
    rw [List.flatMap_append] at hAll
    simpa [sectionItems] using hAll
  | _ => exact .refl []

/-! ### Elements -/

def Section.elements : Section → List Element
  | flat content => content.elements
  | divided _ parts => parts.flatMap (·.2.elements)

/-- The elements of all subsections of a deck, in order. -/
def Deck.elements (d : Deck) : List Element := d.sections.flatMap (·.2.elements)

theorem Deck.exists_of_mem_elements {d : Deck} {e : Element} (h : e ∈ d.elements) :
    ∃ place s, d.SubsectionAt place s ∧ e ∈ s.elements := by
  obtain ⟨⟨name, body⟩, hSection, he⟩ := List.mem_flatMap.1 h
  cases body with
  | flat content => exact ⟨_, content, .flat hSection, he⟩
  | divided decoration parts =>
    obtain ⟨⟨sub, content⟩, hPart, he⟩ := List.mem_flatMap.1 he
    exact ⟨_, content, .part hSection hPart, he⟩

theorem flatMap_eq_map_flatMap {α β γ δ : Type} {R : α → β → Prop} {as : List α} {bs : List β}
    {f : α → List γ} {g : β → List δ} {h : γ → δ} (hR : List.Forall₂ R as bs)
    (hEach : ∀ a b, R a b → g b = (f a).map h) : bs.flatMap g = (as.flatMap f).map h := by
  induction hR with
  | nil => rfl
  | cons hab _ ih => rw [List.flatMap_cons, List.flatMap_cons, List.map_append, hEach _ _ hab, ih]

/-- The elements of a deck are the items of its document that count, in order. -/
theorem GivesDeck.elements {v : Value} {d : Deck} (h : GivesDeck v d) :
    d.elements = (elementItems v).map Element.ofValue := by
  cases h with
  | null => rfl
  | mapping hSections =>
    refine flatMap_eq_map_flatMap hSections ?_
    rintro _ _ (⟨-, hElements⟩ | ⟨-, hParts⟩)
    · exact hElements
    · refine flatMap_eq_map_flatMap hParts ?_
      rintro ⟨key, _⟩ part ⟨-, -, items, rfl, hElements⟩
      exact hElements

end Slideshow
