import Slideshow.Proofs.Deck.Merge

/-! Values without merge keys. Expansion leaves no merge key in any mapping that it reaches, and it
changes nothing but merge keys: a value without them stays as it is, entries in order, wherever it
stands. So expanding a second time changes nothing. -/

namespace Slideshow

open Yaml (Value Mapping)

variable {place inner : String} {v w : Value} {es m : Mapping} {P : Mapping → Prop}

/-! ### Mappings reached in a value -/

/-- Which mappings are reached in a value does not depend on its place. -/
theorem MappingAt.move (h : MappingAt place v inner m) (place' : String) :
    ∃ inner', MappingAt place' v inner' m := by
  induction h generalizing place' with
  | here _ m => exact ⟨place', .here place' m⟩
  | item hMem _ ih =>
    obtain ⟨inner', h⟩ := ih place'
    exact ⟨inner', .item hMem h⟩
  | @entry _ _ _ e _ hMem _ ih =>
    obtain ⟨inner', h⟩ := ih (placeUnder place' e.1)
    exact ⟨inner', .entry hMem h⟩

/-- Whether every mapping that is reached in a value has a property. -/
def EveryMapping (P : Mapping → Prop) (v : Value) : Prop :=
  ∀ place inner m, MappingAt place v inner m → P m

theorem everyMapping_list {vs : List Value} :
    EveryMapping P (.list vs) ↔ ∀ v ∈ vs, EveryMapping P v := by
  constructor
  · exact fun h v hv place inner m hm => h place inner m (.item hv hm)
  · intro h place inner m hm
    cases hm with
    | item hv hm => exact h _ hv place inner m hm

theorem everyMapping_mapping :
    EveryMapping P (.mapping es) ↔ P es ∧ ∀ e ∈ es, EveryMapping P e.2 := by
  constructor
  · refine fun h => ⟨h "" "" es (.here "" es), fun e he place inner m hm => ?_⟩
    obtain ⟨inner', hm⟩ := hm.move (placeUnder "" e.1)
    exact h "" inner' m (.entry he hm)
  · rintro ⟨hHere, hBelow⟩ place inner m hm
    cases hm with
    | here _ _ => exact hHere
    | entry he hm => exact hBelow _ he _ inner m hm

theorem EveryMapping.imp {Q : Mapping → Prop} (h : EveryMapping P v) (hPQ : ∀ m, P m → Q m) :
    EveryMapping Q v :=
  fun place inner m hm => hPQ m (h place inner m hm)

/-- The sources of a merge key are reached in its value. -/
theorem Sources.everyMapping {sources : List Mapping} (h : Sources w sources)
    (hw : EveryMapping P w) : ∀ m ∈ sources, EveryMapping P (.mapping m) := by
  cases h with
  | mapping es => exact List.forall_mem_singleton.2 hw
  | list sources => exact List.forall_mem_map.1 (everyMapping_list.1 hw)

/-! ### What is left -/

/-- No entry of a mapping is a merge key. -/
def NoMergeKey (m : Mapping) : Prop := ∀ e ∈ m, isMergeKey e.1 = false

/-- A mapping as expansion leaves it: no merge keys, and every key once. -/
structure IsExpanded (m : Mapping) : Prop where
  once : m.Distinct
  noMergeKey : NoMergeKey m

/-- What an entry contributes has no merge keys if its expanded value has none: the entry itself is
none, and the mappings that it stands for have been expanded with its value. -/
theorem Contributes.isExpanded {e : Value × Value} {c : Contribution}
    (h : Contributes place e c)
    (hValue : ∀ {place w}, expandMerges place e.2 = .ok w → EveryMapping IsExpanded w) :
    c.Every (isMergeKey · = false) (EveryMapping IsExpanded) := by
  cases h with
  | own hKey hw => exact ⟨hKey, hValue hw⟩
  | merged _ hw hSources =>
    intro m hm e he
    obtain ⟨hHere, hBelow⟩ := everyMapping_mapping.1 (hSources.everyMapping (hValue hw) m hm)
    exact ⟨hHere.noMergeKey e he, hBelow e he⟩

/-- Every mapping of an expanded value is expanded. -/
theorem expandMerges_isExpanded (h : expandMerges place v = .ok w) : EveryMapping IsExpanded w := by
  induction v generalizing place w with
  | list vs ih =>
    obtain ⟨ws, hws, rfl⟩ := expandMerges_list.1 h
    refine everyMapping_list.2 fun w hw => ?_
    obtain ⟨v, hv, hvw⟩ := exists_of_mem_right hws hw
    exact ih v hv hvw
  | mapping es ih =>
    obtain ⟨cs, hcs, rfl⟩ := expandMerges_mapping.1 h
    have hEntries : ∀ e ∈ cs.foldl Contribution.addTo [],
        isMergeKey e.1 = false ∧ EveryMapping IsExpanded e.2 := by
      refine Contribution.Every.run (P := (isMergeKey · = false)) (Q := EveryMapping IsExpanded)
        (fun _ h => absurd h List.not_mem_nil) fun c hc => ?_
      obtain ⟨e, he, hContributes⟩ := exists_of_mem_right hcs hc
      exact hContributes.isExpanded (ih e he).2
    exact everyMapping_mapping.2
      ⟨⟨distinct_expanded cs, fun e he => (hEntries e he).1⟩, fun e he => (hEntries e he).2⟩
  | _ =>
    cases Except.ok.inj h
    exact nofun

/-! ### What stays -/

theorem insert_of_new {key value : Value} (h : ∀ e ∈ m, e.1.same key = false) :
    m.insert key value = m ++ [(key, value)] := by
  induction m with
  | nil => rfl
  | cons e m ih =>
    have ⟨hHead, hTail⟩ := List.forall_mem_cons.1 h
    rw [Mapping.insert, hHead, if_neg Bool.false_ne_true, ih hTail, List.cons_append]

/-- Distinct entries that are put in one after another stand there in their order. -/
theorem foldl_addTo_own (done : Mapping) (h : Mapping.Distinct (done ++ es)) :
    (es.map fun e => Contribution.own e.1 e.2).foldl Contribution.addTo done = done ++ es := by
  induction es generalizing done with
  | nil => simp
  | cons e es ih =>
    have hNew : ∀ e' ∈ done, e'.1.same e.1 = false :=
      fun e' he' => (List.pairwise_append.1 h).2.2 e' he' e List.mem_cons_self
    rw [List.map_cons, List.foldl_cons, Contribution.addTo, insert_of_new hNew, ih, List.append_assoc,
      List.singleton_append]
    rwa [List.append_assoc, List.singleton_append]

/-- A value without merge keys stays as it is, wherever it stands. -/
theorem expandMerges_eq_self (h : EveryMapping IsExpanded v) (place : String) :
    expandMerges place v = .ok v := by
  induction v generalizing place with
  | list vs ih =>
    have hItems := everyMapping_list.1 h
    exact expandMerges_list.2
      ⟨vs, List.forall₂_same.2 fun v hv => ih v hv (hItems v hv) place, rfl⟩
  | mapping es ih =>
    obtain ⟨hHere, hBelow⟩ := everyMapping_mapping.1 h
    refine expandMerges_mapping.2 ⟨es.map fun e => .own e.1 e.2, ?_, ?_⟩
    · rw [List.forall₂_map_right_iff, List.forall₂_same]
      exact fun e he => .own (hHere.noMergeKey e he) ((ih e he).2 (hBelow e he) _)
    · rw [foldl_addTo_own [] hHere.once, List.nil_append]
  | _ => rfl

/-- A value that can be expanded is expanded to the same at every place. -/
theorem expandMerges_move (h : expandMerges place v = .ok w) (place' : String) :
    expandMerges place' v = .ok w := by
  induction v generalizing place place' w with
  | list vs ih =>
    obtain ⟨ws, hws, rfl⟩ := expandMerges_list.1 h
    exact expandMerges_list.2
      ⟨ws, forall₂_imp_of_mem hws fun v hv _ hw => ih v hv hw place', rfl⟩
  | mapping es ih =>
    obtain ⟨cs, hcs, rfl⟩ := expandMerges_mapping.1 h
    refine expandMerges_mapping.2 ⟨cs, forall₂_imp_of_mem hcs ?_, rfl⟩
    rintro e he c (⟨hKey, hw⟩ | ⟨hKey, hw, hSources⟩)
    · exact .own hKey ((ih _ he).2 hw _)
    · exact .merged hKey ((ih _ he).2 hw _) hSources
  | _ => exact h

/-- In an expanded value no mapping that is reached has a merge key; a value in which none has one is
itself its expansion. So what is expanded stays the same when it is expanded again, and a value is
expanded to the same wherever it stands. -/
theorem expandMerges_complete (hv : v.isWellFormed = true) (h : expandMerges place v = .ok w) :
    EveryMapping NoMergeKey w ∧ (EveryMapping NoMergeKey v → w = v) ∧
      (∀ place', expandMerges place' w = .ok w) ∧ ∀ place', expandMerges place' v = .ok w := by
  have hExpanded := expandMerges_isExpanded h
  refine ⟨hExpanded.imp fun _ => IsExpanded.noMergeKey, fun hNone => ?_,
    expandMerges_eq_self hExpanded, expandMerges_move h⟩
  have hSame : EveryMapping IsExpanded v := fun place inner m hm =>
    ⟨(Value.isWellFormed_mapping.1 (hm.isWellFormed hv)).1, hNone place inner m hm⟩
  exact Except.ok.inj (h.symm.trans (expandMerges_eq_self hSame place))

/-- Merge keys in the sources of merge keys, one of them in a list. -/
def chained : Value :=
  .mapping [(.string "a", .list [.mapping [
    (.string "<<", .list [
      .mapping [(.string "<<", .mapping [(.string "x", .bool true), (.string "y", .null)])],
      .mapping [(.tagged "t" (.string "<<"), .mapping [(.string "z", .bool false)])]]),
    (.string "y", .bool true)]])]

def unchained : Value :=
  .mapping [(.string "a", .list [.mapping [(.string "x", .bool true), (.string "y", .bool true),
    (.string "z", .bool false)]])]

theorem expandMerges_complete_chained :
    chained.isWellFormed = true ∧ expandMerges "deck" chained = .ok unchained ∧
    EveryMapping NoMergeKey unchained ∧ unchained.isWellFormed = true ∧
    (∀ w, expandMerges "deck" unchained = .ok w → w = unchained) ∧
    (∀ place, expandMerges place unchained = .ok unchained) ∧
    ∀ place, expandMerges place chained = .ok unchained := by
  have hWell : chained.isWellFormed = true := by decide
  have hWell' : unchained.isWellFormed = true := by decide
  have hExpand : expandMerges "deck" chained = .ok unchained := by rfl
  obtain ⟨hNone, -, hAgain, hAnywhere⟩ := expandMerges_complete hWell hExpand
  exact ⟨hWell, hExpand, hNone, hWell', fun w hw => (expandMerges_complete hWell' hw).2.1 hNone,
    hAgain, hAnywhere⟩

end Slideshow
