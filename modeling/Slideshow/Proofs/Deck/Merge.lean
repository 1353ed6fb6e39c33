import Slideshow.Deck.Merge
import Slideshow.Proofs.Success
import Slideshow.Proofs.Yaml.Mapping

/-! What a mapping becomes when its merge keys are expanded. Every entry contributes either itself,
its value expanded, or the mappings that its merge key stands for. From the contributions follow the
keys of the result, their order, and the value under each of them: an entry's own value before a
merged one, and of two merged ones the first. -/

namespace Slideshow

open Yaml (Value Mapping)
open Yaml.Mapping (addKey firstAppearances)

/-- The sources of a merge key: its mapping, or the mappings of its list. -/
inductive Sources : Value → List Mapping → Prop
  | mapping (es : Mapping) : Sources (.mapping es) [es]
  | list (sources : List Mapping) : Sources (.list (sources.map .mapping)) sources

theorem mappingsOf?_eq_ok {place : String} {vs : List Value} {sources : List Mapping} :
    mappingsOf? place vs = .ok sources ↔ vs = sources.map .mapping := by
  induction vs generalizing sources with
  | nil => cases sources <;> simp [mappingsOf?]
  | cons v vs ih =>
    cases v with
    | mapping es =>
      simp only [mappingsOf?, map_eq_ok, ih]
      constructor
      · rintro ⟨rest, rfl, rfl⟩
        rfl
      · intro h
        obtain ⟨_, rest, rfl, hHead, rfl⟩ := List.map_eq_cons_iff.1 h.symm
        exact ⟨rest, rfl, by rw [Value.mapping.inj hHead]⟩
    | _ => cases sources <;> simp [mappingsOf?]

theorem mergeSources_eq_ok {place : String} {v : Value} {sources : List Mapping} :
    mergeSources place v = .ok sources ↔ Sources v sources := by
  constructor
  · intro h
    cases v with
    | mapping es => exact Except.ok.inj h ▸ .mapping es
    | list vs => exact mappingsOf?_eq_ok.1 h ▸ .list sources
    | _ => exact nomatch h
  · rintro (es | _)
    · rfl
    · exact mappingsOf?_eq_ok.2 rfl

/-- What an entry adds to the mapping that it stands in. -/
inductive Contribution
  | own (key value : Value)
  | merged (sources : List Mapping)

namespace Contribution

/-- The keys that are added, in order. -/
def keys : Contribution → List Value
  | own key _ => [key]
  | merged sources => sources.flatMap Mapping.keys

/-- The mappings that are merged. -/
def sources : Contribution → List Mapping
  | own _ _ => []
  | merged sources => sources

/-- The mapping with a contribution added at its end. -/
def addTo (done : Mapping) : Contribution → Mapping
  | own key value => done.insert key value
  | merged sources => mergeInto done sources

end Contribution

/-- What an entry of a mapping at `place` contributes. -/
inductive Contributes (place : String) : Value × Value → Contribution → Prop
  | own {key v w : Value} : isMergeKey key = false →
      expandMerges (placeUnder place key) v = .ok w → Contributes place (key, v) (.own key w)
  | merged {key v w : Value} {sources : List Mapping} : isMergeKey key = true →
      expandMerges (placeUnder place key) v = .ok w → Sources w sources →
      Contributes place (key, v) (.merged sources)

/-! ### Runs -/

theorem expandItems_eq_ok {place : String} {vs ws : List Value} :
    expandItems place vs = .ok ws ↔
      List.Forall₂ (fun v w => expandMerges place v = .ok w) vs ws := by
  induction vs generalizing ws with
  | nil => cases ws <;> simp [expandItems]
  | cons v vs ih =>
    rw [expandItems]
    simp only [bind_eq_ok, List.forall₂_cons_left_iff, ← ih]
    constructor
    · rintro ⟨w, hw, ws, hws, h⟩
      exact ⟨w, ws, hw, hws, (Except.ok.inj h).symm⟩
    · rintro ⟨w, ws, hw, hws, rfl⟩
      exact ⟨w, hw, ws, hws, rfl⟩

/-- One step: an entry is expanded and its contribution added. -/
theorem expandEntries_cons_eq_ok {place : String} {done r : Mapping} {e : Value × Value}
    {es : List (Value × Value)} :
    expandEntries place done (e :: es) = .ok r ↔
      ∃ c, Contributes place e c ∧ expandEntries place (c.addTo done) es = .ok r := by
  obtain ⟨key, v⟩ := e
  rw [expandEntries]
  simp only [bind_eq_ok]
  constructor
  · rintro ⟨w, hw, h⟩
    by_cases hKey : isMergeKey key = true
    · rw [if_pos hKey, bind_eq_ok] at h
      obtain ⟨sources, hSources, h⟩ := h
      exact ⟨.merged sources, .merged hKey hw (mergeSources_eq_ok.1 hSources), h⟩
    · rw [if_neg hKey] at h
      exact ⟨.own key w, .own (by simpa using hKey) hw, h⟩
  · rintro ⟨c, hc, h⟩
    cases hc with
    | own hKey hw =>
      refine ⟨_, hw, ?_⟩
      rw [if_neg (by simp [hKey])]
      exact h
    | merged hKey hw hSources =>
      refine ⟨_, hw, ?_⟩
      rw [if_pos hKey, bind_eq_ok]
      exact ⟨_, mergeSources_eq_ok.2 hSources, h⟩

/-- A run over entries adds their contributions one after another. -/
theorem expandEntries_eq_ok {place : String} {done r : Mapping} {es : List (Value × Value)} :
    expandEntries place done es = .ok r ↔
      ∃ cs, List.Forall₂ (Contributes place) es cs ∧ cs.foldl Contribution.addTo done = r := by
  induction es generalizing done with
  | nil => simp [expandEntries]
  | cons e es ih =>
    simp only [expandEntries_cons_eq_ok, ih, List.forall₂_cons_left_iff]
    constructor
    · rintro ⟨c, hc, cs, hcs, h⟩
      exact ⟨c :: cs, ⟨c, cs, hc, hcs, rfl⟩, h⟩
    · rintro ⟨_, ⟨c, cs, hc, hcs, rfl⟩, h⟩
      exact ⟨c, hc, cs, hcs, h⟩

theorem expandMerges_mapping {place : String} {es : List (Value × Value)} {w : Value} :
    expandMerges place (.mapping es) = .ok w ↔ ∃ cs, List.Forall₂ (Contributes place) es cs ∧
      w = .mapping (cs.foldl Contribution.addTo []) := by
  simp only [expandMerges, map_eq_ok, expandEntries_eq_ok]
  constructor
  · rintro ⟨_, ⟨cs, hcs, rfl⟩, rfl⟩
    exact ⟨cs, hcs, rfl⟩
  · rintro ⟨cs, hcs, rfl⟩
    exact ⟨_, ⟨cs, hcs, rfl⟩, rfl⟩

theorem expandMerges_list {place : String} {vs : List Value} {w : Value} :
    expandMerges place (.list vs) = .ok w ↔
      ∃ ws, List.Forall₂ (fun v w => expandMerges place v = .ok w) vs ws ∧ w = .list ws := by
  simp only [expandMerges, map_eq_ok, expandItems_eq_ok, eq_comm (a := w)]

/-! ### Keys -/

theorem keys_foldl_insertNew (done source : Mapping) :
    Mapping.keys (source.foldl (fun m e => m.insertNew e.1 e.2) done) =
      source.keys.foldl addKey done.keys := by
  induction source generalizing done with
  | nil => rfl
  | cons e source ih => rw [List.foldl_cons, ih, Mapping.keys_insertNew]; rfl

theorem keys_mergeInto (done : Mapping) (sources : List Mapping) :
    (mergeInto done sources).keys = (sources.flatMap Mapping.keys).foldl addKey done.keys := by
  rw [mergeInto]
  induction sources generalizing done with
  | nil => rfl
  | cons source sources ih =>
    rw [List.foldl_cons, ih, keys_foldl_insertNew, List.flatMap_cons, List.foldl_append]

namespace Contribution

theorem keys_addTo (done : Mapping) (c : Contribution) :
    (c.addTo done).keys = c.keys.foldl addKey done.keys := by
  cases c with
  | own key value => exact Mapping.keys_insert done key value
  | merged sources => exact keys_mergeInto done sources

/-- The keys of a run are those of its contributions, each where it first appears. -/
theorem keys_run (done : Mapping) (cs : List Contribution) :
    Mapping.keys (cs.foldl addTo done) = (cs.flatMap keys).foldl addKey done.keys := by
  induction cs generalizing done with
  | nil => rfl
  | cons c cs ih => rw [List.foldl_cons, ih, keys_addTo, List.flatMap_cons, List.foldl_append]

end Contribution

/-! ### Values -/

theorem find?_foldl_insertNew (done source : Mapping) (key : Value) :
    Mapping.find? (source.foldl (fun m e => m.insertNew e.1 e.2) done) key =
      (done.find? key).or (source.find? key) := by
  induction source generalizing done with
  | nil => simp
  | cons e source ih =>
    rw [List.foldl_cons, ih, Mapping.find?_insertNew, Mapping.find?_cons, Option.or_assoc]
    by_cases h : e.1.same key = true <;> simp [h]

theorem find?_mergeInto (done : Mapping) (sources : List Mapping) (key : Value) :
    (mergeInto done sources).find? key =
      (done.find? key).or (sources.findSome? (·.find? key)) := by
  rw [mergeInto]
  induction sources generalizing done with
  | nil => simp
  | cons source sources ih =>
    rw [List.foldl_cons, ih, find?_foldl_insertNew, List.findSome?_cons, Option.or_assoc]
    cases source.find? key <;> simp

/-- All keys are well-formed, as the symmetry of their equality needs. -/
def KeysWellFormed (ks : List Value) : Prop := ∀ k ∈ ks, k.isWellFormed = true

namespace Contribution

theorem keysWellFormed_addTo {done : Mapping} {c : Contribution}
    (hDone : KeysWellFormed done.keys) (hc : KeysWellFormed c.keys) :
    KeysWellFormed (c.addTo done).keys := by
  intro k hk
  rw [keys_addTo] at hk
  exact (Mapping.mem_foldl_addKey hk).elim (hDone k) (hc k)

theorem find?_addTo {done : Mapping} {c : Contribution} {key : Value}
    (hDone : KeysWellFormed done.keys) (hc : KeysWellFormed c.keys)
    (hOther : ∀ k v, c = own k v → k.same key = false) :
    (c.addTo done).find? key = (done.find? key).or (c.sources.findSome? (·.find? key)) := by
  cases c with
  | own k v =>
    rw [addTo, Mapping.find?_insert v hDone (hc k List.mem_cons_self)]
    simp [hOther k v rfl, sources]
  | merged ms => exact find?_mergeInto done ms key

/-- Under a key that no entry gives itself, a run keeps the value that is there, and otherwise takes
that of the first source with the key. -/
theorem find?_run {done : Mapping} {cs : List Contribution} {key : Value}
    (hDone : KeysWellFormed done.keys) (hcs : KeysWellFormed (cs.flatMap keys))
    (hOther : ∀ k v, own k v ∈ cs → k.same key = false) :
    Mapping.find? (cs.foldl addTo done) key =
      (done.find? key).or ((cs.flatMap sources).findSome? (·.find? key)) := by
  induction cs generalizing done with
  | nil => simp
  | cons c cs ih =>
    rw [List.flatMap_cons] at hcs
    have ⟨hHead, hTail⟩ := List.forall_mem_append.1 hcs
    rw [List.foldl_cons, ih (keysWellFormed_addTo hDone hHead) hTail
        (fun k v h => hOther k v (List.mem_cons_of_mem _ h)),
      find?_addTo hDone hHead (fun k v h => hOther k v (h ▸ List.mem_cons_self)),
      List.flatMap_cons, List.findSome?_append, Option.or_assoc]

/-- Under a key that an entry gives itself, a run ends with that entry's value, provided that no
later entry gives the key again. -/
theorem find?_run_own {done : Mapping} {before after : List Contribution} {key value k : Value}
    (hDone : KeysWellFormed done.keys)
    (hcs : KeysWellFormed ((before ++ own key value :: after).flatMap keys))
    (hLast : ∀ k v, own k v ∈ after → key.same k = false) (hKey : key.same k = true) :
    Mapping.find? ((before ++ own key value :: after).foldl addTo done) k = some value := by
  induction before generalizing done with
  | nil =>
    have ⟨hHead, hTail⟩ := List.forall_mem_append.1 hcs
    have hWF := hHead key List.mem_cons_self
    rw [List.nil_append, List.foldl_cons, find?_run (keysWellFormed_addTo hDone hHead) hTail, addTo,
      Mapping.find?_insert value hDone hWF, if_pos hKey, Option.some_or]
    intro k' v' h'
    rw [Bool.eq_false_iff]
    intro hSame
    have hWF' := hTail k' (List.mem_flatMap_of_mem h' List.mem_cons_self)
    have hSymm := Value.same_symm hWF' hSame
    exact Bool.false_ne_true ((hLast k' v' h').symm.trans (Value.same_trans hKey hSymm))
  | cons c before ih =>
    rw [List.cons_append, List.flatMap_cons] at hcs
    have ⟨hHead, hTail⟩ := List.forall_mem_append.1 hcs
    exact ih (keysWellFormed_addTo hDone hHead) hTail

end Contribution

/-! ### Well-formed values -/

/-- All keys and values are well-formed. -/
def PartsWellFormed (m : Mapping) : Prop :=
  ∀ e ∈ m, e.1.isWellFormed = true ∧ e.2.isWellFormed = true

theorem PartsWellFormed.keys {m : Mapping} (h : PartsWellFormed m) : KeysWellFormed m.keys :=
  List.forall_mem_map.2 fun e he => (h e he).1

/-- What holds of the entries that are there and of those that are merged in holds of all. -/
theorem forall_mergeInto {P : Value × Value → Prop} {done : Mapping} {sources : List Mapping}
    (hDone : ∀ e ∈ done, P e) (h : ∀ m ∈ sources, ∀ e ∈ m, P e) :
    ∀ e ∈ mergeInto done sources, P e := by
  rw [mergeInto]
  induction sources generalizing done with
  | nil => exact hDone
  | cons source sources ih =>
    have ⟨hSource, hSources⟩ := List.forall_mem_cons.1 h
    refine ih ?_ hSources
    clear ih h hSources
    induction source generalizing done with
    | nil => exact hDone
    | cons e source ih =>
      have ⟨hHead, hTail⟩ := List.forall_mem_cons.1 hSource
      exact ih (Mapping.forall_insertNew hDone hHead) hTail

theorem Sources.partsWellFormed {w : Value} {sources : List Mapping} (h : Sources w sources)
    (hw : w.isWellFormed = true) : ∀ m ∈ sources, PartsWellFormed m := by
  cases h with
  | mapping es => exact List.forall_mem_singleton.2 (Value.isWellFormed_mapping.1 hw).2
  | list sources =>
    intro m hm
    have hItem := Value.isWellFormed_list.1 hw _ (List.mem_map_of_mem hm)
    exact (Value.isWellFormed_mapping.1 hItem).2

namespace Contribution

/-- The keys and values that are added are well-formed. -/
def WellFormed : Contribution → Prop
  | own key value => key.isWellFormed = true ∧ value.isWellFormed = true
  | merged sources => ∀ m ∈ sources, PartsWellFormed m

theorem WellFormed.keys {c : Contribution} (h : c.WellFormed) : KeysWellFormed c.keys := by
  cases c with
  | own key value => exact List.forall_mem_singleton.2 h.1
  | merged sources =>
    intro k hk
    obtain ⟨m, hm, hk⟩ := List.mem_flatMap.1 hk
    exact (h m hm).keys k hk

/-- The keys that are added have one property, and the values another. -/
def Every (P Q : Value → Prop) : Contribution → Prop
  | own key value => P key ∧ Q value
  | merged sources => ∀ m ∈ sources, ∀ e ∈ m, P e.1 ∧ Q e.2

theorem Every.run {P Q : Value → Prop} {done : Mapping} {cs : List Contribution}
    (hDone : ∀ e ∈ done, P e.1 ∧ Q e.2) (hcs : ∀ c ∈ cs, c.Every P Q) :
    ∀ e ∈ cs.foldl addTo done, P e.1 ∧ Q e.2 := by
  induction cs generalizing done with
  | nil => exact hDone
  | cons c cs ih =>
    have ⟨hHead, hTail⟩ := List.forall_mem_cons.1 hcs
    refine ih ?_ hTail
    cases c with
    | own key value => exact Mapping.forall_insert hDone hHead.1 hHead.2
    | merged sources => exact forall_mergeInto hDone hHead

theorem WellFormed.run {done : Mapping} {cs : List Contribution} (hDone : PartsWellFormed done)
    (hcs : ∀ c ∈ cs, c.WellFormed) : PartsWellFormed (cs.foldl addTo done) := by
  refine Every.run (P := (·.isWellFormed = true)) (Q := (·.isWellFormed = true)) hDone fun c hc => ?_
  cases c <;> exact hcs _ hc

end Contribution

theorem contributions_wellFormed {place : String} {es : Mapping} {cs : List Contribution}
    (hes : PartsWellFormed es) (hcs : List.Forall₂ (Contributes place) es cs)
    (hValue : ∀ e ∈ es, ∀ {place w}, expandMerges place e.2 = .ok w → w.isWellFormed = true) :
    ∀ c ∈ cs, c.WellFormed := by
  induction hcs with
  | nil => exact fun _ h => absurd h List.not_mem_nil
  | cons hc _ ih =>
    have ⟨hHead, hTail⟩ := List.forall_mem_cons.1 hes
    have ⟨hValueHead, hValueTail⟩ := List.forall_mem_cons.1 hValue
    refine List.forall_mem_cons.2 ⟨?_, ih hTail hValueTail⟩
    cases hc with
    | own _ hw => exact ⟨hHead.1, hValueHead hw⟩
    | merged _ hw hSources => exact hSources.partsWellFormed (hValueHead hw)

/-- The keys of a mapping whose merge keys were expanded: those of the contributions, each where it
first appears. -/
theorem keys_expanded (cs : List Contribution) :
    Mapping.keys (cs.foldl Contribution.addTo []) =
      firstAppearances (cs.flatMap Contribution.keys) := by
  rw [Contribution.keys_run]
  exact Mapping.foldl_addKey_nil _

theorem distinct_expanded (cs : List Contribution) :
    Mapping.Distinct (cs.foldl Contribution.addTo []) := by
  rw [Mapping.distinct_iff, keys_expanded]
  exact Mapping.pairwise_firstAppearances _

theorem expandMerges_isWellFormed {place : String} {v w : Value} (hv : v.isWellFormed = true)
    (h : expandMerges place v = .ok w) : w.isWellFormed = true := by
  induction v generalizing place w with
  | list vs ih =>
    obtain ⟨ws, hws, rfl⟩ := expandMerges_list.1 h
    rw [Value.isWellFormed_list] at hv ⊢
    intro w hw
    obtain ⟨v, hv', hvw⟩ := exists_of_mem_right hws hw
    exact ih v hv' (hv v hv') hvw
  | mapping es ih =>
    obtain ⟨cs, hcs, rfl⟩ := expandMerges_mapping.1 h
    have hes := (Value.isWellFormed_mapping.1 hv).2
    refine Value.isWellFormed_mapping.2 ⟨distinct_expanded cs, ?_⟩
    refine Contribution.WellFormed.run (fun _ h => absurd h List.not_mem_nil) ?_
    exact contributions_wellFormed hes hcs fun e he => (ih e he).2 (hes e he).2
  | _ => exact Except.ok.inj h ▸ hv

/-! ### Every mapping of a value -/

/-- A mapping reached in a value at `place` through the items of lists and the values of mappings,
with its own place. -/
inductive MappingAt : String → Value → String → Mapping → Prop
  | here (place : String) (m : Mapping) : MappingAt place (.mapping m) place m
  | item {place inner : String} {vs : List Value} {v : Value} {m : Mapping} : v ∈ vs →
      MappingAt place v inner m → MappingAt place (.list vs) inner m
  | entry {place inner : String} {es : Mapping} {e : Value × Value} {m : Mapping} : e ∈ es →
      MappingAt (placeUnder place e.1) e.2 inner m → MappingAt place (.mapping es) inner m

theorem MappingAt.isWellFormed {place inner : String} {v : Value} {m : Mapping}
    (hm : MappingAt place v inner m) (hv : v.isWellFormed = true) :
    (Value.mapping m).isWellFormed = true := by
  induction hm with
  | here place m => exact hv
  | item hMem _ ih => exact ih (Value.isWellFormed_list.1 hv _ hMem)
  | entry hMem _ ih => exact ih ((Value.isWellFormed_mapping.1 hv).2 _ hMem).2

/-- A mapping as it follows from what the entries of another contribute. -/
structure Merged (cs : List Contribution) (r : Mapping) : Prop where
  once : r.Distinct
  keys : ∀ key, r.contains key = true ↔
    (∃ k v, .own k v ∈ cs ∧ k.same key = true) ∨
      ∃ m ∈ cs.flatMap Contribution.sources, m.contains key = true
  own : ∀ k v key, .own k v ∈ cs → k.same key = true → r.find? key = some v
  merged : ∀ key, (∀ k v, .own k v ∈ cs → k.same key = false) →
    r.find? key = (cs.flatMap Contribution.sources).findSome? (·.find? key)
  order : r.keys = firstAppearances (cs.flatMap Contribution.keys)

theorem Contribution.exists_keys {cs : List Contribution} {key : Value} :
    (∃ k ∈ cs.flatMap Contribution.keys, k.same key = true) ↔
      (∃ k v, .own k v ∈ cs ∧ k.same key = true) ∨
        ∃ m ∈ cs.flatMap Contribution.sources, m.contains key = true := by
  simp only [List.mem_flatMap, Mapping.contains_iff]
  constructor
  · rintro ⟨k, ⟨c, hc, hk⟩, hSame⟩
    cases c with
    | own key' v => exact .inl ⟨key', v, hc, List.mem_singleton.1 hk ▸ hSame⟩
    | merged sources =>
      obtain ⟨m, hm, hk⟩ := List.mem_flatMap.1 hk
      exact .inr ⟨m, ⟨_, hc, hm⟩, k, hk, hSame⟩
  · rintro (⟨k, v, hc, hSame⟩ | ⟨m, ⟨c, hc, hm⟩, k, hk, hSame⟩)
    · exact ⟨k, ⟨_, hc, List.mem_singleton.2 rfl⟩, hSame⟩
    · cases c with
      | own key' v => exact absurd hm List.not_mem_nil
      | merged sources => exact ⟨k, ⟨_, hc, List.mem_flatMap_of_mem hm hk⟩, hSame⟩

/-- The keys that the entries of a mapping give themselves are as distinct as the mapping's. -/
theorem own_pairwise {place : String} {es : Mapping} {cs : List Contribution}
    (hes : es.Distinct) (hcs : List.Forall₂ (Contributes place) es cs) :
    cs.Pairwise fun c c' => ∀ k v k' v', c = .own k v → c' = .own k' v' → k.same k' = false := by
  induction hcs with
  | nil => exact .nil
  | cons hc hRest ih =>
    have ⟨hHead, hTail⟩ := List.pairwise_cons.1 hes
    refine List.pairwise_cons.2 ⟨?_, ih hTail⟩
    rintro c' hc' k v k' v' rfl rfl
    obtain ⟨e', he', hContributes⟩ := exists_of_mem_right hRest hc'
    cases hc with
    | own _ _ =>
      cases hContributes with
      | own _ _ => exact hHead _ he'

theorem merged_expanded {place : String} {es : Mapping} {cs : List Contribution}
    (hes : (Value.mapping es).isWellFormed = true)
    (hcs : List.Forall₂ (Contributes place) es cs) :
    Merged cs (cs.foldl Contribution.addTo []) := by
  obtain ⟨hDistinct, hParts⟩ := Value.isWellFormed_mapping.1 hes
  have hWF : KeysWellFormed (cs.flatMap Contribution.keys) := by
    intro k hk
    obtain ⟨c, hc, hk⟩ := List.mem_flatMap.1 hk
    have hAll := contributions_wellFormed hParts hcs fun e he _ _ hw =>
      expandMerges_isWellFormed (hParts e he).2 hw
    exact (hAll c hc).keys k hk
  have hNil : KeysWellFormed (Mapping.keys []) := fun _ h => absurd h List.not_mem_nil
  refine ⟨distinct_expanded cs, fun key => ?_, fun k v key hc hSame => ?_, fun key hOther => ?_,
    keys_expanded cs⟩
  · rw [Mapping.contains_iff, keys_expanded, Mapping.exists_firstAppearances,
      Contribution.exists_keys]
  · obtain ⟨before, after, rfl⟩ := List.append_of_mem hc
    have hLast := (List.pairwise_cons.1 (List.pairwise_append.1 (own_pairwise hDistinct hcs)).2.1).1
    exact Contribution.find?_run_own hNil hWF (fun k' v' h => hLast _ h _ _ _ _ rfl rfl) hSame
  · exact (Contribution.find?_run hNil hWF hOther).trans (Option.none_or ..)

/-- Where the value `v` at `place` becomes `w`, the mapping `m` in it becomes `r`: in `w`, at the same
index of a list or under the same key. What stands under a merge key is expanded as well, but it is
in `w` only as far as its entries are. -/
inductive BecomesAt : String → Value → Value → String → Mapping → Mapping → Prop
  | here (place : String) (m r : Mapping) : BecomesAt place (.mapping m) (.mapping r) place m r
  | item {place inner : String} {vs ws : List Value} {v w : Value} {m r : Mapping} {i : Nat} :
      vs.length = ws.length → vs[i]? = some v → ws[i]? = some w →
      BecomesAt place v w inner m r → BecomesAt place (.list vs) (.list ws) inner m r
  | own {place inner : String} {es done : Mapping} {key v w : Value} {m r : Mapping} :
      (key, v) ∈ es → isMergeKey key = false → done.find? key = some w →
      BecomesAt (placeUnder place key) v w inner m r →
      BecomesAt place (.mapping es) (.mapping done) inner m r
  | merged {place inner : String} {es done : Mapping} {key v w : Value} {m r : Mapping} :
      (key, v) ∈ es → isMergeKey key = true → expandMerges (placeUnder place key) v = .ok w →
      BecomesAt (placeUnder place key) v w inner m r →
      BecomesAt place (.mapping es) (.mapping done) inner m r

theorem MappingAt.becomes {place inner : String} {v w : Value} {m : Mapping}
    (hm : MappingAt place v inner m) (hv : v.isWellFormed = true)
    (h : expandMerges place v = .ok w) :
    ∃ cs, List.Forall₂ (Contributes inner) m cs ∧
      BecomesAt place v w inner m (cs.foldl Contribution.addTo []) := by
  induction hm generalizing w with
  | here place m =>
    obtain ⟨cs, hcs, rfl⟩ := expandMerges_mapping.1 h
    exact ⟨cs, hcs, .here place m _⟩
  | item hMem _ ih =>
    obtain ⟨ws, hws, rfl⟩ := expandMerges_list.1 h
    obtain ⟨i, hi⟩ := List.mem_iff_getElem?.1 hMem
    obtain ⟨w, hw, hvw⟩ := exists_getElem?_right hws hi
    obtain ⟨cs, hcs, hBecomes⟩ := ih (Value.isWellFormed_list.1 hv _ hMem) hvw
    exact ⟨cs, hcs, .item hws.length_eq hi hw hBecomes⟩
  | @entry place inner es e m hMem _ ih =>
    obtain ⟨outer, hOuter, rfl⟩ := expandMerges_mapping.1 h
    obtain ⟨c, hc, hContributes⟩ := exists_of_mem_left hOuter hMem
    have hValue := ((Value.isWellFormed_mapping.1 hv).2 e hMem).2
    cases hContributes with
    | @own key v w hOwn hw =>
      obtain ⟨cs, hcs, hBecomes⟩ := ih hValue hw
      have hFound := (merged_expanded hv hOuter).own key w key hc (Value.same_refl key)
      exact ⟨cs, hcs, .own hMem hOwn hFound hBecomes⟩
    | merged hMerge hw _ =>
      obtain ⟨cs, hcs, hBecomes⟩ := ih hValue hw
      exact ⟨cs, hcs, .merged hMem hMerge hw hBecomes⟩

/-- Wherever a value whose merge keys can be expanded holds a mapping, its entries contribute
themselves or their sources, and in the expanded value it becomes the mapping that follows from the
contributions. -/
theorem expandMerges_precedence {place inner : String} {v w : Value} {m : Mapping}
    (hv : v.isWellFormed = true) (h : expandMerges place v = .ok w)
    (hm : MappingAt place v inner m) :
    ∃ cs r, List.Forall₂ (Contributes inner) m cs ∧
      expandMerges inner (.mapping m) = .ok (.mapping r) ∧ BecomesAt place v w inner m r ∧
      Merged cs r := by
  obtain ⟨cs, hcs, hBecomes⟩ := hm.becomes hv h
  exact ⟨cs, _, hcs, expandMerges_mapping.2 ⟨cs, hcs, rfl⟩, hBecomes,
    merged_expanded (hm.isWellFormed hv) hcs⟩

/-- A mapping with own keys before and after two merge keys, one of them tagged and with a list. -/
def interleaved : Mapping :=
  [(.string "a", .bool true),
    (.tagged "t" (.string "<<"), .list
      [.mapping [(.string "b", .string "first"), (.string "c", .string "first")],
        .mapping [(.string "c", .string "second"), (.string "d", .string "second")]]),
    (.string "c", .bool false),
    (.string "<<", .mapping [(.string "a", .string "third"), (.string "e", .string "third")])]

theorem expandMerges_precedence_interleaved :
    (Value.mapping [(.string "s", .list [.mapping interleaved])]).isWellFormed = true ∧
    expandMerges rootName (.mapping [(.string "s", .list [.mapping interleaved])]) =
      .ok (.mapping [(.string "s", .list [.mapping [(.string "a", .bool true),
        (.string "b", .string "first"), (.string "c", .bool false), (.string "d", .string "second"),
        (.string "e", .string "third")]])]) ∧
    MappingAt rootName (.mapping [(.string "s", .list [.mapping interleaved])]) "s" interleaved ∧
    ∃ cs r, List.Forall₂ (Contributes "s") interleaved cs ∧
      expandMerges "s" (.mapping interleaved) = .ok (.mapping r) ∧
      BecomesAt rootName (.mapping [(.string "s", .list [.mapping interleaved])])
        (.mapping [(.string "s", .list [.mapping [(.string "a", .bool true),
          (.string "b", .string "first"), (.string "c", .bool false),
          (.string "d", .string "second"), (.string "e", .string "third")]])]) "s" interleaved r ∧
      Merged cs r := by
  have hWF : (Value.mapping [(.string "s", .list [.mapping interleaved])]).isWellFormed = true := by
    decide
  have hAt : MappingAt rootName (.mapping [(.string "s", .list [.mapping interleaved])]) "s"
      interleaved :=
    .entry List.mem_cons_self (.item List.mem_cons_self (.here "s" interleaved))
  exact ⟨hWF, rfl, hAt, expandMerges_precedence hWF rfl hAt⟩

end Slideshow
