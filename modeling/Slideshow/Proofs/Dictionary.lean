import Mathlib.Data.List.Induction
import Mathlib.Data.List.Sort
import Slideshow.Dictionary

/-! What is found under a key: in entries, in a dictionary, and after entries are put in, of which the
last one for a key stays. Entries in the order of their keys are determined by it. -/

namespace Slideshow.Dictionary

variable {α : Type}

theorem lookup_cons {κ : Type} [BEq κ] [LawfulBEq κ] [DecidableEq κ] (key name : κ) (value : α)
    (es : List (κ × α)) :
    List.lookup name ((key, value) :: es) = if name = key then some value else es.lookup name := by
  rw [List.lookup_cons]
  by_cases h : name = key
  · rw [if_pos h, beq_iff_eq.2 h]
  · rw [if_neg h, beq_eq_false_iff_ne.2 h]

theorem lookup_eq_none_of_not_mem {κ : Type} [BEq κ] [LawfulBEq κ] {name : κ} {es : List (κ × α)}
    (h : name ∉ es.map (·.1)) : es.lookup name = none := by
  rw [List.lookup_eq_none_iff]
  intro e he
  exact bne_iff_ne.2 fun hEq => h (List.mem_map.2 ⟨e, he, hEq.symm⟩)

theorem lookup_insertEntry (key name : String) (value : α) (es : List (String × α)) :
    (insertEntry key value es).lookup name = if name = key then some value else es.lookup name := by
  induction es with
  | nil => rw [insertEntry, lookup_cons]
  | cons e es ih =>
    obtain ⟨k, v⟩ := e
    rw [insertEntry]
    split
    · rw [lookup_cons]
    · split
      · rename_i hKey
        subst hKey
        rw [lookup_cons, lookup_cons]
        split <;> rfl
      · rename_i hKey
        rw [lookup_cons, lookup_cons, ih]
        by_cases hName : name = k
        · have hne : name ≠ key := fun h => hKey (h.symm.trans hName)
          rw [if_pos hName, if_neg hne, if_pos hName]
        · rw [if_neg hName, if_neg hName]

theorem mem_of_lookup {key : String} {value : α} {es : List (String × α)}
    (h : es.lookup key = some value) : (key, value) ∈ es := by
  obtain ⟨before, after, rfl, -⟩ := List.lookup_eq_some_iff.1 h
  exact List.mem_append_right _ List.mem_cons_self

theorem lookup_of_mem {key : String} {value : α} {es : List (String × α)}
    (hSorted : es.Pairwise fun a b => a.1 < b.1) (h : (key, value) ∈ es) :
    es.lookup key = some value := by
  induction es with
  | nil => exact absurd h List.not_mem_nil
  | cons e es ih =>
    obtain ⟨k, v⟩ := e
    have ⟨hHead, hTail⟩ := List.pairwise_cons.1 hSorted
    rw [lookup_cons]
    obtain hEq | h := List.mem_cons.1 h
    · cases hEq
      rw [if_pos rfl]
    · have hne : key ≠ k := fun hEq => String.lt_irrefl k (hEq ▸ hHead _ h)
      rw [if_neg hne, ih hTail h]

/-- Entries in order that hold the same under every key are the same. -/
theorem eq_of_lookup {es es' : List (String × α)}
    (hSorted : es.Pairwise fun a b => a.1 < b.1) (hSorted' : es'.Pairwise fun a b => a.1 < b.1)
    (h : ∀ key, es.lookup key = es'.lookup key) : es = es' := by
  have : Std.Irrefl fun a b : String × α => a.1 < b.1 := ⟨fun a => String.lt_irrefl a.1⟩
  have : Std.Antisymm fun a b : String × α => a.1 < b.1 :=
    ⟨fun _ _ hab hba => absurd (String.lt_trans hab hba) (String.lt_irrefl _)⟩
  refine hSorted.eq_of_mem_iff hSorted' fun ⟨key, value⟩ => ⟨fun hMem => ?_, fun hMem => ?_⟩
  · exact mem_of_lookup (h key ▸ lookup_of_mem hSorted hMem)
  · exact mem_of_lookup (h key ▸ lookup_of_mem hSorted' hMem)

/-- The value under a name once `key` is set. -/
theorem get?_insert (d : Dictionary α) (key name : String) (value : α) :
    (d.insert key value).get? name = if name = key then some value else d.get? name :=
  lookup_insertEntry key name value d.entries

theorem eq_of_get? {d d' : Dictionary α} (h : ∀ key, d.get? key = d'.get? key) : d = d' := by
  obtain ⟨es, hSorted⟩ := d
  obtain ⟨es', hSorted'⟩ := d'
  obtain rfl := eq_of_lookup hSorted hSorted' h
  rfl

theorem mem_keys_iff {d : Dictionary α} {key : String} :
    key ∈ d.keys ↔ d.contains key = true := by
  rw [contains, get?]
  constructor
  · rw [keys, List.mem_map]
    rintro ⟨⟨_, value⟩, hMem, rfl⟩
    rw [lookup_of_mem d.sorted hMem, Option.isSome_some]
  · intro h
    obtain ⟨value, hValue⟩ := Option.isSome_iff_exists.1 h
    exact List.mem_map_of_mem (mem_of_lookup hValue)

/-! ### Dictionaries filled from entries -/

/-- The last value that entries give a key. -/
def last? (key : String) (es : List (String × α)) : Option α :=
  ((es.filter (·.1 = key)).map (·.2)).getLast?

theorem last?_concat (key name : String) (value : α) (es : List (String × α)) :
    last? name (es ++ [(key, value)]) = if name = key then some value else last? name es := by
  rw [last?, List.filter_append, List.map_append]
  by_cases h : name = key
  · subst h
    simp
  · simp [last?, h, Ne.symm h]

theorem isSome_last? {key : String} {es : List (String × α)} :
    (last? key es).isSome = true ↔ key ∈ es.map (·.1) := by
  rw [last?, List.getLast?_isSome, ne_eq, List.map_eq_nil_iff, List.filter_eq_nil_iff]
  simp

theorem get?_ofList (es : List (String × α)) (key : String) :
    (ofList es).get? key = last? key es := by
  induction es using List.reverseRecOn with
  | nil => rfl
  | append_singleton es e ih =>
    rw [ofList, List.foldl_concat, ← ofList, get?_insert, ih, last?_concat]

theorem mem_keys_ofList {es : List (String × α)} {key : String} :
    key ∈ (ofList es).keys ↔ key ∈ es.map (·.1) := by
  rw [mem_keys_iff, contains, get?_ofList, isSome_last?]

theorem get?_map {β : Type} (f : α → β) (d : Dictionary α) (key : String) :
    (d.map f).get? key = (d.get? key).map f := by
  show (d.entries.map fun e => (e.1, f e.2)).lookup key = (d.entries.lookup key).map f
  induction d.entries with
  | nil => rfl
  | cons e es ih =>
    rw [List.map_cons, lookup_cons, lookup_cons, ih]
    split <;> rfl

/-- Values may be mapped before they are put in. -/
theorem map_ofList {β : Type} (f : α → β) (es : List (String × α)) :
    (ofList es).map f = ofList (es.map fun e => (e.1, f e.2)) := by
  apply eq_of_get?
  intro key
  rw [get?_map, get?_ofList, get?_ofList, last?, last?, List.filter_map, List.map_map,
    ← List.getLast?_map, List.map_map]
  rfl

end Slideshow.Dictionary
