import Slideshow.Proofs.Yaml.Equality

/-! What a mapping holds after entries have been put into it: the value found under a key, and the
keys in their order. Both ways of putting an entry in leave the keys as they are or add one at the
end, so that every key stands where it first appeared. -/

namespace Slideshow.Yaml.Mapping

/-- The keys of a mapping, in order. -/
def keys (m : Mapping) : List Value := m.map (·.1)

/-- No two entries have the same key. -/
def Distinct (m : Mapping) : Prop := m.Pairwise fun a b => a.1.same b.1 = false

theorem distinct_iff {m : Mapping} :
    m.Distinct ↔ m.keys.Pairwise fun a b => a.same b = false := by
  rw [keys, List.pairwise_map, Distinct]

@[simp] theorem find?_nil (key : Value) : find? [] key = none := rfl

@[simp] theorem find?_cons (k v key : Value) (m : Mapping) :
    find? ((k, v) :: m) key = if k.same key then some v else find? m key := by
  simp only [find?, List.find?_cons]
  split <;> simp_all

@[simp] theorem keys_cons (e : Value × Value) (m : Mapping) : keys (e :: m) = e.1 :: keys m := rfl

@[simp] theorem contains_cons (e : Value × Value) (m : Mapping) (key : Value) :
    contains (e :: m) key = (e.1.same key || contains m key) := rfl

theorem contains_eq_any (m : Mapping) (key : Value) : m.contains key = m.keys.any (·.same key) := by
  rw [keys, List.any_map]
  rfl

theorem contains_iff {m : Mapping} {key : Value} :
    m.contains key = true ↔ ∃ k ∈ m.keys, k.same key = true := by
  rw [contains_eq_any, List.any_eq_true]

theorem isSome_find? (m : Mapping) (key : Value) : (m.find? key).isSome = m.contains key := by
  induction m with
  | nil => rfl
  | cons e m ih =>
    obtain ⟨k, v⟩ := e
    rw [find?_cons, contains_cons, ← ih]
    by_cases h : k.same key = true <;> simp [h]

/-! ### Entries put in -/

/-- Keys with one more at the end unless it is there. -/
def addKey (ks : List Value) (key : Value) : List Value :=
  if ks.any (·.same key) then ks else ks ++ [key]

section

variable (m : Mapping) (key value : Value)

theorem keys_insert : (m.insert key value).keys = addKey m.keys key := by
  induction m with
  | nil => rfl
  | cons e m ih =>
    obtain ⟨k, v⟩ := e
    by_cases h : k.same key = true
    · simp [insert, addKey, h]
    · simp only [insert, h, Bool.false_eq_true, if_false, keys_cons, ih, addKey, List.any_cons,
        Bool.false_or]
      split <;> rfl

theorem keys_insertNew : (m.insertNew key value).keys = addKey m.keys key := by
  rw [insertNew, addKey, contains_eq_any]
  split <;> simp [keys]

variable {m key value} in
/-- An entry put in brings no key and no value that are not its own. -/
theorem forall_insert {P Q : Value → Prop} (hm : ∀ e ∈ m, P e.1 ∧ Q e.2) (hKey : P key)
    (hValue : Q value) : ∀ e ∈ m.insert key value, P e.1 ∧ Q e.2 := by
  induction m with
  | nil => simp [insert, hKey, hValue]
  | cons e m ih =>
    have ⟨hHead, hTail⟩ := List.forall_mem_cons.1 hm
    simp only [insert]
    split
    · exact List.forall_mem_cons.2 ⟨⟨hHead.1, hValue⟩, hTail⟩
    · exact List.forall_mem_cons.2 ⟨hHead, ih hTail⟩

variable {m key value} in
theorem forall_insertNew {P : Value × Value → Prop} (hm : ∀ e ∈ m, P e) (hNew : P (key, value)) :
    ∀ e ∈ m.insertNew key value, P e := by
  rw [insertNew]
  split
  · exact hm
  · simpa [or_imp, forall_and] using And.intro hm hNew

theorem find?_insertNew (k : Value) :
    (m.insertNew key value).find? k =
      (m.find? k).or (if key.same k then some value else none) := by
  rw [insertNew]
  split
  · rename_i h
    by_cases hSame : key.same k = true
    · obtain ⟨k', hk', hKey⟩ := contains_iff.1 h
      have hFound : (m.find? k).isSome = true := by
        rw [isSome_find?]
        exact contains_iff.2 ⟨k', hk', Value.same_trans hKey hSame⟩
      rw [Option.or_of_isSome hFound]
    · simp [hSame]
  · simp only [find?, List.find?_append, Option.map_or]
    by_cases hSame : key.same k = true <;> simp [hSame]

variable {m key}

theorem find?_insert (hm : ∀ k ∈ m.keys, k.isWellFormed = true) (hKey : key.isWellFormed = true)
    (k : Value) : (m.insert key value).find? k = if key.same k then some value else m.find? k := by
  induction m with
  | nil => simp [insert]
  | cons e m ih =>
    obtain ⟨k0, v0⟩ := e
    have ⟨hHead, hTail⟩ := List.forall_mem_cons.1 hm
    simp only [insert]
    by_cases h : k0.same key = true
    · have hIff : k0.same k = key.same k := Bool.eq_iff_iff.2
        ⟨Value.same_trans (Value.same_symm hHead h), Value.same_trans h⟩
      simp only [h, if_true, find?_cons, hIff]
      by_cases hSame : key.same k = true <;> simp [hSame]
    · simp only [h, Bool.false_eq_true, if_false, find?_cons, ih hTail]
      by_cases hSame : key.same k = true
      · have hne : ¬ k0.same k = true := fun h' =>
          h (Value.same_trans h' (Value.same_symm hKey hSame))
        simp [hSame, hne]
      · simp [hSame]

end

/-! ### First appearances -/

/-- The keys of a list, each only where it first appears. -/
def firstAppearances : List Value → List Value
  | [] => []
  | k :: ks => k :: (firstAppearances ks).filter fun k' => !k.same k'

theorem pairwise_firstAppearances (ks : List Value) :
    (firstAppearances ks).Pairwise fun a b => a.same b = false := by
  induction ks with
  | nil => exact .nil
  | cons k ks ih =>
    refine List.pairwise_cons.2 ⟨fun k' hk' => ?_, ih.filter _⟩
    simpa using (List.mem_filter.1 hk').2

/-- What is the same as a key of a list is the same as one of its first appearances. -/
theorem exists_firstAppearances {ks : List Value} {key : Value} :
    (∃ k ∈ firstAppearances ks, k.same key = true) ↔ ∃ k ∈ ks, k.same key = true := by
  induction ks with
  | nil => rfl
  | cons k ks ih =>
    simp only [firstAppearances, List.exists_mem_cons_iff, ← ih]
    constructor
    · rintro (h | ⟨k', hk', h⟩)
      · exact .inl h
      · exact .inr ⟨k', (List.mem_filter.1 hk').1, h⟩
    · rintro (h | ⟨k', hk', h⟩)
      · exact .inl h
      · by_cases hSame : k.same k' = true
        · exact .inl (Value.same_trans hSame h)
        · exact .inr ⟨k', List.mem_filter.2 ⟨hk', by simpa using hSame⟩, h⟩

theorem foldl_addKey (known ks : List Value) :
    ks.foldl addKey known =
      known ++ (firstAppearances ks).filter fun k => !known.any (·.same k) := by
  induction ks generalizing known with
  | nil => simp [firstAppearances]
  | cons k ks ih =>
    rw [List.foldl_cons, ih, firstAppearances, addKey]
    by_cases h : known.any (·.same k) = true
    · rw [if_pos h, List.filter_cons_of_neg (by simp [h]), List.filter_filter]
      congr 1
      refine List.filter_congr fun k' _ => ?_
      by_cases hSame : k.same k' = true
      · obtain ⟨k0, hk0, hKey⟩ := List.any_eq_true.1 h
        have hKnown : known.any (·.same k') = true :=
          List.any_eq_true.2 ⟨k0, hk0, Value.same_trans hKey hSame⟩
        simp [hKnown]
      · simp [hSame]
    · rw [if_neg h, List.filter_cons_of_pos (by simp [h]), List.filter_filter,
        List.append_assoc, List.singleton_append]
      congr 2
      refine List.filter_congr fun k' _ => ?_
      simp [List.any_append]

theorem mem_foldl_addKey {known ks : List Value} {key : Value} (h : key ∈ ks.foldl addKey known) :
    key ∈ known ∨ key ∈ ks := by
  induction ks generalizing known with
  | nil => exact .inl h
  | cons k ks ih =>
    rcases ih h with h | h
    · rw [addKey] at h
      split at h
      · exact .inl h
      · simp only [List.mem_append, List.mem_singleton] at h
        rcases h with h | rfl
        · exact .inl h
        · exact .inr List.mem_cons_self
    · exact .inr (List.mem_cons_of_mem _ h)

theorem foldl_addKey_nil (ks : List Value) : ks.foldl addKey [] = firstAppearances ks := by
  rw [foldl_addKey]
  simp

end Slideshow.Yaml.Mapping
