import Slideshow.Proofs.Pairing
import Slideshow.Yaml.Value

/-! Equality of values as keys. It is reflexive and transitive on all values, and symmetric as soon
as the value on the left is well-formed: no mapping in it has two entries under one key, as is the
case in every document. -/

namespace Slideshow

namespace Binary64

theorem isNaN_of_isZero {x : Binary64} (h : x.isZero = true) : x.isNaN = false := by
  simp only [isZero, beq_iff_eq] at h
  simp [isNaN, h]

theorem same_refl (x : Binary64) : x.same x = true := by simp [same]

theorem same_symm {x y : Binary64} (h : x.same y = true) : y.same x = true := by
  simp only [same, Bool.or_eq_true, Bool.and_eq_true, beq_iff_eq] at h ⊢
  rcases h with (h | h) | rfl
  · exact .inl (.inl h.symm)
  · exact .inl (.inr h.symm)
  · exact .inr rfl

theorem same_trans {x y z : Binary64} (h1 : x.same y = true) (h2 : y.same z = true) :
    x.same z = true := by
  simp only [same, Bool.or_eq_true, Bool.and_eq_true, beq_iff_eq] at h1 h2 ⊢
  rcases h1 with (h1 | h1) | rfl
  · rcases h2 with (h2 | h2) | rfl
    · exact .inl (.inl ⟨h1.1, h2.2⟩)
    · rw [isNaN_of_isZero h2.1] at h1
      exact absurd h1.2 Bool.false_ne_true
    · exact .inl (.inl h1)
  · rcases h2 with (h2 | h2) | rfl
    · rw [isNaN_of_isZero h1.2] at h2
      exact absurd h2.1 Bool.false_ne_true
    · exact .inl (.inr ⟨h1.1, h2.2⟩)
    · exact .inl (.inr h1)
  · exact h2

end Binary64

namespace Yaml

namespace Number

theorem same_refl (n : Number) : n.same n = true := by
  cases n with
  | integer n => simp [same]
  | real x => exact Binary64.same_refl x

theorem same_symm {m n : Number} (h : m.same n = true) : n.same m = true := by
  cases m <;> cases n <;> simp only [same, Bool.false_eq_true, beq_iff_eq] at h ⊢
  · exact h.symm
  · exact Binary64.same_symm h

theorem same_trans {l m n : Number} (h1 : l.same m = true) (h2 : m.same n = true) :
    l.same n = true := by
  cases l <;> cases m <;> cases n <;>
    simp only [same, Bool.false_eq_true, beq_iff_eq] at h1 h2 ⊢
  · exact h1.trans h2
  · exact Binary64.same_trans h1 h2

end Number

namespace Value

/-- Induction on a value: what holds of the items of a list, of the keys and values of a mapping and
of what a tag stands on holds of them. -/
@[elab_as_elim, induction_eliminator]
theorem inductOnParts {motive : Value → Prop} (null : motive null) (bool : ∀ b, motive (bool b))
    (number : ∀ n, motive (number n)) (string : ∀ s, motive (string s))
    (list : ∀ vs, (∀ v ∈ vs, motive v) → motive (list vs))
    (mapping : ∀ es, (∀ e ∈ es, motive e.1 ∧ motive e.2) → motive (mapping es))
    (tagged : ∀ t v, motive v → motive (tagged t v)) (v : Value) : motive v :=
  Value.rec (motive_1 := motive) (motive_2 := fun vs => ∀ v ∈ vs, motive v)
    (motive_3 := fun es => ∀ e ∈ es, motive e.1 ∧ motive e.2)
    (motive_4 := fun e => motive e.1 ∧ motive e.2)
    null bool number string list mapping tagged
    (fun _ h => absurd h List.not_mem_nil)
    (fun _ _ hHead hTail => List.forall_mem_cons.2 ⟨hHead, hTail⟩)
    (fun _ h => absurd h List.not_mem_nil)
    (fun _ _ hHead hTail => List.forall_mem_cons.2 ⟨hHead, hTail⟩)
    (fun _ _ hKey hValue => ⟨hKey, hValue⟩) v

theorem sameItems_iff {as bs : List Value} :
    sameItems as bs = true ↔ List.Forall₂ (fun a b => a.same b = true) as bs := by
  induction as generalizing bs with
  | nil => cases bs <;> simp [sameItems]
  | cons a as ih => cases bs <;> simp [sameItems, ih]

theorem sameEntries_iff {as bs : List (Value × Value)} :
    sameEntries as bs = true ↔
      ∀ a ∈ as, ∃ b ∈ bs, a.1.same b.1 = true ∧ a.2.same b.2 = true := by
  induction as with
  | nil => simp [sameEntries]
  | cons a as ih => simp [sameEntries, ih]

theorem number_same {m : Number} {b : Value} :
    (number m).same b = true ↔ ∃ n, b = number n ∧ m.same n = true := by
  cases b <;> simp [same]

theorem list_same {as : List Value} {b : Value} :
    (list as).same b = true ↔
      ∃ bs, b = list bs ∧ List.Forall₂ (fun a b => a.same b = true) as bs := by
  cases b <;> simp [same, sameItems_iff]

theorem mapping_same {as : List (Value × Value)} {b : Value} :
    (mapping as).same b = true ↔ ∃ bs, b = mapping bs ∧ as.length = bs.length ∧
      ∀ a ∈ as, ∃ b ∈ bs, a.1.same b.1 = true ∧ a.2.same b.2 = true := by
  cases b <;> simp [same, sameEntries_iff]

theorem tagged_same {t : String} {a b : Value} :
    (tagged t a).same b = true ↔ ∃ b', b = tagged t b' ∧ a.same b' = true := by
  cases b <;> simp only [same, Bool.false_eq_true, reduceCtorEq, false_and, exists_false]
  rename_i t' b
  simp only [Bool.and_eq_true, beq_iff_eq, tagged.injEq]
  constructor
  · rintro ⟨rfl, h⟩
    exact ⟨b, ⟨rfl, rfl⟩, h⟩
  · rintro ⟨_, ⟨rfl, rfl⟩, h⟩
    exact ⟨rfl, h⟩

theorem same_refl (v : Value) : v.same v = true := by
  induction v with
  | null => rfl
  | bool b => simp [same]
  | number n => exact n.same_refl
  | string s => simp [same]
  | list vs ih => exact list_same.2 ⟨vs, rfl, List.forall₂_same.2 ih⟩
  | mapping es ih => exact mapping_same.2 ⟨es, rfl, rfl, fun e he => ⟨e, he, ih e he⟩⟩
  | tagged t v ih => simp [same, ih]

theorem same_trans {a b c : Value} (h1 : a.same b = true) (h2 : b.same c = true) :
    a.same c = true := by
  induction a generalizing b c with
  | null => cases b <;> simp_all [same]
  | bool x => cases b <;> simp_all [same]
  | number l =>
    obtain ⟨m, rfl, hNumber1⟩ := number_same.1 h1
    obtain ⟨n, rfl, hNumber2⟩ := number_same.1 h2
    exact number_same.2 ⟨n, rfl, Number.same_trans hNumber1 hNumber2⟩
  | string s => cases b <;> simp_all [same]
  | list as ih =>
    obtain ⟨bs, rfl, hItems1⟩ := list_same.1 h1
    obtain ⟨cs, rfl, hItems2⟩ := list_same.1 h2
    exact list_same.2 ⟨cs, rfl, forall₂_trans (fun a ha _ _ => ih a ha) hItems1 hItems2⟩
  | mapping as ih =>
    obtain ⟨bs, rfl, hLength1, hEntries1⟩ := mapping_same.1 h1
    obtain ⟨cs, rfl, hLength2, hEntries2⟩ := mapping_same.1 h2
    refine mapping_same.2 ⟨cs, rfl, hLength1.trans hLength2, fun a ha => ?_⟩
    obtain ⟨b, hb, hKey1, hValue1⟩ := hEntries1 a ha
    obtain ⟨c, hc, hKey2, hValue2⟩ := hEntries2 b hb
    exact ⟨c, hc, (ih a ha).1 hKey1 hKey2, (ih a ha).2 hValue1 hValue2⟩
  | tagged t a ih =>
    obtain ⟨b, rfl, hBelow1⟩ := tagged_same.1 h1
    obtain ⟨c, rfl, hBelow2⟩ := tagged_same.1 h2
    exact tagged_same.2 ⟨c, rfl, ih hBelow1 hBelow2⟩

/-! ### Well-formed values -/

mutual

/-- Whether no mapping in a value, its keys included, has two entries under one key. -/
def isWellFormed : Value → Bool
  | list vs => areWellFormed vs
  | mapping es => decide (es.Pairwise fun a b => a.1.same b.1 = false) && entriesWellFormed es
  | tagged _ v => v.isWellFormed
  | null | bool _ | number _ | string _ => true

def areWellFormed : List Value → Bool
  | [] => true
  | v :: vs => v.isWellFormed && areWellFormed vs

def entriesWellFormed : List (Value × Value) → Bool
  | [] => true
  | (key, v) :: es => key.isWellFormed && v.isWellFormed && entriesWellFormed es

end

@[simp] theorem isWellFormed_list {vs : List Value} :
    (list vs).isWellFormed = true ↔ ∀ v ∈ vs, v.isWellFormed = true := by
  rw [isWellFormed]
  induction vs with
  | nil => simp [areWellFormed]
  | cons v vs ih => simp [areWellFormed, ih]

@[simp] theorem isWellFormed_mapping {es : List (Value × Value)} :
    (mapping es).isWellFormed = true ↔ es.Pairwise (fun a b => a.1.same b.1 = false) ∧
      ∀ e ∈ es, e.1.isWellFormed = true ∧ e.2.isWellFormed = true := by
  have hEntries : entriesWellFormed es = true ↔
      ∀ e ∈ es, e.1.isWellFormed = true ∧ e.2.isWellFormed = true := by
    induction es with
    | nil => simp [entriesWellFormed]
    | cons e es ih => simp [entriesWellFormed, ih, and_assoc]
  rw [isWellFormed, Bool.and_eq_true, decide_eq_true_iff, hEntries]

@[simp] theorem isWellFormed_tagged {t : String} {v : Value} :
    (tagged t v).isWellFormed = true ↔ v.isWellFormed = true := by
  rw [isWellFormed]

theorem same_symm {a b : Value} (ha : a.isWellFormed = true) (h : a.same b = true) :
    b.same a = true := by
  induction a generalizing b with
  | null => cases b <;> simp_all [same]
  | bool x => cases b <;> simp_all [same]
  | number m =>
    obtain ⟨n, rfl, hNumber⟩ := number_same.1 h
    exact number_same.2 ⟨m, rfl, Number.same_symm hNumber⟩
  | string s => cases b <;> simp_all [same]
  | list as ih =>
    obtain ⟨bs, rfl, hItems⟩ := list_same.1 h
    have ⟨hLength, hZip⟩ := List.forall₂_iff_zip.1 hItems
    refine list_same.2 ⟨as, rfl, List.Forall₂.flip (List.forall₂_iff_zip.2 ⟨hLength, ?_⟩)⟩
    intro a b hab
    have hMem := (List.of_mem_zip hab).1
    exact ih a hMem (isWellFormed_list.1 ha a hMem) (hZip hab)
  | mapping as ih =>
    obtain ⟨bs, rfl, hLength, hEntries⟩ := mapping_same.1 h
    obtain ⟨hDistinct, hParts⟩ := isWellFormed_mapping.1 ha
    refine mapping_same.2 ⟨as, rfl, hLength.symm, fun b hb => ?_⟩
    -- Two entries on the left with a common partner would have the same key.
    have hPartner := exists_partner hLength hEntries <| hDistinct.imp_of_mem
      fun {a a'} _ ha' hne b hab hab' => by
        rw [same_trans hab.1 ((ih a' ha').1 (hParts a' ha').1 hab'.1)] at hne
        exact Bool.noConfusion hne
    obtain ⟨a, ha, hKey, hValue⟩ := hPartner b hb
    exact ⟨a, ha, (ih a ha).1 (hParts a ha).1 hKey, (ih a ha).2 (hParts a ha).2 hValue⟩
  | tagged t a ih =>
    obtain ⟨b, rfl, hBelow⟩ := tagged_same.1 h
    exact tagged_same.2 ⟨a, rfl, ih (isWellFormed_tagged.1 ha) hBelow⟩

end Value

end Yaml

end Slideshow
