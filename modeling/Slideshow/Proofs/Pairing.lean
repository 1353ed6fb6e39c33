import Mathlib.Data.List.Forall2

/-! Lists paired off: element by element, or by a partner for every element. -/

namespace Slideshow

variable {α β : Type} {R : α → β → Prop} {as : List α} {bs : List β}

/-- Every element on the right has one on the left that it is paired with. -/
theorem exists_of_mem_right (h : List.Forall₂ R as bs) {b : β} (hb : b ∈ bs) :
    ∃ a ∈ as, R a b := by
  induction h with
  | nil => exact absurd hb List.not_mem_nil
  | cons hab _ ih =>
    rcases List.mem_cons.1 hb with rfl | hb
    · exact ⟨_, List.mem_cons_self, hab⟩
    · obtain ⟨a, ha, hab⟩ := ih hb
      exact ⟨a, List.mem_cons_of_mem _ ha, hab⟩

/-- Every element on the left has one on the right that it is paired with. -/
theorem exists_of_mem_left (h : List.Forall₂ R as bs) {a : α} (ha : a ∈ as) :
    ∃ b ∈ bs, R a b :=
  exists_of_mem_right h.flip ha

theorem exists_getElem?_right (h : List.Forall₂ R as bs) {i : Nat} {a : α} (ha : as[i]? = some a) :
    ∃ b, bs[i]? = some b ∧ R a b := by
  induction h generalizing i with
  | nil => exact nomatch ha
  | cons hab _ ih =>
    cases i with
    | zero =>
      cases ha
      exact ⟨_, rfl, hab⟩
    | succ i => exact ih ha

/-- To pair two lists in another way, it is enough to do so for the elements of the first. -/
theorem forall₂_imp_of_mem {S : α → β → Prop} (h : List.Forall₂ R as bs)
    (hImp : ∀ a ∈ as, ∀ b, R a b → S a b) : List.Forall₂ S as bs :=
  ((List.forall₂_and_left _ _).2 ⟨hImp, h⟩).imp fun _ b h => h.1 b h.2

theorem forall₂_trans {R : α → α → Prop} {as bs cs : List α}
    (h : ∀ a ∈ as, ∀ b c, R a b → R b c → R a c) (h1 : List.Forall₂ R as bs)
    (h2 : List.Forall₂ R bs cs) : List.Forall₂ R as cs := by
  induction h1 generalizing cs with
  | nil => exact h2
  | cons hab _ ih =>
    cases h2 with
    | cons hbc h2 =>
      have ⟨hHead, hTail⟩ := List.forall_mem_cons.1 h
      exact .cons (hHead _ _ hab hbc) (ih hTail h2)

/-- Where what goes with an element also has its like with the element paired with it, a list that
goes with the one on the left has its like with the one on the right. -/
theorem exists_forall₂_map_eq {γ δ : Type} {G : α → γ → Prop} {G' : β → γ → Prop} {f : γ → δ}
    {cs : List γ} (h : List.Forall₂ R as bs) (hG : List.Forall₂ G as cs)
    (hStep : ∀ a b c, R a b → G a c → ∃ c', G' b c' ∧ f c' = f c) :
    ∃ cs', List.Forall₂ G' bs cs' ∧ cs'.map f = cs.map f := by
  induction h generalizing cs with
  | nil =>
    cases hG
    exact ⟨[], .nil, rfl⟩
  | cons hab _ ih =>
    cases hG with
    | cons hac hG =>
      obtain ⟨c', hc', hEq⟩ := hStep _ _ _ hab hac
      obtain ⟨cs', hcs', hMap⟩ := ih hG
      exact ⟨c' :: cs', .cons hc' hcs', by rw [List.map_cons, List.map_cons, hEq, hMap]⟩

/-- Where every element of a list has a partner in a list of the same length, and no two share
one, nothing in that list is left over. -/
theorem exists_partner {as : List α} {bs : List β}
    (hLength : as.length = bs.length) (hPartner : ∀ a ∈ as, ∃ b ∈ bs, R a b)
    (hDistinct : as.Pairwise fun a a' => ∀ b, R a b → ¬ R a' b) : ∀ b ∈ bs, ∃ a ∈ as, R a b := by
  induction as generalizing bs with
  | nil => simp [List.length_eq_zero_iff.1 hLength.symm]
  | cons a as ih =>
    have ⟨hHead, hTail⟩ := List.pairwise_cons.1 hDistinct
    obtain ⟨b, hb, hab⟩ := hPartner a List.mem_cons_self
    obtain ⟨before, after, rfl⟩ := List.append_of_mem hb
    have hRest : ∀ b' ∈ before ++ after, ∃ a' ∈ as, R a' b' := by
      refine ih (by simp at hLength ⊢; omega) (fun a' ha' => ?_) hTail
      obtain ⟨b', hb', hab'⟩ := hPartner a' (List.mem_cons_of_mem _ ha')
      refine ⟨b', ?_, hab'⟩
      have hne : b' ≠ b := fun h => hHead a' ha' b hab (h ▸ hab')
      simpa [hne] using hb'
    intro b' hb'
    by_cases hEq : b' = b
    · exact ⟨a, List.mem_cons_self, hEq ▸ hab⟩
    · obtain ⟨a', ha', hab'⟩ := hRest b' (by simpa [hEq] using hb')
      exact ⟨a', List.mem_cons_of_mem _ ha', hab'⟩

end Slideshow
