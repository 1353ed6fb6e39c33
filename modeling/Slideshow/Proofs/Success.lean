/-! Computations that may fail: what the success or the error of a composed one says of its parts. -/

namespace Slideshow

variable {ε α β : Type}

theorem bind_eq_ok {x : Except ε α} {f : α → Except ε β} {b : β} :
    x >>= f = .ok b ↔ ∃ a, x = .ok a ∧ f a = .ok b := by
  rcases x with e | a <;> simp [bind, Except.bind]

theorem map_eq_ok {x : Except ε α} {f : α → β} {b : β} :
    x.map f = .ok b ↔ ∃ a, x = .ok a ∧ f a = b := by
  rcases x with e | a <;> simp [Except.map]

theorem toOption_eq_some {x : Except ε α} {a : α} : x.toOption = some a ↔ x = .ok a := by
  rcases x with e | b <;> simp [Except.toOption]

theorem bind_eq_error {x : Except ε α} {f : α → Except ε β} {e : ε} :
    x >>= f = .error e ↔ x = .error e ∨ ∃ a, x = .ok a ∧ f a = .error e := by
  rcases x with e' | a <;> simp [bind, Except.bind]

theorem map_eq_error {x : Except ε α} {f : α → β} {e : ε} :
    x.map f = .error e ↔ x = .error e := by
  rcases x with e' | a <;> simp [Except.map]

/-- What a computation fails with. -/
def failure? : Except ε α → Option ε
  | .ok _ => none
  | .error e => some e

theorem failure?_eq_some {x : Except ε α} {e : ε} : failure? x = some e ↔ x = .error e := by
  rcases x with e' | a <;> simp [failure?]

theorem failure?_eq_none {x : Except ε α} : failure? x = none ↔ ∃ a, x = .ok a := by
  rcases x with e | a <;> simp [failure?]

theorem exists_error_iff {x : Except ε α} : (∃ e, x = .error e) ↔ ¬ ∃ a, x = .ok a := by
  rcases x with e | a <;> simp

theorem failure?_map {x : Except ε α} {f : α → β} : failure? (x.map f) = failure? x := by
  rcases x with e | a <;> rfl

/-- A composed computation fails as its first part does; if that succeeds, as the second one. -/
theorem failure?_bind {x : Except ε α} {f : α → Except ε β} {o : Option ε}
    (h : ∀ a, x = .ok a → failure? (f a) = o) : failure? (x >>= f) = (failure? x).or o := by
  rcases x with e | a
  · rfl
  · exact (h a rfl).trans (Option.none_or ..).symm

theorem failure?_bind_pure {x : Except ε α} {f : α → β} :
    failure? (x >>= fun a => pure (f a)) = failure? x := by
  rcases x with e | a <;> rfl

/-- Making many things fails at the first of them that cannot be made. -/
theorem failure?_mapM (make : α → Except ε β) (as : List α) :
    failure? (as.mapM make) = as.findSome? fun a => failure? (make a) := by
  induction as with
  | nil => rfl
  | cons a as ih =>
    rw [List.mapM_cons, ← List.singleton_append, List.findSome?_append, List.findSome?_singleton]
    refine failure?_bind fun b _ => ?_
    rw [← ih]
    exact failure?_bind_pure

/-- A function that cannot tell what is made from an item from the item itself cannot tell the
lists. -/
theorem map_eq_of_mapM {γ : Type} {make : α → Except ε β} {f : β → γ} {g : α → γ}
    (hMake : ∀ a b, make a = .ok b → f b = g a) {as : List α} {bs : List β}
    (h : as.mapM make = .ok bs) : bs.map f = as.map g := by
  induction as generalizing bs with
  | nil =>
    cases h
    rfl
  | cons a as ih =>
    rw [List.mapM_cons] at h
    obtain ⟨b, hb, h⟩ := bind_eq_ok.1 h
    obtain ⟨bs, hbs, h⟩ := bind_eq_ok.1 h
    cases h
    rw [List.map_cons, List.map_cons, hMake a b hb, ih hbs]

end Slideshow
