import Slideshow.Proofs.Success
import Slideshow.Proofs.Yaml.Equality
import Slideshow.Yaml.Document

/-! Every value that a text writes is well-formed: wherever a mapping is loaded, its keys are all
different. What a fixed text writes is found from its tokens. -/

namespace Slideshow.Yaml

/-! ### Loads -/

variable {α β : Type} {P : α → Prop} {Q : β → Prop}

/-- Whatever a load gives has a property. -/
def Load.Gives (P : α → Prop) (load : Load α) : Prop :=
  ∀ before a after, load.run before = .ok (a, after) → P a

namespace Load.Gives

theorem pure {a : α} (h : P a) : Load.Gives P (Pure.pure a) := by
  intro before b after hRun
  cases hRun
  exact h

theorem throw (e : Error) : Load.Gives P (MonadExcept.throw e) := by
  intro before a after hRun
  exact nomatch hRun

theorem bind {load : Load α} {next : α → Load β} (hLoad : Load.Gives P load)
    (hNext : ∀ a, P a → Load.Gives Q (next a)) : Load.Gives Q (load >>= next) := by
  intro before b after hRun
  rw [StateT.run_bind, bind_eq_ok] at hRun
  obtain ⟨⟨a, between⟩, hFirst, hSecond⟩ := hRun
  exact hNext a (hLoad before a between hFirst) between b after hSecond

theorem trivial (load : Load α) : Load.Gives (fun _ => True) load := fun _ _ _ _ => .intro

theorem mapM {γ : Type} {load : γ → Load α} {items : List γ} (h : ∀ item, Load.Gives P (load item)) :
    Load.Gives (fun values => ∀ a ∈ values, P a) (items.mapM load) := by
  induction items with
  | nil => exact pure fun _ hMem => absurd hMem List.not_mem_nil
  | cons item items ih =>
    rw [List.mapM_cons]
    exact bind (h item) fun a ha => bind ih fun rest hRest =>
      pure (List.forall_mem_cons.2 ⟨ha, hRest⟩)

end Load.Gives

/-! ### Scalars -/

namespace Core

variable {text : String} {v : Value}

theorem demand_eq_ok {o : Option Value} : demand o = .ok v ↔ o = some v := by
  cases o <;> simp [demand]

theorem isWellFormed_ofType {type : CoreType} (h : ofType type text = .ok v) :
    v.isWellFormed = true := by
  cases type with
  | null =>
    simp only [ofType, demand_eq_ok, Option.ite_none_right_eq_some, Option.some.injEq] at h
    rw [← h.2]
    rfl
  | bool =>
    simp only [ofType, demand_eq_ok, Option.map_eq_some_iff] at h
    obtain ⟨b, -, rfl⟩ := h
    rfl
  | integer =>
    simp only [ofType, bind_eq_ok, demand_eq_ok, Option.map_eq_some_iff] at h
    obtain ⟨_, -, n, -, rfl⟩ := h
    rfl
  | real =>
    simp only [ofType, demand_eq_ok, Option.map_eq_some_iff] at h
    obtain ⟨x, -, rfl⟩ := h
    rfl

theorem isWellFormed_plain (h : plain text = .ok v) : v.isWellFormed = true := by
  rw [plain] at h
  split at h
  · cases h
    rfl
  split at h
  · cases h
    rfl
  · obtain ⟨o, -, h⟩ := bind_eq_ok.1 h
    cases o with
    | some n =>
      cases h
      rfl
    | none =>
      simp only at h
      split at h
      · cases h
        rfl
      split at h <;>
        · cases h
          rfl

theorem isWellFormed_scalar {tag : Option Tag} {isPlain : Bool}
    (h : Core.scalar tag isPlain text = .ok v) : v.isWellFormed = true := by
  have hUntyped (h : (if isPlain = true then plain text else .ok (.string text)) = .ok v) :
      v.isWellFormed = true := by
    split at h
    · exact isWellFormed_plain h
    · cases h
      rfl
  unfold scalar at h
  split at h
  · exact isWellFormed_ofType h
  · cases h
    rfl
  · exact hUntyped h
  · exact hUntyped h

end Core

namespace Node

variable {inside : Option (Node Nat → Load Value)}

theorem gives_underTag {tag : Option Tag} {content : Option Tag → Load Value}
    (h : ∀ tag, Load.Gives (·.isWellFormed = true) (content tag)) :
    Load.Gives (·.isWellFormed = true) (underTag tag content) := by
  unfold underTag
  split
  · exact (h none).bind fun v hv => .pure (Value.isWellFormed_tagged.2 hv)
  · exact h tag

/-- A key is compared with all keys in front of it. -/
theorem gives_loadEntries {load : Node Nat → Load Value}
    (hLoad : ∀ n, Load.Gives (·.isWellFormed = true) (load n)) {done : Mapping}
    (hDone : (Value.mapping done).isWellFormed = true) (es : List (Node Nat × Node Nat)) :
    Load.Gives (fun m => (Value.mapping m).isWellFormed = true) (loadEntries load done es) := by
  induction es generalizing done with
  | nil => exact .pure hDone
  | cons e es ih =>
    obtain ⟨k, v⟩ := e
    rw [loadEntries]
    refine (hLoad k).bind fun key hKey => ?_
    split
    · exact (Load.Gives.throw _).bind fun _ h => h
    · rename_i hNew
      refine (hLoad v).bind fun value hValue => ih ?_
      -- The new key is behind all others, none of which is equal to it.
      obtain ⟨hDistinct, hParts⟩ := Value.isWellFormed_mapping.1 hDone
      refine Value.isWellFormed_mapping.2 ⟨?_, ?_⟩
      · refine List.pairwise_append.2 ⟨hDistinct, List.pairwise_singleton _ _, fun e he e' he' => ?_⟩
        rw [List.mem_singleton.1 he', ← Bool.not_eq_true]
        exact fun hSame => hNew (List.any_eq_true.2 ⟨e, he, hSame⟩)
      · exact List.forall_mem_append.2 ⟨hParts, List.forall_mem_singleton.2 ⟨hKey, hValue⟩⟩

theorem gives_loadContent
    (hInside : ∀ load ∈ inside, ∀ n, Load.Gives (·.isWellFormed = true) (load n)) (n : Node Nat) :
    Load.Gives (·.isWellFormed = true) (loadContent inside n) := by
  cases n with
  | reference _ => exact .throw _
  | scalar p text plain =>
    unfold loadContent
    refine gives_underTag fun tag => ?_
    split
    · rename_i v hScalar
      exact .pure (Core.isWellFormed_scalar hScalar)
    · exact .throw _
  | list p items =>
    unfold loadContent
    refine gives_underTag fun _ => ?_
    split
    · rename_i load
      exact (Load.Gives.mapM (hInside load rfl)).bind fun vs hvs =>
        .pure (Value.isWellFormed_list.2 hvs)
    · exact .throw _
  | mapping p entries =>
    unfold loadContent
    refine gives_underTag fun _ => ?_
    split
    · rename_i load
      exact (gives_loadEntries (hInside load rfl) rfl entries).bind fun m hm => .pure hm
    · exact .throw _

theorem gives_loadWith (targets : Targets)
    (hInside : ∀ load ∈ inside, ∀ n, Load.Gives (·.isWellFormed = true) (load n)) (n : Node Nat) :
    Load.Gives (·.isWellFormed = true) (loadWith targets inside n) := by
  cases n with
  | reference number =>
    exact (Load.Gives.trivial (targets.follow number)).bind fun n _ => gives_loadContent hInside n
  | scalar p text plain => exact gives_loadContent hInside (scalar p text plain)
  | list p items => exact gives_loadContent hInside (list p items)
  | mapping p entries => exact gives_loadContent hInside (mapping p entries)

theorem gives_load (targets : Targets) (depth : Nat) (n : Node Nat) :
    Load.Gives (·.isWellFormed = true) (load targets depth n) := by
  induction depth generalizing n with
  | zero => exact gives_loadWith targets (fun _ h => absurd h (Option.not_mem_none _)) n
  | succ depth ih =>
    refine gives_loadWith targets (fun load h n => ?_) n
    cases h
    exact ih n

end Node

/-! ### Texts -/

/-- Every value that a text writes is well-formed. -/
theorem isWellFormed_of_read {text : String} {v : Value} (h : read text = .ok v) :
    v.isWellFormed = true := by
  simp only [read, bind_eq_ok] at h
  obtain ⟨tokens, -, root, -, ⟨root', _⟩, -, hValue⟩ := h
  obtain ⟨⟨v, followed⟩, hRun, rfl⟩ := map_eq_ok.1 hValue
  exact Node.gives_load _ _ _ 0 v followed hRun

/-- What a text writes is what its tokens write. Unlike values, tokens can be decided to be equal. -/
theorem read_of_scan {text : String} {tokens : List Token} {v : Value}
    (hTokens : (Token.scan text).toOption = some tokens)
    (hValue : (do
      let root ← Grammar.document tokens
      let (root, _) ← root.numbered []
      root.toValue) = .ok v) : read text = .ok v := by
  rw [read, toOption_eq_some.1 hTokens]
  exact hValue

/-- A lone exclamation mark is a tag as well. -/
example : read "! 1" = .ok (.tagged "!" (.number (.integer 1))) := by
  have hTokens : (Token.scan "! 1").toOption =
      some [.tag ⟨[], octets ['!']⟩, .scalar "1" true] := by decide +kernel
  exact read_of_scan hTokens rfl

/-- The tokens of a list in brackets that a mapping has under its only key. -/
def listUnder (key : String) (items : List Token) : List Token :=
  [.blockMappingStart, .key, .scalar key true, .value, .flowListStart] ++ items ++
    [.flowListEnd, .blockEnd]

end Slideshow.Yaml
