import Slideshow.Proofs.Deck.Element
import Slideshow.Proofs.Deck.Model
import Slideshow.Proofs.Yaml.Equality

/-! Decks that have no model in JSON. The keys of the mappings in a value stand in the order in which they
are written. The first key of the carried values that cannot name a field is what making the model fails
at, and nothing else in a deck is one. -/

namespace Slideshow

open Yaml (Value Mapping)

variable {key v : Value} {vs : List Value} {es : Mapping} {fault : KeyError}

/-! ### Keys -/

mutual

/-- The keys of the mappings in a value, through items of lists, values of mappings and tags, in the order
of writing: a key in front of those in its value. -/
def writtenKeys : Value → List Value
  | .list vs => itemKeys vs
  | .mapping es => entryKeys es
  | .tagged _ v => writtenKeys v
  | _ => []

def itemKeys : List Value → List Value
  | [] => []
  | v :: vs => writtenKeys v ++ itemKeys vs

def entryKeys : List (Value × Value) → List Value
  | [] => []
  | (key, v) :: es => key :: (writtenKeys v ++ entryKeys es)

end

/-- A mapping at some depth of a value has a key. -/
inductive KeyIn (key : Value) : Value → Prop
  | here {es : Mapping} {v : Value} : (key, v) ∈ es → KeyIn key (.mapping es)
  | value {es : Mapping} {e : Value × Value} : e ∈ es → KeyIn key e.2 → KeyIn key (.mapping es)
  | item {vs : List Value} {v : Value} : v ∈ vs → KeyIn key v → KeyIn key (.list vs)
  | tagged {tag : String} {v : Value} : KeyIn key v → KeyIn key (.tagged tag v)

/-- Why a key cannot name a field. -/
inductive Unnameable : Value → KeyError → Prop
  | null : Unnameable .null .notScalar
  | list (vs : List Value) : Unnameable (.list vs) .notScalar
  | mapping (es : Mapping) : Unnameable (.mapping es) .notScalar
  | tagged (tag : String) (v : Value) : Unnameable (.tagged tag v) .notScalar
  | number {x : Binary64} : x.isFinite = false → Unnameable (.number (.real x)) .notFinite

theorem writtenKeys_list : writtenKeys (.list vs) = vs.flatMap writtenKeys := by
  rw [writtenKeys]
  induction vs with
  | nil => rfl
  | cons v vs ih => rw [itemKeys, ih, List.flatMap_cons]

theorem writtenKeys_mapping :
    writtenKeys (.mapping es) = es.flatMap fun e => e.1 :: writtenKeys e.2 := by
  rw [writtenKeys]
  induction es with
  | nil => rfl
  | cons e es ih => rw [entryKeys, ih, List.flatMap_cons, List.cons_append]

theorem mem_writtenKeys : key ∈ writtenKeys v ↔ KeyIn key v := by
  induction v with
  | list vs ih =>
    rw [writtenKeys_list, List.mem_flatMap]
    constructor
    · rintro ⟨v, hv, hKey⟩
      exact .item hv ((ih v hv).1 hKey)
    · rintro (_ | _ | ⟨hv, hKey⟩)
      exact ⟨_, hv, (ih _ hv).2 hKey⟩
  | mapping es ih =>
    rw [writtenKeys_mapping, List.mem_flatMap]
    constructor
    · rintro ⟨e, he, hKey⟩
      obtain rfl | hKey := List.mem_cons.1 hKey
      · exact .here he
      · exact .value he ((ih e he).2.1 hKey)
    · rintro (he | ⟨he, hKey⟩)
      · exact ⟨_, he, List.mem_cons_self⟩
      · exact ⟨_, he, List.mem_cons_of_mem _ ((ih _ he).2.2 hKey)⟩
  | tagged tag v ih =>
    rw [writtenKeys, ih]
    exact ⟨.tagged, fun | .tagged hKey => hKey⟩
  | _ => exact iff_of_false List.not_mem_nil nofun

theorem fieldName_eq_error : fieldName key = .error fault ↔ Unnameable key fault := by
  constructor
  · intro h
    cases key with
    | null => cases h; exact .null
    | list vs => cases h; exact .list vs
    | mapping es => cases h; exact .mapping es
    | tagged tag v => cases h; exact .tagged tag v
    | string s => exact nomatch h
    | bool b => exact nomatch h
    | number n =>
      cases n with
      | integer n => exact nomatch h
      | real x =>
        rw [fieldName] at h
        split at h
        · exact nomatch h
        · cases h
          exact .number (Bool.eq_false_iff.2 ‹_›)
  · rintro (_ | _ | _ | _ | hFinite)
    · rfl
    · rfl
    · rfl
    · rfl
    · rw [fieldName, if_neg (Bool.eq_false_iff.1 hFinite)]

/-- What a key fails with as the name of a field. -/
def keyFault? (key : Value) : Option KeyError := failure? (fieldName key)

theorem keyFault?_eq_some : keyFault? key = some fault ↔ Unnameable key fault := by
  rw [keyFault?, failure?_eq_some, fieldName_eq_error]

theorem keyFault?_eq_none : keyFault? key = none ↔ ∀ fault, ¬ Unnameable key fault := by
  simp only [Option.eq_none_iff_forall_ne_some, ne_eq, keyFault?_eq_some]

/-! ### The first fault -/

theorem failure?_itemsToJson
    (h : ∀ v ∈ vs, failure? v.toJson = (writtenKeys v).findSome? keyFault?) :
    failure? (itemsToJson vs) = (itemKeys vs).findSome? keyFault? := by
  induction vs with
  | nil => rfl
  | cons v vs ih =>
    have ⟨hHead, hTail⟩ := List.forall_mem_cons.1 h
    rw [itemsToJson, itemKeys, List.findSome?_append, ← hHead, ← ih hTail]
    exact failure?_bind fun _ _ => failure?_bind_pure

theorem failure?_entriesToJson
    (h : ∀ e ∈ es, failure? e.2.toJson = (writtenKeys e.2).findSome? keyFault?) :
    failure? (entriesToJson es) = (entryKeys es).findSome? keyFault? := by
  induction es with
  | nil => rfl
  | cons e es ih =>
    have ⟨hHead, hTail⟩ := List.forall_mem_cons.1 h
    rw [entriesToJson, entryKeys, ← List.singleton_append, List.findSome?_append,
      List.findSome?_singleton, List.findSome?_append, ← hHead, ← ih hTail]
    refine failure?_bind fun _ _ => ?_
    exact failure?_bind fun _ _ => failure?_bind_pure

theorem failure?_toJson (v : Value) : failure? v.toJson = (writtenKeys v).findSome? keyFault? := by
  induction v with
  | list vs ih =>
    rw [Yaml.Value.toJson, writtenKeys, ← failure?_itemsToJson ih]
    exact failure?_bind_pure
  | mapping es ih =>
    rw [Yaml.Value.toJson, writtenKeys, ← failure?_entriesToJson fun e he => (ih e he).2]
    exact failure?_bind_pure
  | tagged tag v ih =>
    rw [Yaml.Value.toJson, writtenKeys, ← ih]
    exact failure?_bind_pure
  | _ => rfl

/-! ### Decks -/

/-- The values that the elements of a deck carry as they were written. -/
def Deck.carried (d : Deck) : List Value := d.elements.filterMap Element.carried?

/-- The items of a document that are carried by their elements. -/
def carriedItems (document : Value) : List Value :=
  (elementItems document).filter fun v => (Element.ofValue v).carried?.isSome

/-- Of some keys, the first that cannot name a field. -/
def FirstUnnameable (keys : List Value) (fault : KeyError) : Prop :=
  ∃ before key after, keys = before ++ key :: after ∧
    (∀ other ∈ before, ∀ fault, ¬ Unnameable other fault) ∧ Unnameable key fault

theorem firstUnnameable_iff {keys : List Value} :
    FirstUnnameable keys fault ↔ keys.findSome? keyFault? = some fault := by
  rw [List.findSome?_eq_some_iff, FirstUnnameable]
  simp only [keyFault?_eq_some, keyFault?_eq_none, and_comm]

/-- The keys in the value that an element carries. -/
def Element.keys (e : Element) : List Value := e.carried?.toList.flatMap writtenKeys

theorem Element.failure?_toJson (e : Element) : failure? e.toJson = e.keys.findSome? keyFault? := by
  have hCarried (v : Value) : (some v).toList.flatMap writtenKeys = writtenKeys v := by simp
  cases e with
  | custom tag v =>
    rw [keys, carried?, hCarried, ← Slideshow.failure?_toJson]
    exact failure?_bind_pure
  | unrecognized v =>
    rw [keys, carried?, hCarried, ← Slideshow.failure?_toJson]
    exact failure?_bind_pure
  | _ => rfl

theorem findSome?_flatMap {α β γ : Type} (f : α → List β) (g : β → Option γ) (as : List α) :
    (as.flatMap f).findSome? g = as.findSome? fun a => (f a).findSome? g := by
  induction as with
  | nil => rfl
  | cons a as ih =>
    rw [List.flatMap_cons, List.findSome?_append, ih, ← List.singleton_append,
      List.findSome?_append, List.findSome?_singleton]

/-- Where each part fails at the first key in it that cannot name a field, all together do. -/
theorem failure?_mapM_keys {α β : Type} {make : α → Except KeyError β} {keys : α → List Value}
    (h : ∀ a, failure? (make a) = (keys a).findSome? keyFault?) (as : List α) :
    failure? (as.mapM make) = (as.flatMap keys).findSome? keyFault? := by
  rw [failure?_mapM, findSome?_flatMap]
  simp only [h]

theorem Subsection.failure?_jsonField (s : Subsection) :
    failure? s.jsonField = (s.elements.flatMap Element.keys).findSome? keyFault? := by
  rw [← failure?_mapM_keys Element.failure?_toJson]
  exact failure?_bind_pure

theorem Section.failure?_toJson (s : Section) :
    failure? s.toJson = (s.elements.flatMap Element.keys).findSome? keyFault? := by
  cases s with
  | flat content =>
    rw [elements, ← content.failure?_jsonField]
    exact failure?_bind_pure
  | divided decoration parts =>
    rw [elements, List.flatMap_assoc]
    refine .trans failure?_bind_pure (failure?_mapM_keys (fun part => ?_) parts)
    rw [← part.2.failure?_jsonField]
    exact failure?_bind_pure

/-- The model of a deck fails at the first key in its carried values that cannot name a field. -/
theorem Deck.failure?_toJson (d : Deck) :
    failure? d.toJson = (d.carried.flatMap writtenKeys).findSome? keyFault? := by
  rw [carried, List.filterMap_eq_flatMap_toList, List.flatMap_assoc]
  show _ = (d.elements.flatMap Element.keys).findSome? keyFault?
  rw [elements, List.flatMap_assoc]
  refine .trans failure?_bind_pure (failure?_mapM_keys (fun part => ?_) d.sections)
  rw [← part.2.failure?_toJson]
  exact failure?_bind_pure

theorem Deck.toJson_eq_error {d : Deck} :
    d.toJson = .error fault ↔ FirstUnnameable (d.carried.flatMap writtenKeys) fault := by
  rw [firstUnnameable_iff, ← d.failure?_toJson, failure?_eq_some]

theorem Deck.exists_toJson_eq_error (d : Deck) :
    (∃ fault, d.toJson = .error fault) ↔
      ∃ v ∈ d.carried, ∃ key fault, KeyIn key v ∧ Unnameable key fault := by
  have hFine : (∃ json, d.toJson = .ok json) ↔
      ∀ key ∈ d.carried.flatMap writtenKeys, ∀ fault, ¬ Unnameable key fault := by
    rw [← failure?_eq_none, d.failure?_toJson, List.findSome?_eq_none_iff]
    simp only [keyFault?_eq_none]
  rw [exists_error_iff, hFine]
  simp only [List.mem_flatMap, mem_writtenKeys, not_forall, not_not]
  constructor
  · rintro ⟨key, ⟨v, hv, hKey⟩, fault, hFault⟩
    exact ⟨v, hv, key, fault, hKey, hFault⟩
  · rintro ⟨v, hv, key, fault, hKey, hFault⟩
    exact ⟨key, ⟨v, hv, hKey⟩, fault, hFault⟩

/-- The carried values are items of the document, in their order. -/
theorem GivesDeck.carried {document : Value} {d : Deck} (h : GivesDeck document d) :
    d.carried = carriedItems document := by
  have hItem (v : Value) : (Element.ofValue v).carried? =
      Option.guard (fun v => (Element.ofValue v).carried?.isSome) v := by
    cases hCarried : (Element.ofValue v).carried? with
    | none => simp [Option.guard, hCarried]
    | some w =>
      obtain rfl := Element.eq_of_carried? hCarried
      simp [Option.guard, hCarried]
  rw [Deck.carried, h.elements, List.filterMap_map, carriedItems, ← List.filterMap_eq_filter]
  exact List.filterMap_congr fun v _ => hItem v

/-! ### Texts -/

namespace Browser

variable {text : String} {d : Deck}

/-- A text gives a document, its merge keys expanded, and a deck. -/
structure Loads (text : String) (document : Value) (d : Deck) : Prop where
  expanded : ∃ written, Yaml.read text = .ok written ∧ expandMerges rootName written = .ok document
  deck : Deck.ofValue document = .ok d

theorem exists_loads_iff : (∃ document, Loads text document d) ↔ Deck.read text = .ok d := by
  constructor
  · rintro ⟨document, ⟨written, hRead, hExpand⟩, hDeck⟩
    rw [Deck.read, hRead]
    exact bind_eq_ok.2 ⟨document, hExpand, hDeck⟩
  · intro h
    obtain ⟨written, document, hRead, hExpand, hDeck⟩ := Deck.read_eq_ok h
    exact ⟨document, ⟨written, hRead, hExpand⟩, hDeck⟩

theorem compile_eq_error {e : LoadError} : compile text = .error e ↔ Deck.read text = .error e := by
  rw [compile]
  refine bind_eq_error.trans (or_iff_left ?_)
  rintro ⟨d, -, h⟩
  cases h

theorem model_eq_error {e : ModelError} :
    model text = .error e ↔
      (∃ cause, Deck.read text = .error cause ∧ e = .load cause) ∨
      ∃ d fault, Deck.read text = .ok d ∧ d.toJson = .error fault ∧ e = .key fault := by
  rw [model]
  cases hRead : Deck.read text with
  | error cause => simp [eq_comm]
  | ok d =>
    cases hJson : d.toJson with
    | error fault => simp [hJson, eq_comm]
    | ok json => simp [hJson]

/-- A text has no model exactly when it does not load as a deck, where compiling fails alike, or when a
carried value has a key, at any depth, that cannot name a field. The message is that of the loading, or
of the first such key of the document with its merge keys expanded. Nothing else in a deck, its names
and its style among it, stops the model. -/
theorem model_fails_iff (text : String) :
    (∀ e, compile text = .error e ↔ Deck.read text = .error e) ∧
    ((∃ e, model text = .error e) ↔ (∃ e, compile text = .error e) ∨
      ∃ d, Deck.read text = .ok d ∧
        ∃ v ∈ d.carried, ∃ key fault, KeyIn key v ∧ Unnameable key fault) ∧
    (∀ message, (∃ e, model text = .error e ∧ e.message = message) ↔
      (∃ e, compile text = .error e ∧ e.message = message) ∨
      ∃ document d fault, Loads text document d ∧
        FirstUnnameable ((carriedItems document).flatMap writtenKeys) fault ∧
        fault.message = message) ∧
    ∀ d : Deck, (∃ fault, d.toJson = .error fault) ↔
      ∃ v ∈ d.carried, ∃ key fault, KeyIn key v ∧ Unnameable key fault := by
  refine ⟨fun e => compile_eq_error, ?_, fun message => ?_, Deck.exists_toJson_eq_error⟩
  · simp only [model_eq_error, compile_eq_error, ← Deck.exists_toJson_eq_error]
    constructor
    · rintro ⟨_, ⟨cause, hRead, rfl⟩ | ⟨d, fault, hRead, hJson, rfl⟩⟩
      · exact .inl ⟨cause, hRead⟩
      · exact .inr ⟨d, hRead, fault, hJson⟩
    · rintro (⟨cause, hRead⟩ | ⟨d, hRead, fault, hJson⟩)
      · exact ⟨_, .inl ⟨cause, hRead, rfl⟩⟩
      · exact ⟨_, .inr ⟨d, fault, hRead, hJson, rfl⟩⟩
  · have hFault {document : Value} {d : Deck} {fault : KeyError} (h : Loads text document d) :
        d.toJson = .error fault ↔
          FirstUnnameable ((carriedItems document).flatMap writtenKeys) fault := by
      rw [Deck.toJson_eq_error, (Deck.ofValue_eq_ok.1 h.deck).carried]
    simp only [model_eq_error, compile_eq_error]
    constructor
    · rintro ⟨_, ⟨cause, hRead, rfl⟩ | ⟨d, fault, hRead, hJson, rfl⟩, hMessage⟩
      · exact .inl ⟨cause, hRead, hMessage⟩
      · obtain ⟨document, hLoads⟩ := exists_loads_iff.2 hRead
        exact .inr ⟨document, d, fault, hLoads, (hFault hLoads).1 hJson, hMessage⟩
    · rintro (⟨cause, hRead, hMessage⟩ | ⟨document, d, fault, hLoads, hFirst, hMessage⟩)
      · exact ⟨_, .inl ⟨cause, hRead, rfl⟩, hMessage⟩
      · have hRead := exists_loads_iff.1 ⟨document, hLoads⟩
        exact ⟨_, .inr ⟨d, fault, hRead, (hFault hLoads).2 hFirst, rfl⟩, hMessage⟩

end Browser

end Slideshow
