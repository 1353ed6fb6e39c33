import Slideshow.Proofs.Deck.Load

/-! The grammar of decks. A value is read as a deck if and only if it has the form of one. The deck
then has the sections, subsections and elements of the value in their order; otherwise the error is
that of the first offence in the order of the document. -/

namespace Slideshow

open Yaml (Value Mapping)

/-! ### The form of a deck -/

/-- A text, a number or a truth value, without a tag. -/
inductive Yaml.Value.IsScalar : Value → Prop
  | string (s : String) : IsScalar (.string s)
  | number (n : Yaml.Number) : IsScalar (.number n)
  | bool (b : Bool) : IsScalar (.bool b)

theorem Yaml.Value.isScalar_iff {v : Value} : v.IsScalar ↔ ∃ name, v.scalarText? = some name := by
  constructor
  · rintro (s | n | b)
    · exact ⟨s, rfl⟩
    · exact ⟨n.text, rfl⟩
    · exact ⟨_, rfl⟩
  · rintro ⟨name, h⟩
    cases v with
    | string s => exact .string s
    | number n => exact .number n
    | bool b => exact .bool b
    | _ => exact nomatch h

theorem Yaml.Value.not_isScalar_iff {v : Value} : ¬ v.IsScalar ↔ v.scalarText? = none := by
  rw [isScalar_iff, Option.eq_none_iff_forall_ne_some, not_exists]

/-- An entry of a divided section: a list under a scalar key, or anything under `config`. -/
structure IsPart (e : Value × Value) : Prop where
  key : e.1.IsScalar
  body : e.1.scalarText? ≠ some configName → ∃ items, e.2 = .list items

/-- What stands for a section: a list of elements, or a mapping of such lists. -/
inductive IsBody : Value → Prop
  | flat (items : List Value) : IsBody (.list items)
  | divided {m : Mapping} : (∀ e ∈ m, IsPart e) → IsBody (.mapping m)

structure IsSection (e : Value × Value) : Prop where
  key : e.1.IsScalar
  body : IsBody e.2

/-- Nothing, or a mapping of sections. -/
inductive IsDeck : Value → Prop
  | null : IsDeck .null
  | mapping {es : Mapping} : (∀ e ∈ es, IsSection e) → IsDeck (.mapping es)

/-! ### What is read -/

/-- The subsection that an entry gives: it has the key's text for a name and one element for each
item of the list. -/
def GivesPart (e : Value × Value) (part : String × Subsection) : Prop :=
  e.1.scalarText? = some part.1 ∧ part.1 ≠ configName ∧
    ∃ items, e.2 = .list items ∧ part.2.elements = items.map Element.ofValue

/-- The section that an entry gives: it has the key's text for a name, and it is flat where the value
is a list. -/
inductive GivesSection : Value × Value → String × Section → Prop
  | flat {key : Value} {name : String} {items : List Value} {content : Subsection} :
      key.scalarText? = some name → content.elements = items.map Element.ofValue →
      GivesSection (key, .list items) (name, .flat content)
  | divided {key : Value} {name : String} {m : Mapping} {parts : List (String × Subsection)} :
      key.scalarText? = some name →
      List.Forall₂ GivesPart (m.filter fun e => e.1.scalarText? ≠ some configName) parts →
      GivesSection (key, .mapping m) (name, .divided (sectionDecoration? m) parts)

inductive GivesDeck : Value → Deck → Prop
  | null : GivesDeck .null ⟨[]⟩
  | mapping {es : Mapping} {sections : List (String × Section)} :
      List.Forall₂ GivesSection es sections → GivesDeck (.mapping es) ⟨sections⟩

/-! ### Offences -/

/-- The first offence of a list: that of one entry, when all before it are fine. -/
inductive FirstOffence {α : Type} (fine : α → Prop) (offence : α → LoadError → Prop) :
    List α → LoadError → Prop
  | here {a : α} {as : List α} {err : LoadError} : offence a err →
      FirstOffence fine offence (a :: as) err
  | later {a : α} {as : List α} {err : LoadError} : fine a → FirstOffence fine offence as err →
      FirstOffence fine offence (a :: as) err

/-- What is wrong with an entry of the divided section called `place`. -/
inductive PartOffence (place : String) : Value × Value → LoadError → Prop
  | key {key v : Value} : ¬ key.IsScalar →
      PartOffence place (key, v) (.malformed place ⟨.scalarKey, .ofValue key⟩)
  | body {key v : Value} {name : String} : key.scalarText? = some name → name ≠ configName →
      (∀ items, v ≠ .list items) →
      PartOffence place (key, v) (.malformed (place ++ "." ++ name) ⟨.elements, .ofValue v⟩)

/-- What is wrong first with an entry of a document: its key, its shape, or an entry inside it. -/
inductive SectionOffence : Value × Value → LoadError → Prop
  | key {key v : Value} : ¬ key.IsScalar →
      SectionOffence (key, v) (.malformed rootName ⟨.scalarKey, .ofValue key⟩)
  | shape {key v : Value} {name : String} : key.scalarText? = some name →
      (∀ items, v ≠ .list items) → (∀ m, v ≠ .mapping m) →
      SectionOffence (key, v) (.malformed name ⟨.sectionBody, .ofValue v⟩)
  | part {key : Value} {name : String} {m : Mapping} {err : LoadError} :
      key.scalarText? = some name → FirstOffence IsPart (PartOffence name) m err →
      SectionOffence (key, .mapping m) err

/-- What is wrong first with a document. -/
inductive DeckOffence : Value → LoadError → Prop
  | root {v : Value} : v ≠ .null → (∀ m, v ≠ .mapping m) →
      DeckOffence v (.malformed rootName ⟨.sections, .ofValue v⟩)
  | inside {es : Mapping} {err : LoadError} : FirstOffence IsSection SectionOffence es err →
      DeckOffence (.mapping es) err

/-! ### Errors -/

theorem keyName_eq_error {place : String} {key : Value} {err : LoadError} :
    keyName place key = .error err ↔
      ¬ key.IsScalar ∧ err = .malformed place ⟨.scalarKey, .ofValue key⟩ := by
  rw [keyName, Value.not_isScalar_iff]
  cases key.scalarText? with
  | some name => simp
  | none => simp [eq_comm]

/-- A reader of entries that stops at the first one with an offence has that offence as its error. -/
theorem eq_error_iff_firstOffence {α β : Type} {fine : α → Prop}
    {offence : α → LoadError → Prop} {read : List α → Except LoadError β}
    (hNil : ∀ err, read [] ≠ .error err)
    (hCons : ∀ a as err, read (a :: as) = .error err ↔
      offence a err ∨ fine a ∧ read as = .error err) (as : List α) (err : LoadError) :
    read as = .error err ↔ FirstOffence fine offence as err := by
  induction as with
  | nil => exact ⟨fun h => absurd h (hNil err), fun h => nomatch h⟩
  | cons a as ih =>
    rw [hCons, ih]
    constructor
    · rintro (h | ⟨hFine, h⟩)
      · exact .here h
      · exact .later hFine h
    · rintro (h | ⟨hFine, h⟩)
      · exact .inl h
      · exact .inr ⟨hFine, h⟩

theorem readSubsections_cons_eq_error {place : String} {e : Value × Value} {es : Mapping}
    {err : LoadError} : readSubsections place (e :: es) = .error err ↔
      PartOffence place e err ∨ IsPart e ∧ readSubsections place es = .error err := by
  obtain ⟨key, v⟩ := e
  rw [readSubsections, bind_eq_error, keyName_eq_error]
  constructor
  · rintro (⟨hKey, rfl⟩ | ⟨name, hName, h⟩)
    · exact .inl (.key hKey)
    · rw [keyName_eq_ok] at hName
      have hKey : key.IsScalar := Value.isScalar_iff.2 ⟨name, hName⟩
      by_cases hConfig : name = configName
      · rw [if_pos hConfig] at h
        exact .inr ⟨⟨hKey, fun hne => absurd (hConfig ▸ hName) hne⟩, h⟩
      · rw [if_neg hConfig] at h
        cases v with
        | list items =>
          obtain h | ⟨rest, -, h⟩ := bind_eq_error.1 h
          · exact .inr ⟨⟨hKey, fun _ => ⟨items, rfl⟩⟩, h⟩
          · cases h
        | _ =>
          cases Except.error.inj h
          exact .inl (.body hName hConfig (by simp))
  · rintro (h | ⟨⟨hKey, hBody⟩, h⟩)
    · cases h with
      | key hKey => exact .inl ⟨hKey, rfl⟩
      | @body _ _ name hName hConfig hShape =>
        refine .inr ⟨name, keyName_eq_ok.2 hName, ?_⟩
        rw [if_neg hConfig]
        cases v with
        | list items => exact absurd rfl (hShape items)
        | _ => rfl
    · obtain ⟨name, hName⟩ := Value.isScalar_iff.1 hKey
      refine .inr ⟨name, keyName_eq_ok.2 hName, ?_⟩
      by_cases hConfig : name = configName
      · rw [if_pos hConfig]
        exact h
      · obtain ⟨items, rfl⟩ := hBody (by rw [hName]; simpa using hConfig)
        rw [if_neg hConfig]
        exact bind_eq_error.2 (.inl h)

theorem readSubsections_eq_error {place : String} {es : Mapping} {err : LoadError} :
    readSubsections place es = .error err ↔ FirstOffence IsPart (PartOffence place) es err :=
  eq_error_iff_firstOffence (by simp [readSubsections])
    (fun _ _ _ => readSubsections_cons_eq_error) es err

/-- The error of an entry of a document, by its key or its body. -/
theorem sectionOffence_iff {e : Value × Value} {err : LoadError} :
    SectionOffence e err ↔ keyName rootName e.1 = .error err ∨
      ∃ name, keyName rootName e.1 = .ok name ∧ Section.ofValue name e.2 = .error err := by
  simp only [keyName_eq_error, keyName_eq_ok]
  constructor
  · rintro (hKey | ⟨hName, hList, hMapping⟩ | ⟨hName, h⟩)
    · exact .inl ⟨hKey, rfl⟩
    · rename_i v name
      refine .inr ⟨name, hName, ?_⟩
      cases v with
      | list items => exact absurd rfl (hList items)
      | mapping m => exact absurd rfl (hMapping m)
      | _ => rfl
    · exact .inr ⟨_, hName, map_eq_error.2 (readSubsections_eq_error.2 h)⟩
  · obtain ⟨key, v⟩ := e
    rintro (⟨hKey, rfl⟩ | ⟨name, hName, h⟩)
    · exact .key hKey
    · cases v with
      | list items => exact nomatch h
      | mapping m => exact .part hName (readSubsections_eq_error.1 (map_eq_error.1 h))
      | _ =>
        cases Except.error.inj h
        exact .shape hName (by simp) (by simp)

/-! ### Agreement -/

/-- Where what is fine is what has no offence, a list is fine if and only if it has no first one. -/
theorem forall_fine_iff {α : Type} {fine : α → Prop} {offence : α → LoadError → Prop}
    (hFine : ∀ a, fine a ↔ ∀ err, ¬ offence a err) (as : List α) :
    (∀ a ∈ as, fine a) ↔ ∀ err, ¬ FirstOffence fine offence as err := by
  induction as with
  | nil => exact ⟨fun _ _ h => (nomatch h), fun _ _ h => absurd h List.not_mem_nil⟩
  | cons a as ih =>
    rw [List.forall_mem_cons, ih]
    constructor
    · rintro ⟨hHead, hTail⟩ err (h | ⟨-, h⟩)
      · exact (hFine a).1 hHead err h
      · exact hTail err h
    · intro h
      have hHead : fine a := (hFine a).2 fun err hErr => h err (.here hErr)
      exact ⟨hHead, fun err hErr => h err (.later hHead hErr)⟩

theorem isPart_iff (place : String) (e : Value × Value) :
    IsPart e ↔ ∀ err, ¬ PartOffence place e err := by
  constructor
  · rintro ⟨hKey, hBody⟩ err (hOffence | ⟨hName, hConfig, hShape⟩)
    · exact hOffence hKey
    · obtain ⟨items, hItems⟩ := hBody (by rw [hName]; simpa using hConfig)
      exact hShape items hItems
  · obtain ⟨key, v⟩ := e
    intro h
    have hKey : key.IsScalar := by
      by_contra hKey
      exact h _ (.key hKey)
    refine ⟨hKey, fun hConfig => ?_⟩
    obtain ⟨name, hName⟩ := Value.isScalar_iff.1 hKey
    by_contra hShape
    refine h _ (.body hName ?_ (not_exists.1 hShape))
    rintro rfl
    exact hConfig hName

theorem isSection_iff (e : Value × Value) : IsSection e ↔ ∀ err, ¬ SectionOffence e err := by
  constructor
  · rintro ⟨hKey, hBody⟩ err (hOffence | ⟨hName, hList, hMapping⟩ | ⟨hName, h⟩)
    · exact hOffence hKey
    · cases hBody with
      | flat items => exact hList items rfl
      | divided _ => exact hMapping _ rfl
    · cases hBody with
      | divided hParts => exact (forall_fine_iff (isPart_iff _) _).1 hParts err h
  · obtain ⟨key, v⟩ := e
    intro h
    have hKey : key.IsScalar := by
      by_contra hKey
      exact h _ (.key hKey)
    obtain ⟨name, hName⟩ := Value.isScalar_iff.1 hKey
    refine ⟨hKey, ?_⟩
    cases v with
    | list items => exact .flat items
    | mapping m =>
      exact .divided ((forall_fine_iff (isPart_iff name) m).2 fun err hErr => h err (.part hName hErr))
    | _ => exact absurd (.shape hName (by simp) (by simp)) (h _)

theorem isDeck_iff (v : Value) : IsDeck v ↔ ∀ err, ¬ DeckOffence v err := by
  constructor
  · rintro (_ | hSections) err (⟨hNull, hMapping⟩ | h)
    · exact hNull rfl
    · exact hMapping _ rfl
    · exact (forall_fine_iff isSection_iff _).1 hSections err h
  · intro h
    cases v with
    | null => exact .null
    | mapping es =>
      exact .mapping ((forall_fine_iff isSection_iff es).2 fun err hErr => h err (.inside hErr))
    | _ => exact absurd (.root (by simp) (by simp)) (h _)

/-- An entry is a section if and only if its name and its body can be read. -/
theorem isSection_iff_exists (e : Value × Value) : IsSection e ↔
    ∃ name, keyName rootName e.1 = .ok name ∧ ∃ body, Section.ofValue name e.2 = .ok body := by
  simp only [isSection_iff, sectionOffence_iff]
  cases hKey : keyName rootName e.1 with
  | error err => simp
  | ok name => cases hBody : Section.ofValue name e.2 <;> simp [hBody]

theorem readSections_cons_eq_error {e : Value × Value} {es : Mapping} {err : LoadError} :
    readSections (e :: es) = .error err ↔
      SectionOffence e err ∨ IsSection e ∧ readSections es = .error err := by
  have hRest (entry : String × Section) (h : readSections es >>= (fun rest => pure (entry :: rest)) =
      .error err) : readSections es = .error err := by
    obtain h | ⟨_, -, h⟩ := bind_eq_error.1 h
    · exact h
    · exact nomatch h
  rw [readSections, sectionOffence_iff, isSection_iff_exists]
  simp only [bind_eq_error]
  constructor
  · rintro (h | ⟨name, hName, h | ⟨body, hBody, h⟩⟩)
    · exact .inl (.inl h)
    · exact .inl (.inr ⟨name, hName, h⟩)
    · exact .inr ⟨⟨name, hName, body, hBody⟩, hRest _ (bind_eq_error.2 h)⟩
  · rintro ((h | ⟨name, hName, h⟩) | ⟨⟨name, hName, body, hBody⟩, h⟩)
    · exact .inl h
    · exact .inr ⟨name, hName, .inl h⟩
    · exact .inr ⟨name, hName, .inr ⟨body, hBody, .inl h⟩⟩

theorem readSections_eq_error {es : Mapping} {err : LoadError} :
    readSections es = .error err ↔ FirstOffence IsSection SectionOffence es err :=
  eq_error_iff_firstOffence (by simp [readSections]) (fun _ _ _ => readSections_cons_eq_error) es err

theorem Deck.ofValue_eq_error {v : Value} {err : LoadError} :
    Deck.ofValue v = .error err ↔ DeckOffence v err := by
  constructor
  · intro h
    cases v with
    | null => exact nomatch h
    | mapping es => exact .inside (readSections_eq_error.1 (map_eq_error.1 h))
    | _ =>
      cases Except.error.inj h
      exact .root (by simp) (by simp)
  · rintro (⟨hNull, hMapping⟩ | h)
    · cases v with
      | null => exact absurd rfl hNull
      | mapping m => exact absurd rfl (hMapping m)
      | _ => rfl
    · exact map_eq_error.2 (readSections_eq_error.2 h)

/-! ### Decks -/

/-- The subsections that are read are those that the entries other than `config` give. -/
theorem readSubsections_eq_ok_iff {place : String} {m : Mapping}
    {parts : List (String × Subsection)} : readSubsections place m = .ok parts ↔
      List.Forall₂ GivesPart (m.filter fun e => e.1.scalarText? ≠ some configName) parts := by
  have hOther : ∀ e ∈ m.filter fun e => e.1.scalarText? ≠ some configName,
      e.1.scalarText? ≠ some configName := by simp
  rw [readSubsections_eq_ok]
  constructor
  · rintro ⟨-, h⟩
    refine ((List.forall₂_and_left _ _).2 ⟨hOther, h⟩).imp ?_
    rintro ⟨key, v⟩ ⟨name, content⟩ ⟨hConfig, hName, items, rfl, rfl⟩
    refine ⟨hName, ?_, items, rfl, rfl⟩
    rintro rfl
    exact hConfig hName
  · intro h
    refine ⟨fun e he => ?_, h.imp ?_⟩
    · by_cases hConfig : e.1.scalarText? = some configName
      · rw [hConfig]
        rfl
      · obtain ⟨part, -, hName, -⟩ :=
          exists_of_mem_left h (List.mem_filter.2 ⟨he, decide_eq_true hConfig⟩)
        rw [hName]
        rfl
    · rintro ⟨key, v⟩ ⟨name, content⟩ ⟨hName, -, items, rfl, hElements⟩
      exact ⟨hName, items, rfl, congrArg Subsection.mk hElements⟩

theorem givesSection_iff {e : Value × Value} {part : String × Section} :
    GivesSection e part ↔
      e.1.scalarText? = some part.1 ∧ Section.ofValue part.1 e.2 = .ok part.2 := by
  constructor
  · rintro (⟨hName, hElements⟩ | ⟨hName, hParts⟩)
    · exact ⟨hName, congrArg (fun es => Except.ok (Section.flat ⟨es⟩)) hElements.symm⟩
    · exact ⟨hName, map_eq_ok.2 ⟨_, readSubsections_eq_ok_iff.2 hParts, rfl⟩⟩
  · obtain ⟨key, v⟩ := e
    obtain ⟨name, body⟩ := part
    rintro ⟨hName, h⟩
    cases v with
    | list items =>
      cases Except.ok.inj h
      exact .flat hName rfl
    | mapping m =>
      obtain ⟨parts, hParts, rfl⟩ := map_eq_ok.1 h
      exact .divided hName (readSubsections_eq_ok_iff.1 hParts)
    | _ => exact nomatch h

theorem Deck.ofValue_eq_ok {v : Value} {d : Deck} : Deck.ofValue v = .ok d ↔ GivesDeck v d := by
  have hSections (es : Mapping) (sections : List (String × Section)) :
      readSections es = .ok sections ↔ List.Forall₂ GivesSection es sections := by
    rw [readSections_eq_ok]
    exact ⟨fun h => h.imp fun _ _ => givesSection_iff.2, fun h => h.imp fun _ _ => givesSection_iff.1⟩
  constructor
  · intro h
    cases v with
    | null =>
      cases Except.ok.inj h
      exact .null
    | mapping es =>
      obtain ⟨sections, hRead, rfl⟩ := map_eq_ok.1 h
      exact .mapping ((hSections es sections).1 hRead)
    | _ => exact nomatch h
  · rintro (_ | h)
    · rfl
    · exact map_eq_ok.2 ⟨_, (hSections _ _).2 h, rfl⟩

/-- A value is read if and only if it has the form of a deck. What is read has one section for each
entry, one subsection for each entry of a section but `config`, and one element for each item, in
order; the error is that of the first offence in the order of the document. -/
theorem Deck.ofValue_grammar (v : Value) :
    ((∃ d, Deck.ofValue v = .ok d) ↔ IsDeck v) ∧
    (∀ d, Deck.ofValue v = .ok d ↔ GivesDeck v d) ∧
    (∀ err, Deck.ofValue v = .error err ↔ DeckOffence v err) := by
  refine ⟨?_, fun d => Deck.ofValue_eq_ok, fun err => Deck.ofValue_eq_error⟩
  simp only [isDeck_iff, ← Deck.ofValue_eq_error]
  cases Deck.ofValue v <;> simp

/-- What stands under `config` is not looked at; the entry after it is the first offence. -/
example : Deck.ofValue (.mapping [(.string "m", .mapping [(.string "config", .bool true),
    (.string "t", .null), (.null, .list [])])]) = .error (.malformed "m.t" ⟨.elements, .null⟩) := rfl

end Slideshow
