import Slideshow.Proofs.Diagnostic.Silence
import Slideshow.Proofs.Rule.Reach

/-! The elements that values describe. A value describes at most one, by its shape, its type and the field
that this type needs; a value that describes none is kept as it is, and so is the value of a custom
element. -/

namespace Slideshow

open Yaml (Value Mapping)

/-! ### What values describe -/

/-- A mapping says of what type it is under `type`, in a text without a tag. -/
def HasType (m : Mapping) (type : String) : Prop := m.field? "type" = some (.string type)

/-- The texts of the scalars among values, in their order, and the number of the other ones. -/
inductive Kept : List Value → List String → Nat → Prop
  | nil : Kept [] [] 0
  | scalar {v : Value} {vs : List Value} {text : String} {texts : List String} {others : Nat} :
      v.scalarText? = some text → Kept vs texts others → Kept (v :: vs) (text :: texts) others
  | other {v : Value} {vs : List Value} {texts : List String} {others : Nat} :
      ¬ v.IsScalar → Kept vs texts others → Kept (v :: vs) texts (others + 1)

/-- A value describes an element: a scalar its text, and a mapping an element of its type if the field is
there that the type needs. -/
inductive Describes : Value → Element → Prop
  | string (s : String) : Describes (.string s) (.scalar s)
  | number (n : Yaml.Number) : Describes (.number n) (.scalar n.text)
  | bool (b : Bool) : Describes (.bool b) (.scalar (if b then "true" else "false"))
  | marker {m : Mapping} : HasType m configName → Describes (.mapping m) (.marker (.ofMapping m))
  | text {m : Mapping} {tag : TextTag} {v : Value} {content : String} : HasType m tag.name →
      m.field? "content" = some v → v.scalarText? = some content →
      Describes (.mapping m) (.text tag content (.ofMapping m))
  | image {m : Mapping} {v : Value} {source : String} : HasType m "img" →
      m.field? "src" = some v → v.scalarText? = some source →
      Describes (.mapping m) (.image source (.ofMapping m))
  | list {m : Mapping} {vs : List Value} {entries : List String} {skipped : Nat} :
      HasType m "ul" → m.field? "contents" = some (.list vs) → Kept vs entries skipped →
      Describes (.mapping m) (.list entries skipped (.ofMapping m))
  | custom {m : Mapping} {type : String} : HasType m type → type ∉ builtInTypes →
      Describes (.mapping m) (.custom type (.mapping m))

/-- The value that an element carries as it was written. -/
def Element.carried? : Element → Option Value
  | custom _ v | unrecognized v => some v
  | _ => none

/-! ### Lists -/

theorem kept_iff {vs : List Value} {entries : List String} {skipped : Nat} :
    Kept vs entries skipped ↔
      entries = vs.filterMap (·.scalarText?) ∧ entries.length + skipped = vs.length := by
  induction vs generalizing entries skipped with
  | nil =>
    constructor
    · rintro ⟨⟩
      exact ⟨rfl, rfl⟩
    · rintro ⟨rfl, hLength⟩
      obtain rfl : skipped = 0 := by simpa using hLength
      exact .nil
  | cons v vs ih =>
    cases hText : v.scalarText? with
    | some text =>
      have hScalar := Value.isScalar_iff.2 ⟨text, hText⟩
      rw [List.filterMap_cons_some hText, List.length_cons]
      constructor
      · rintro (_ | ⟨hText', hKept⟩ | ⟨hOther, -⟩)
        · cases hText.symm.trans hText'
          obtain ⟨rfl, hLength⟩ := ih.1 hKept
          exact ⟨rfl, by rw [List.length_cons]; omega⟩
        · exact absurd hScalar hOther
      · rintro ⟨rfl, hLength⟩
        rw [List.length_cons] at hLength
        exact .scalar hText (ih.2 ⟨rfl, by omega⟩)
    | none =>
      have hOther := Value.not_isScalar_iff.2 hText
      rw [List.filterMap_cons_none hText, List.length_cons]
      constructor
      · rintro (_ | ⟨hText', -⟩ | ⟨-, hKept⟩)
        · rw [hText] at hText'
          exact nomatch hText'
        · obtain ⟨rfl, hLength⟩ := ih.1 hKept
          exact ⟨rfl, by omega⟩
      · rintro ⟨rfl, hLength⟩
        have hLess := List.length_filterMap_le Value.scalarText? vs
        have hne : skipped ≠ 0 := by omega
        obtain ⟨others, rfl⟩ := Nat.exists_eq_add_one_of_ne_zero hne
        exact .other hOther (ih.2 ⟨rfl, by omega⟩)

/-! ### Types -/

theorem Element.ofValue_of_hasType {m : Mapping} {type : String} (h : HasType m type) :
    Element.ofValue (.mapping m) = ofTyped type m := by
  rw [HasType] at h
  simp only [ofValue, h]

theorem scalarField?_eq_some {m : Mapping} {name text : String} :
    scalarField? m name = some text ↔ ∃ v, m.field? name = some v ∧ v.scalarText? = some text := by
  rw [scalarField?, Option.bind_eq_some_iff]

/-- A mapping of a type describes the element of this type, unless the field is missing. -/
theorem describes_ofTyped {m : Mapping} {type : String} (h : HasType m type) :
    Describes (.mapping m) (.ofTyped type m) ∨
      Element.ofTyped type m = .unrecognized (.mapping m) := by
  rw [Element.ofTyped]
  split
  · rename_i hConfig
    exact .inl (.marker (hConfig ▸ h))
  rename_i hConfig
  split
  · rename_i tag hTag
    obtain rfl := TextTag.ofName?_eq_some.1 hTag
    split
    · rename_i content hContent
      obtain ⟨v, hField, hText⟩ := scalarField?_eq_some.1 hContent
      exact .inl (.text h hField hText)
    · exact .inr rfl
  rename_i hText
  split
  · rename_i hImage
    split
    · rename_i source hSource
      obtain ⟨v, hField, hText⟩ := scalarField?_eq_some.1 hSource
      exact .inl (.image (hImage ▸ h) hField hText)
    · exact .inr rfl
  rename_i hImage
  split
  · rename_i hList
    split
    · rename_i vs hField
      have hLess := List.length_filterMap_le (·.scalarText?) vs
      exact .inl (.list (hList ▸ h) hField (kept_iff.2 ⟨rfl, by omega⟩))
    · exact .inr rfl
  rename_i hList
  exact .inl (.custom h (not_mem_builtInTypes.2 ⟨hConfig, hImage, hList, hText⟩))

theorem describes_ofValue (v : Value) :
    Describes v (.ofValue v) ∨ Element.ofValue v = .unrecognized v := by
  cases v with
  | string s => exact .inl (.string s)
  | number n => exact .inl (.number n)
  | bool b => exact .inl (.bool b)
  | null => exact .inr rfl
  | list vs => exact .inr rfl
  | tagged tag v => exact .inr rfl
  | mapping m =>
    cases hType : Mapping.field? m "type" with
    | none => exact .inr (by simp only [Element.ofValue, hType])
    | some w =>
      cases w with
      | string type =>
        rw [Element.ofValue_of_hasType hType]
        exact describes_ofTyped hType
      | _ => exact .inr (by simp only [Element.ofValue, hType])

theorem Describes.ofValue_eq {v : Value} {e : Element} (h : Describes v e) :
    Element.ofValue v = e := by
  cases h with
  | string s => rfl
  | number n => rfl
  | bool b => rfl
  | marker hType => rw [Element.ofValue_of_hasType hType]; rfl
  | @text m tag w content hType hField hText =>
    have hConfig : tag.name ≠ configName := by cases tag <;> decide
    rw [Element.ofValue_of_hasType hType, Element.ofTyped, if_neg hConfig,
      TextTag.ofName?_eq_some.2 rfl]
    simp only [scalarField?_eq_some.2 ⟨w, hField, hText⟩]
  | @image m w source hType hField hText =>
    have hTag : TextTag.ofName? "img" = none := rfl
    rw [Element.ofValue_of_hasType hType, Element.ofTyped, if_neg (by decide), hTag]
    simp only [if_pos, scalarField?_eq_some.2 ⟨w, hField, hText⟩]
  | @list m vs entries skipped hType hField hKept =>
    obtain ⟨rfl, hLength⟩ := kept_iff.1 hKept
    rw [Element.ofValue_ul hType hField]
    congr 1
    omega
  | custom hType hCustom =>
    obtain ⟨hConfig, hImage, hList, hText⟩ := not_mem_builtInTypes.1 hCustom
    rw [Element.ofValue_of_hasType hType, Element.ofTyped, if_neg hConfig, hText]
    simp only [if_neg hImage, if_neg hList]

theorem Describes.tag?_eq {v : Value} {e : Element} (h : Describes v e) (type : String) :
    e.tag? = some type ↔ ∃ m : Mapping, v = .mapping m ∧ HasType m type := by
  have hMapping {m : Mapping} {other : String} (hType : HasType m other) :
      some other = some type ↔ ∃ m', Value.mapping m = .mapping m' ∧ HasType m' type := by
    constructor
    · rintro ⟨⟩
      exact ⟨m, rfl, hType⟩
    · rintro ⟨_, ⟨⟩, hType'⟩
      rw [HasType] at hType hType'
      cases hType.symm.trans hType'
      rfl
  cases h with
  | string s => simp [Element.tag?]
  | number n => simp [Element.tag?]
  | bool b => simp [Element.tag?]
  | marker hType => exact hMapping hType
  | text hType _ _ => exact hMapping hType
  | image hType _ _ => exact hMapping hType
  | list hType _ _ => exact hMapping hType
  | custom hType _ => exact hMapping hType

theorem Describes.carried? {v w : Value} {e : Element} (h : Describes v e)
    (hCarried : e.carried? = some w) : w = v := by
  cases h with
  | custom _ _ =>
    cases hCarried
    rfl
  | _ => exact nomatch hCarried

/-- An element carries no other value than the one that it was made from. -/
theorem Element.eq_of_carried? {v w : Value} (h : (Element.ofValue v).carried? = some w) :
    w = v := by
  obtain hDescribes | hUnrecognized := describes_ofValue v
  · exact hDescribes.carried? h
  · rw [hUnrecognized] at h
    cases h
    rfl

/-- The element of a value is the one that the value describes, or the value is kept because it describes
none. An element that has a type has that of its value; a value that is carried is the one that was
given, so that it gives the same element again; and of the entries of a list, the scalars are kept in
their order and the others are counted. -/
theorem Element.ofValue_describes (v : Value) :
    (∀ e, ofValue v = e ↔ Describes v e ∨ e = .unrecognized v ∧ ∀ other, ¬ Describes v other) ∧
    (∀ type, (ofValue v).tag? = some type ↔
      (∃ e, Describes v e) ∧ ∃ m : Mapping, v = .mapping m ∧ HasType m type) ∧
    (∀ w, (ofValue v).carried? = some w → w = v ∧ ofValue w = ofValue v) ∧
    ∀ entries skipped d, ofValue v = .list entries skipped d →
      ∃ (m : Mapping) (vs : List Value), v = .mapping m ∧ m.field? "contents" = some (.list vs) ∧
        Kept vs entries skipped ∧ entries.length + skipped = vs.length := by
  -- An unrecognized element is none that a value describes.
  have hNone (h : ofValue v = .unrecognized v) (other : Element) : ¬ Describes v other := by
    intro hOther
    rw [← hOther.ofValue_eq, h] at hOther
    cases hOther
  refine ⟨fun e => ⟨?_, ?_⟩, fun type => ?_, fun w hCarried => ?_, fun entries skipped d hList => ?_⟩
  · rintro rfl
    exact (describes_ofValue v).imp_right fun h => ⟨h, hNone h⟩
  · rintro (h | ⟨rfl, h⟩)
    · exact h.ofValue_eq
    · exact (describes_ofValue v).resolve_left (h _)
  · obtain h | h := describes_ofValue v
    · rw [h.tag?_eq type]
      exact (and_iff_right ⟨_, h⟩).symm
    · rw [h]
      constructor
      · exact fun hTag => nomatch hTag
      · rintro ⟨⟨e, he⟩, -⟩
        exact absurd he (hNone h e)
  · have hSame := eq_of_carried? hCarried
    exact ⟨hSame, congrArg ofValue hSame⟩
  · obtain h | h := describes_ofValue v
    · rw [hList] at h
      cases h with
      | list _ hField hKept => exact ⟨_, _, rfl, hField, hKept, (kept_iff.1 hKept).2⟩
    · rw [hList] at h
      exact nomatch h

/-- A list of which one entry has a tag. -/
def partlyTagged : Mapping :=
  [(.string "type", .string "ul"),
    (.string "contents", .list [.string "b", .tagged "t" (.string "x"), .bool true])]

theorem Element.ofValue_describes_partlyTagged :
    ofValue (.mapping partlyTagged) = .list ["b", "true"] 1 {} ∧
      Describes (.mapping partlyTagged) (.list ["b", "true"] 1 {}) ∧
      ∃ (m : Mapping) (vs : List Value), Value.mapping partlyTagged = .mapping m ∧
        m.field? "contents" = some (.list vs) ∧ Kept vs ["b", "true"] 1 ∧ 2 + 1 = vs.length := by
  have hList : ofValue (.mapping partlyTagged) = .list ["b", "true"] 1 {} := by rfl
  obtain ⟨hElement, -, -, hEntries⟩ := ofValue_describes (.mapping partlyTagged)
  have hDescribes := ((hElement _).1 hList).resolve_right fun h => nomatch h.1
  exact ⟨hList, hDescribes, hEntries _ _ _ hList⟩

end Slideshow
