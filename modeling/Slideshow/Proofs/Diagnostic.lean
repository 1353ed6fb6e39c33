import Mathlib.Data.List.Infix
import Slideshow.Diagnostic
import Slideshow.Markup.Render
import Slideshow.Proofs.Deck.Load
import Slideshow.Proofs.Text.Occurrence

/-! The diagnostics of a subsection beside its markup. A finding names the element that it is about
at the start of its message, and all findings about an element come from that element: they say that
it renders as nothing if and only if it does, and how many entries of a list are left out. -/

namespace Slideshow

open Yaml (Value Mapping)
open Markup

/-! ### Messages -/

theorem LoadError.message_yaml (cause : Yaml.Error) :
    (yaml cause).message = "Invalid YAML: " ++ cause.message := rfl

theorem LoadError.message_malformed (place : String) (fault : Malformation) :
    (malformed place fault).message = "Malformed section '" ++ place ++ "': " ++ fault.reason := rfl

namespace Finding

/-- The index of the element that a finding is about. -/
def index? : Finding → Option Nat
  | noRule i _ | unrecognized i | skippedEntries i _ | secondMarker i => some i
  | notLoaded _ | styleUnused | noSubsections | noElements => none

/-- Whether a message starts with the name of the element at an index. -/
def isAbout (i : Nat) (f : Finding) : Bool :=
  ("Element " ++ toString i ++ ": ").toList.isPrefixOf f.message.toList

/-- Whether a finding says, with one of the two codes for it, that the element at an index renders
as nothing. -/
def saysNothing (i : Nat) (f : Finding) : Bool :=
  f.isAbout i && (f.code == "D001" || f.code == "D002") &&
    "; it renders as nothing".toList.isSuffixOf f.message.toList

theorem toDigits_prefix_iff {i j : Nat} {rest : List Char} :
    Nat.toDigits 10 i ++ [':', ' '] <+: Nat.toDigits 10 j ++ ':' :: ' ' :: rest ↔ i = j := by
  constructor
  · intro h
    have hColon (n : Nat) : ':' ∉ Nat.toDigits 10 n := Text.not_mem_toDigits (by decide) n
    exact Text.toDigits_inj.1 (Text.eq_of_prefix_of_not_mem (hColon i) (hColon j) h)
  · rintro rfl
    exact ⟨rest, by simp⟩

theorem isAbout_iff {i : Nat} {f : Finding} : f.isAbout i = true ↔ f.index? = some i := by
  have hName (i : Nat) : ("Element " ++ toString i ++ ": ").toList =
      "Element ".toList ++ (Nat.toDigits 10 i ++ [':', ' ']) := by
    simp
  have hIndexed {j : Nat} {message : String} (rest : List Char)
      (h : message.toList = "Element ".toList ++ (Nat.toDigits 10 j ++ ':' :: ' ' :: rest)) :
      ("Element " ++ toString i ++ ": ").toList.isPrefixOf message.toList = true ↔
        some j = some i := by
    rw [List.isPrefixOf_iff_prefix, hName, h, List.prefix_append_right_inj, toDigits_prefix_iff,
      Option.some_inj, eq_comm]
  have hForeign {message start rest : String} (hStart : start.toList.head? ≠ some 'E')
      (hne : start.toList ≠ []) (h : message = start ++ rest) :
      ("Element " ++ toString i ++ ": ").toList.isPrefixOf message.toList = true ↔
        (none : Option Nat) = some i := by
    obtain ⟨c, tail, hTail⟩ := List.exists_cons_of_ne_nil hne
    rw [List.isPrefixOf_iff_prefix, hName, h, String.toList_append, hTail]
    refine ⟨fun hPrefix => ?_, fun h => nomatch h⟩
    have hFirst : 'E' = c := (List.cons_prefix_cons.1 hPrefix).1
    rw [hTail, ← hFirst] at hStart
    exact absurd rfl hStart
  cases f with
  | noRule j tag =>
    exact hIndexed ("no rule registered for type '".toList ++
      (tag.toList ++ "'; it renders as nothing".toList)) (by simp [message])
  | unrecognized j =>
    exact hIndexed "unrecognized element shape; it renders as nothing".toList (by simp [message])
  | skippedEntries j n =>
    exact hIndexed (Nat.toDigits 10 n ++ " list entries are not text and render as nothing".toList)
      (by simp [message])
  | secondMarker j =>
    exact hIndexed "more than one config marker; only the first is used".toList (by simp [message])
  | notLoaded cause =>
    have hMessage : (notLoaded cause).message = cause.message := rfl
    cases cause with
    | yaml cause =>
      rw [LoadError.message_yaml] at hMessage
      exact hForeign (by decide) (by decide) hMessage
    | malformed place fault =>
      rw [LoadError.message_malformed, String.append_assoc, String.append_assoc] at hMessage
      exact hForeign (by decide) (by decide) hMessage
  | styleUnused => exact hForeign (by decide) (by decide) (String.append_empty).symm
  | noSubsections => exact hForeign (by decide) (by decide) (String.append_empty).symm
  | noElements => exact hForeign (by decide) (by decide) (String.append_empty).symm

/-- The findings that say of an element that it renders as nothing. -/
theorem saysNothing_iff {i : Nat} {f : Finding} :
    f.saysNothing i = true ↔ f = .unrecognized i ∨ ∃ tag, f = .noRule i tag := by
  rw [saysNothing, Bool.and_eq_true, Bool.and_eq_true, isAbout_iff, List.isSuffixOf_iff_suffix]
  cases f with
  | noRule j tag =>
    have hEnd : "; it renders as nothing".toList <:+ (noRule j tag).message.toList := by
      rw [message, String.toList_append]
      exact List.suffix_append_of_suffix ⟨['\''], by decide⟩
    rw [and_iff_left hEnd]
    simp [index?, code]
  | unrecognized j =>
    have hEnd : "; it renders as nothing".toList <:+ (unrecognized j).message.toList := by
      rw [message, String.toList_append]
      exact List.suffix_append_of_suffix ⟨": unrecognized element shape".toList, by decide⟩
    rw [and_iff_left hEnd]
    simp [index?, code]
  | skippedEntries j n =>
    have hEnd : ¬ "; it renders as nothing".toList <:+ (skippedEntries j n).message.toList := by
      rw [message, String.toList_append]
      intro h
      have hLast := List.suffix_of_suffix_length_le h (List.suffix_append _ _) (by decide)
      exact absurd hLast (by decide)
    exact ⟨fun h => absurd h.2 hEnd, fun h => by simp at h⟩
  | _ => simp [index?, code]

end Finding

/-! ### The findings on one element -/

theorem index_of_mem_decoration {d : Decoration} {f : Finding} (h : f ∈ d.findings) :
    f.index? = none := by
  rw [Decoration.findings] at h
  split at h
  · rw [List.mem_singleton.1 h]
    rfl
  · exact absurd h List.not_mem_nil

theorem index_of_mem_losses {rules : RuleSet} {k m : Nat} {e : Element} {f : Finding}
    (h : f ∈ e.losses rules k m) : f.index? = some k := by
  cases e with
  | marker _ | custom _ _ | list _ _ _ =>
    rw [Element.losses] at h
    split at h
    all_goals first | exact absurd h List.not_mem_nil | rw [List.mem_singleton.1 h]; rfl
  | unrecognized _ =>
    rw [List.mem_singleton.1 h]
    rfl
  | _ => exact absurd h List.not_mem_nil

/-- The findings on a list of elements start with some on the decoration of the first, which are
about no element, and its losses. -/
theorem elementFindings_cons (rules : RuleSet) (k m : Nat) (e : Element) (es : List Element) :
    ∃ own : List Finding, (∀ f ∈ own, f.index? = none) ∧
      elementFindings rules k m (e :: es) = own ++ (e.losses rules k m ++
        elementFindings rules (k + 1) (m + if e.marker?.isSome then 1 else 0) es) := by
  have hMarkers : (if e.marker?.isSome then m + 1 else m) =
      m + if e.marker?.isSome then 1 else 0 := by
    split <;> omega
  rw [elementFindings, hMarkers]
  cases e.decoration? with
  | some d => exact ⟨d.findings, fun f hf => index_of_mem_decoration hf, List.append_assoc _ _ _⟩
  | none => exact ⟨[], fun f hf => absurd hf List.not_mem_nil, List.append_assoc _ _ _⟩

theorem le_of_mem_elementFindings {rules : RuleSet} {es : List Element} {k m i : Nat} {f : Finding}
    (h : f ∈ elementFindings rules k m es) (hIndex : f.index? = some i) : k ≤ i := by
  induction es generalizing k m with
  | nil => exact absurd h List.not_mem_nil
  | cons e es ih =>
    obtain ⟨own, hOwn, hCons⟩ := elementFindings_cons rules k m e es
    rw [hCons, List.mem_append, List.mem_append] at h
    obtain h | h | h := h
    · rw [hOwn f h] at hIndex
      exact nomatch hIndex
    · rw [index_of_mem_losses h] at hIndex
      exact Nat.le_of_eq (Option.some.inj hIndex)
    · exact Nat.le_of_succ_le (ih h)

/-- Among the findings on the elements from `k` on, those about one element are its own losses. -/
theorem filter_elementFindings {rules : RuleSet} {es : List Element} {k m n : Nat} {e : Element}
    (h : es[n]? = some e) :
    (elementFindings rules k m es).filter (·.isAbout (k + n)) =
      e.losses rules (k + n) (m + (es.take n).countP (·.marker?.isSome)) := by
  induction es generalizing k m n with
  | nil => exact nomatch h
  | cons e' es ih =>
    obtain ⟨own, hOwn, hCons⟩ := elementFindings_cons rules k m e' es
    have hOwnNil : own.filter (·.isAbout (k + n)) = [] := by
      rw [List.filter_eq_nil_iff]
      intro f hf hAbout
      rw [Finding.isAbout_iff, hOwn f hf] at hAbout
      exact nomatch hAbout
    rw [hCons, List.filter_append, List.filter_append, hOwnNil, List.nil_append]
    -- The findings on later elements are about later indices, so only one part is left in each case.
    cases n with
    | zero =>
      cases h
      have hLosses : (e.losses rules k m).filter (·.isAbout (k + 0)) = e.losses rules k m := by
        rw [List.filter_eq_self]
        intro f hf
        exact Finding.isAbout_iff.2 (index_of_mem_losses hf)
      have hRest : (elementFindings rules (k + 1) (m + if e.marker?.isSome then 1 else 0) es).filter
          (·.isAbout (k + 0)) = [] := by
        rw [List.filter_eq_nil_iff]
        intro f hf hAbout
        have hLe := le_of_mem_elementFindings hf (Finding.isAbout_iff.1 hAbout)
        omega
      rw [hLosses, hRest, List.append_nil]
      rfl
    | succ n =>
      have hLosses : (e'.losses rules k m).filter (·.isAbout (k + (n + 1))) = [] := by
        rw [List.filter_eq_nil_iff]
        intro f hf hAbout
        rw [Finding.isAbout_iff, index_of_mem_losses hf, Option.some_inj] at hAbout
        omega
      have hIndex : k + (n + 1) = k + 1 + n := by omega
      rw [hLosses, List.nil_append, hIndex, ih (by simpa using h), List.take_succ_cons,
        List.countP_cons]
      congr 1
      omega

/-- The findings on a subsection that are about one element are the losses of that element. -/
theorem Subsection.filter_findings {rules : RuleSet} {s : Subsection} {i : Nat} {e : Element}
    (h : s.elements[i]? = some e) :
    (s.findings rules).filter (·.isAbout i) =
      e.losses rules i ((s.elements.take i).countP (·.marker?.isSome)) := by
  have hFilled : s.elements.isEmpty = false := by
    rw [List.isEmpty_eq_false_iff]
    intro hNil
    rw [hNil] at h
    exact nomatch h
  have hAll : (elementFindings rules 0 0 s.elements).filter (·.isAbout (0 + i)) = _ :=
    filter_elementFindings h
  rw [Nat.zero_add, Nat.zero_add] at hAll
  rw [findings, hFilled]
  exact hAll

/-! ### Agreement with the markup -/

theorem wrap_ne_empty {content tag : String} {classes : List String}
    {attributes : List (String × String)} : wrap content tag classes attributes ≠ "" := by
  intro h
  have hChars := congrArg String.toList h
  simp [wrap] at hChars

/-- Whether an element has a type for which a rule is registered. -/
def Element.hasRule (rules : RuleSet) : Element → Bool
  | custom tag _ => rules.contains tag
  | _ => false

theorem Element.countP_losses {rules : RuleSet} {i m : Nat} {e : Element} :
    (e.losses rules i m).countP (·.saysNothing i) =
      if e.marker?.isSome || e.hasRule rules then 0
      else if e.render rules = "" then 1 else 0 := by
  cases e with
  | scalar _ | text _ _ _ | image _ _ =>
    rw [losses, render, if_neg wrap_ne_empty]
    rfl
  | list entries skipped d =>
    have hQuiet : (Finding.skippedEntries i skipped).saysNothing i = false := by
      rw [Bool.eq_false_iff, ne_eq, Finding.saysNothing_iff]
      simp
    rw [losses, render, if_neg wrap_ne_empty]
    split
    · rw [List.countP_singleton, hQuiet]
      rfl
    · rfl
  | marker d =>
    have hQuiet : (Finding.secondMarker i).saysNothing i = false := by
      rw [Bool.eq_false_iff, ne_eq, Finding.saysNothing_iff]
      simp
    rw [losses]
    split
    · rw [List.countP_singleton, hQuiet]
      rfl
    · rfl
  | unrecognized v =>
    have hLoud : (Finding.unrecognized i).saysNothing i = true :=
      Finding.saysNothing_iff.2 (.inl rfl)
    rw [losses, List.countP_singleton, hLoud]
    rfl
  | custom tag v =>
    have hLoud : (Finding.noRule i tag).saysNothing i = true :=
      Finding.saysNothing_iff.2 (.inr ⟨tag, rfl⟩)
    rw [losses, hasRule, render]
    cases hRule : rules.get? tag with
    | some rule => simp [Dictionary.contains, hRule]
    | none => simp [Dictionary.contains, hRule, hLoud, marker?]

theorem infix_flatMap {α β : Type} {f : α → List β} {a : α} {as : List α} (h : a ∈ as) :
    f a <:+: as.flatMap f :=
  List.infix_of_mem_flatten (List.mem_map_of_mem h)

/-- The diagnostics of a subsection stand together among those of its deck. -/
theorem Deck.SubsectionAt.diagnostics_infix {d : Deck} {place : String} {s : Subsection}
    (hs : d.SubsectionAt place s) (rules : RuleSet) :
    s.diagnostics rules place <:+: d.diagnostics rules := by
  cases hs with
  | flat h => exact infix_flatMap (f := fun part => part.2.diagnostics rules part.1) h
  | @part name sub decoration parts s h hPart =>
    have hSection : (Section.divided decoration parts).diagnostics rules name <:+:
        d.diagnostics rules := infix_flatMap (f := fun part => part.2.diagnostics rules part.1) h
    have hSub : s.diagnostics rules (name ++ "." ++ sub) <:+:
        parts.flatMap fun part => part.2.diagnostics rules (name ++ "." ++ part.1) :=
      infix_flatMap (f := fun part => part.2.diagnostics rules (name ++ "." ++ part.1)) hPart
    exact (hSub.trans (List.suffix_append _ _).isInfix).trans hSection

/-- What the diagnostics of a subsection say about an element is what its markup shows. -/
theorem Deck.diagnostics_agree_with_render {v : Value} {d : Deck} {place : String} {s : Subsection}
    (hd : Deck.ofValue v = .ok d) (hs : d.SubsectionAt place s) (rules : RuleSet) :
    s.diagnostics rules place <:+: d.diagnostics rules ∧
    ∃ items, ItemsAt v place items ∧ s.elements = items.map Element.ofValue ∧
      ∀ i e, s.elements[i]? = some e →
        (s.diagnostics rules place).countP (·.finding.saysNothing i) =
          (if e.marker?.isSome || e.hasRule rules then 0
            else if e.render rules = "" then 1 else 0) ∧
        ∀ entries skipped decoration, e = .list entries skipped decoration →
          ∃ (m : Mapping) (contents : List Value) (n : Nat), items[i]? = some (.mapping m) ∧
            m.field? "type" = some (.string "ul") ∧
            m.field? "contents" = some (.list contents) ∧
            e.render rules = wrap (lines (entries.map item)) "ul" decoration.classes [] ∧
            (s.diagnostics rules place).filter (·.finding.isAbout i) =
              (if n = 0 then [] else [⟨place, .skippedEntries i n⟩]) ∧
            entries.length + n = contents.length := by
  obtain ⟨items, hItems, hElements⟩ := hs.items hd
  refine ⟨hs.diagnostics_infix rules, items, hItems, hElements, fun i e he => ⟨?_, ?_⟩⟩
  · have hAbout : ∀ f : Finding, f.saysNothing i = (f.saysNothing i && f.isAbout i) := by
      intro f
      rw [Finding.saysNothing]
      cases f.isAbout i <;> simp
    calc (s.diagnostics rules place).countP (·.finding.saysNothing i)
      _ = (s.findings rules).countP (·.saysNothing i) := by
          rw [Subsection.diagnostics, List.countP_map]
          rfl
      _ = ((s.findings rules).filter (·.isAbout i)).countP (·.saysNothing i) := by
          rw [List.countP_filter]
          exact List.countP_congr fun f _ => by rw [← hAbout f]
      _ = _ := by rw [Subsection.filter_findings he, Element.countP_losses]
  · rintro entries skipped decoration rfl
    rw [hElements, List.getElem?_map, Option.map_eq_some_iff] at he
    obtain ⟨w, hw, hOf⟩ := he
    obtain ⟨m, contents, rfl, hType, hContents, -, hLength⟩ := Element.ofValue_eq_list hOf
    refine ⟨m, contents, skipped, hw, hType, hContents, rfl, ?_, hLength⟩
    have hElement : s.elements[i]? = some (.list entries skipped decoration) := by
      rw [hElements, List.getElem?_map, hw, ← hOf]
      rfl
    have hLosses : (s.findings rules).filter (·.isAbout i) = _ :=
      Subsection.filter_findings hElement
    have hMap : (s.diagnostics rules place).filter (·.finding.isAbout i) =
        ((s.findings rules).filter (·.isAbout i)).map (Diagnostic.mk place) := by
      rw [Subsection.diagnostics, List.filter_map]
      rfl
    rw [hMap, hLosses, Element.losses]
    by_cases hZero : skipped = 0
    · rw [if_neg (by omega), if_pos hZero]
      rfl
    · rw [if_pos (by omega), if_neg hZero]
      rfl

/-- A section with a list that shows one of its two entries, and an element without a meaning. -/
def partlyShown : Value :=
  .mapping [(.string "s", .list [
    .mapping [(.string "type", .string "ul"),
      (.string "contents", .list [.string "a", .list []])],
    .list []])]

theorem Deck.diagnostics_agree_with_render_partlyShown :
    ∃ (d : Deck) (s : Subsection) (e : Element), Deck.ofValue partlyShown = .ok d ∧
      d.SubsectionAt "s" s ∧ s.elements[1]? = some e ∧ e.render .empty = "" ∧
      (s.diagnostics .empty "s").countP (·.finding.saysNothing 1) = 1 := by
  have hd : Deck.ofValue partlyShown = .ok ⟨[("s", .flat ⟨[.list ["a"] 1 {},
      .unrecognized (.list [])]⟩)]⟩ := by rfl
  have hs := Deck.SubsectionAt.flat (d := ⟨[("s", .flat ⟨[.list ["a"] 1 {},
      .unrecognized (.list [])]⟩)]⟩) (List.mem_singleton_self _)
  obtain ⟨-, items, -, -, hElements⟩ := diagnostics_agree_with_render hd hs .empty
  exact ⟨_, _, _, hd, hs, rfl, rfl, (hElements 1 _ rfl).1⟩

end Slideshow
