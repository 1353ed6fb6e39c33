import Mathlib.Data.List.Basic
import Mathlib.Data.List.Forall2
import Slideshow.Proofs.Text.Occurrence
import Slideshow.Rule.Template

/-! Templates in writing: literals with their braces doubled, and fields in braces. A template reads
as the segments that it was written from, so it renders them whatever braces their texts hold. -/

namespace Slideshow

open Yaml (Value Mapping)

/-! ### White space -/

/-- No white space stands at the ends of a text. -/
def Text.IsTrimmed (cs : List Char) : Prop :=
  (∀ c, cs.head? = some c → isBlank c = false) ∧ ∀ c, cs.getLast? = some c → isBlank c = false

theorem Text.dropWhile_isBlank {cs : List Char} (h : ∀ c, cs.head? = some c → isBlank c = false) :
    cs.dropWhile isBlank = cs := by
  cases cs with
  | nil => rfl
  | cons c cs => rw [List.dropWhile_cons_of_neg (by simp [h c rfl])]

theorem Text.trim_eq_self {cs : List Char} (h : IsTrimmed cs) : trim cs = cs := by
  have hEnd : cs.reverse.dropWhile isBlank = cs.reverse :=
    dropWhile_isBlank fun c hc => h.2 c (by simpa using hc)
  rw [trim, dropWhile_isBlank h.1, hEnd, List.reverse_reverse]

namespace Template

/-! ### Writing -/

/-- A character of a literal in writing. -/
def writeChar (c : Char) : List Char := if c = opening ∨ c = closing then [c, c] else [c]

def Segment.write : Segment → List Char
  | literal text => text.toList.flatMap writeChar
  | field name => opening :: (name.toList ++ [closing])

/-- Segments in writing. -/
def write (segments : List Segment) : String := String.ofList (segments.flatMap Segment.write)

/-- A text that stands for itself between the braces of a field. -/
structure IsFieldName (name : String) : Prop where
  closed : closing ∉ name.toList
  start : name.toList.head? ≠ some opening
  trimmed : Text.IsTrimmed name.toList

/-- No literal is empty, and no two literals are adjacent. -/
inductive IsJoined : List Segment → Prop
  | nil : IsJoined []
  | field {name : String} {rest : List Segment} : IsJoined rest → IsJoined (.field name :: rest)
  | literal {text : String} {rest : List Segment} : text ≠ "" →
      (∀ other, rest.head? ≠ some (.literal other)) → IsJoined rest →
      IsJoined (.literal text :: rest)

/-- Joined segments, in which the names of all fields stand for themselves. -/
structure IsNormal (segments : List Segment) : Prop where
  joined : IsJoined segments
  named : ∀ name, .field name ∈ segments → IsFieldName name

/-! ### Tokens -/

variable {c : Char} {raw rest : List Char}

theorem scan_openingPair (rest : List Char) :
    scan (opening :: opening :: rest) = .openingPair :: scan rest := by
  rw [scan]
  simp

theorem scan_closingPair (rest : List Char) :
    scan (closing :: closing :: rest) = .closingPair :: scan rest := by
  have hne : closing ≠ opening := by decide
  rw [scan, if_neg hne]
  simp

theorem scan_char (hOpening : c ≠ opening) (hClosing : c ≠ closing) :
    scan (c :: rest) = .char c :: scan rest := by
  rw [scan, if_neg hOpening, if_neg fun h => hClosing h.1]

theorem head?_ne_opening (hStart : raw.head? ≠ some opening) :
    (raw ++ closing :: rest).head? ≠ some opening := by
  cases raw with
  | nil => simp [opening, closing]
  | cons c raw => simpa using hStart

/-- What follows an opening brace up to the first closing one is a hole, unless it starts with another
opening brace. -/
theorem scan_hole (hClosed : closing ∉ raw) (hStart : raw.head? ≠ some opening) :
    scan (opening :: (raw ++ closing :: rest)) = .hole raw :: scan rest := by
  rw [scan, if_pos rfl, if_neg (head?_ne_opening hStart), if_pos (by simp), Text.takeWhile_ne hClosed]
  simp

/-! ### Segments -/

theorem prepend_nil (segments : List Segment) : prepend [] segments = segments := by
  cases segments with
  | nil => rfl
  | cons segment segments => cases segment <;> simp [prepend]

/-- Text is put in front of segments piece by piece. -/
theorem prepend_append (first second : List Char) (segments : List Segment) :
    prepend (first ++ second) segments = prepend first (prepend second segments) := by
  rcases segments with _ | ⟨text | name, segments⟩
  · cases second <;> simp [prepend]
  · simp [prepend, String.append_assoc]
  · cases second <;> simp [prepend]

/-- Segments that do not start with a literal are behind the text that is put in front of them. -/
theorem prepend_of_head {text : String} {segments : List Segment} (hText : text ≠ "")
    (hHead : ∀ other, segments.head? ≠ some (.literal other)) :
    prepend text.toList segments = .literal text :: segments := by
  rcases segments with _ | ⟨other | name, segments⟩
  · simp [prepend, hText]
  · exact absurd rfl (hHead other)
  · simp [prepend, hText]

/-- A literal in writing reads as its text, whatever comes behind it. -/
theorem meaning_scan_literal (cs rest : List Char) :
    meaning (scan (cs.flatMap writeChar ++ rest)) = prepend cs (meaning (scan rest)) := by
  induction cs with
  | nil => exact (prepend_nil _).symm
  | cons c cs ih =>
    have hFirst : meaning (scan (writeChar c ++ (cs.flatMap writeChar ++ rest))) =
        prepend [c] (meaning (scan (cs.flatMap writeChar ++ rest))) := by
      by_cases hOpening : c = opening
      · subst hOpening
        exact congrArg meaning (scan_openingPair _)
      by_cases hClosing : c = closing
      · subst hClosing
        exact congrArg meaning (scan_closingPair _)
      · rw [writeChar, if_neg (by simp [hOpening, hClosing])]
        exact congrArg meaning (scan_char hOpening hClosing)
    rw [List.flatMap_cons, List.append_assoc, hFirst, ih, ← prepend_append, List.singleton_append]

/-- Segments in writing read as themselves. -/
theorem parse_write {segments : List Segment} (h : IsNormal segments) :
    parse (write segments) = ⟨segments⟩ := by
  obtain ⟨hJoined, hNamed⟩ := h
  rw [parse, write, String.toList_ofList, mk.injEq]
  induction hJoined with
  | nil => simp [scan, meaning]
  | @field name rest _ ih =>
    have hName : IsFieldName name := hNamed name List.mem_cons_self
    have hField : (Segment.field name).write ++ rest.flatMap Segment.write =
        opening :: (name.toList ++ closing :: rest.flatMap Segment.write) := by
      simp [Segment.write]
    rw [List.flatMap_cons, hField, scan_hole hName.closed hName.start, meaning,
      Text.trim_eq_self hName.trimmed, String.ofList_toList,
      ih fun other hOther => hNamed other (List.mem_cons_of_mem _ hOther)]
  | @literal text rest hText hHead _ ih =>
    rw [List.flatMap_cons, Segment.write, meaning_scan_literal,
      ih fun other hOther => hNamed other (List.mem_cons_of_mem _ hOther),
      prepend_of_head hText hHead]

/-! ### Rendering -/

/-- The text that stands for a segment in the markup of an element: that of a literal, or the scalar
under the name of a field in the mapping of the element, or nothing. -/
inductive Fills (element : Value) : Segment → String → Prop
  | literal (text : String) : Fills element (.literal text) text
  | field {name text : String} {es : Mapping} {v : Value} : element.untag = .mapping es →
      es.field? name = some v → v.scalarText? = some text → Fills element (.field name) text
  | missing {name : String} : (∀ (es : Mapping) (v : Value), element.untag = .mapping es →
      es.field? name = some v → v.scalarText? = none) → Fills element (.field name) ""

theorem Fills.render_eq {element : Value} {segment : Segment} {text : String}
    (h : Fills element segment text) : segment.render element = text := by
  rcases h with _ | ⟨hElement, hField, hText⟩ | hMissing
  · rfl
  · simp [Segment.render, fieldText, hElement, hField, hText]
  · rename_i name
    rw [Segment.render, fieldText]
    split
    · rename_i es hElement
      cases hField : Mapping.field? es name with
      | none => rfl
      | some v => simp [hMissing es v hElement hField]
    · rfl

theorem exists_fills (element : Value) (segment : Segment) : ∃ text, Fills element segment text := by
  cases segment with
  | literal text => exact ⟨text, .literal text⟩
  | field name =>
    by_cases h : ∃ (es : Mapping) (v : Value) (text : String), element.untag = .mapping es ∧
        es.field? name = some v ∧ v.scalarText? = some text
    · obtain ⟨es, v, text, hElement, hField, hText⟩ := h
      exact ⟨text, .field hElement hField hText⟩
    · refine ⟨"", .missing fun es v hElement hField => ?_⟩
      exact Option.eq_none_iff_forall_ne_some.2 fun text hText =>
        h ⟨es, v, text, hElement, hField, hText⟩

theorem fills_iff {element : Value} {segment : Segment} {text : String} :
    Fills element segment text ↔ segment.render element = text := by
  refine ⟨Fills.render_eq, fun h => ?_⟩
  obtain ⟨found, hFound⟩ := exists_fills element segment
  rwa [← h, hFound.render_eq]

/-- A template reads as the segments that it was written from, and the markup that it gives an element
is the texts for these segments behind one another. -/
theorem reads_as_written {segments : List Segment} (h : IsNormal segments) :
    parse (write segments) = ⟨segments⟩ ∧
    ∀ (element : Value) (markup : String), (parse (write segments)).render element = markup ↔
      ∃ texts, List.Forall₂ (Fills element) segments texts ∧ String.join texts = markup := by
  refine ⟨parse_write h, fun element markup => ?_⟩
  have hTexts (texts : List String) :
      List.Forall₂ (Fills element) segments texts ↔ segments.map (·.render element) = texts := by
    rw [← List.forall₂_eq_eq_eq, List.forall₂_map_left_iff]
    exact ⟨fun h => h.imp fun _ _ => fills_iff.1, fun h => h.imp fun _ _ => fills_iff.2⟩
  simp only [hTexts, exists_eq_left', parse_write h, render]

/-- A literal brace in front of a field and one right behind it. -/
def braced : List Segment := [.literal "\x7b", .field "x", .literal "\x7d", .field "y"]

/-- The fields of an element below a tag: a text with braces, and no scalar. -/
def bracedFields : Mapping := [(.string "x", .string "\x7d\x7b"), (.string "y", .null)]

theorem reads_as_written_braced :
    IsNormal braced ∧ write braced = "\x7b\x7b\x7bx\x7d\x7d\x7d\x7by\x7d" ∧
    parse "\x7b\x7b\x7bx\x7d\x7d\x7d\x7by\x7d" = ⟨braced⟩ ∧
    (parse (write braced)).render (.tagged "t" (.mapping bracedFields)) = "\x7b\x7d\x7b\x7d" := by
  have hX : IsFieldName "x" :=
    ⟨by decide, by decide, by simp [Text.IsTrimmed, Text.isBlank]⟩
  have hY : IsFieldName "y" :=
    ⟨by decide, by decide, by simp [Text.IsTrimmed, Text.isBlank]⟩
  have hJoined : IsJoined braced :=
    .literal (by decide) (by simp) (.field (.literal (by decide) (by simp) (.field .nil)))
  have hNormal : IsNormal braced := ⟨hJoined, by simp [braced, hX, hY]⟩
  have hWrite : write braced = "\x7b\x7b\x7bx\x7d\x7d\x7d\x7by\x7d" := by decide
  have hFirst : Fills (.tagged "t" (.mapping bracedFields)) (.field "x") "\x7d\x7b" :=
    @Fills.field _ _ _ bracedFields _ rfl rfl rfl
  have hSecond : Fills (.tagged "t" (.mapping bracedFields)) (.field "y") "" := by
    refine .missing fun es v hElement hField => ?_
    cases hElement
    have hNull : bracedFields.field? "y" = some .null := by rfl
    cases hNull.symm.trans hField
    rfl
  obtain ⟨hParse, hRender⟩ := reads_as_written hNormal
  exact ⟨hNormal, hWrite, hWrite ▸ hParse, (hRender _ _).2
    ⟨_, .cons (.literal _) (.cons hFirst (.cons (.literal _) (.cons hSecond .nil))), rfl⟩⟩

end Template

end Slideshow
