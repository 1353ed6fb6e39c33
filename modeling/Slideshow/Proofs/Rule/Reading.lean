import Slideshow.Proofs.Rule.Template
import Slideshow.Proofs.Text.Slice

/-! Templates as they are read: every text is a row of tokens in one way only, and a reader that cuts the
text at offsets in bytes, one token in each turn, never cuts a character, comes to an end, and finds the
segments that the tokens stand for, with adjacent literal text joined. -/

namespace Slideshow.Template

open String (utf8Len)

/-! ### Tokens -/

/-- A text is a row of tokens, from left to right. A closing brace alone is a character like others, an
opening one is not. -/
inductive Decomposes : List Char → List Token → Prop
  | nil : Decomposes [] []
  | openingPair {rest : List Char} {tokens : List Token} : Decomposes rest tokens →
      Decomposes (opening :: opening :: rest) (.openingPair :: tokens)
  | closingPair {rest : List Char} {tokens : List Token} : Decomposes rest tokens →
      Decomposes (closing :: closing :: rest) (.closingPair :: tokens)
  | hole {raw rest : List Char} {tokens : List Token} : closing ∉ raw → raw.head? ≠ some opening →
      Decomposes rest tokens → Decomposes (opening :: (raw ++ closing :: rest)) (.hole raw :: tokens)
  | char {c : Char} {rest : List Char} {tokens : List Token} : c ≠ opening →
      ¬ (c = closing ∧ rest.head? = some closing) → Decomposes rest tokens →
      Decomposes (c :: rest) (.char c :: tokens)
  | tail {rest : List Char} : rest.head? ≠ some opening → closing ∉ rest →
      Decomposes (opening :: rest) [.tail (opening :: rest)]

/-- The characters that a token is made of. -/
def Token.chars : Token → List Char
  | openingPair => [opening, opening]
  | closingPair => [closing, closing]
  | hole raw => opening :: (raw ++ [closing])
  | char c => [c]
  | tail text => text

variable {cs : List Char} {tokens : List Token}

theorem Decomposes.chars (h : Decomposes cs tokens) : tokens.flatMap Token.chars = cs := by
  induction h with
  | nil => rfl
  | openingPair _ ih => simp [Token.chars, ih]
  | closingPair _ ih => simp [Token.chars, ih]
  | hole _ _ _ ih => simp [Token.chars, ih]
  | char _ _ _ ih => simp [Token.chars, ih]
  | tail _ _ => simp [Token.chars]

theorem Decomposes.scan_eq (h : Decomposes cs tokens) : scan cs = tokens := by
  induction h with
  | nil => simp [scan]
  | openingPair _ ih => rw [scan_openingPair, ih]
  | closingPair _ ih => rw [scan_closingPair, ih]
  | hole hClosed hStart _ ih => rw [scan_hole hClosed hStart, ih]
  | char hOpening hPair _ ih => rw [scan, if_neg hOpening, if_neg hPair, ih]
  | tail hStart hClosed => rw [scan, if_pos rfl, if_neg hStart, if_neg hClosed]

theorem decomposes_scan (cs : List Char) : Decomposes cs (scan cs) := by
  induction cs using scan.induct with
  | case1 =>
    rw [scan]
    exact .nil
  | case2 rest hStart ih =>
    obtain ⟨rest, rfl⟩ := List.head?_eq_some_iff.1 hStart
    rw [scan_openingPair]
    exact .openingPair ih
  | case3 rest hStart hClosed raw ih =>
    obtain ⟨before, after, rfl, hBefore⟩ := List.eq_append_cons_of_mem hClosed
    have hRaw : raw = before := Text.takeWhile_ne hBefore after
    have hHead : before.head? ≠ some opening := by
      cases before with
      | nil => simp
      | cons c before => simpa using hStart
    rw [hRaw] at ih
    rw [scan_hole hBefore hHead]
    exact .hole hBefore hHead (by simpa using ih)
  | case4 rest hStart hClosed =>
    rw [scan, if_pos rfl, if_neg hStart, if_neg hClosed]
    exact .tail hStart hClosed
  | case5 c rest hOpening hPair ih =>
    obtain ⟨rfl, hHead⟩ := hPair
    obtain ⟨rest, rfl⟩ := List.head?_eq_some_iff.1 hHead
    rw [scan_closingPair]
    exact .closingPair ih
  | case6 c rest hOpening hPair ih =>
    rw [scan, if_neg hOpening, if_neg hPair]
    exact .char hOpening hPair ih

theorem decomposes_iff : Decomposes cs tokens ↔ tokens = scan cs :=
  ⟨fun h => h.scan_eq.symm, fun h => h ▸ decomposes_scan cs⟩

/-! ### Segments -/

/-- What segments consist of: characters of literal text, and fields. -/
inductive Piece
  | char (c : Char)
  | field (name : String)

/-- What a token stands for. White space around the name of a field does not count. -/
def Token.pieces : Token → List Piece
  | openingPair => [.char opening]
  | closingPair => [.char closing]
  | hole raw => [.field (String.ofList (Text.trim raw))]
  | char c => [.char c]
  | tail text => text.map .char

def Segment.pieces : Segment → List Piece
  | literal text => text.toList.map .char
  | field name => [.field name]

/-- The segments that consist of pieces. -/
def join : List Piece → List Segment
  | [] => []
  | .char c :: pieces => prepend [c] (join pieces)
  | .field name :: pieces => .field name :: join pieces

variable {segments : List Segment}

theorem join_chars (text : List Char) (pieces : List Piece) :
    join (text.map .char ++ pieces) = prepend text (join pieces) := by
  induction text with
  | nil => exact (prepend_nil _).symm
  | cons c text ih => rw [List.map_cons, List.cons_append, join, ih, ← prepend_append,
      List.singleton_append]

theorem IsJoined.prepend (h : IsJoined segments) (text : List Char) :
    IsJoined (prepend text segments) := by
  by_cases hText : text = []
  · rwa [hText, prepend_nil]
  have hFilled : String.ofList text ≠ "" := by simpa using hText
  cases h with
  | literal _ hApart hRest => exact .literal (by simp [hText]) hApart hRest
  | nil =>
    have hApart : ∀ other, ([] : List Segment).head? ≠ some (.literal other) := by simp
    have hAlone := prepend_of_head hFilled hApart
    rw [String.toList_ofList] at hAlone
    exact hAlone ▸ .literal hFilled hApart .nil
  | @field name rest hRest =>
    have hApart : ∀ other, (.field name :: rest).head? ≠ some (.literal other) := by simp
    have hFront := prepend_of_head hFilled hApart
    rw [String.toList_ofList] at hFront
    exact hFront ▸ .literal hFilled hApart (.field hRest)

theorem isJoined_join (pieces : List Piece) : IsJoined (join pieces) := by
  induction pieces with
  | nil => exact .nil
  | cons piece pieces ih =>
    cases piece with
    | char c => exact ih.prepend [c]
    | field name => exact .field ih

theorem pieces_prepend (text : List Char) (segments : List Segment) :
    (prepend text segments).flatMap Segment.pieces =
      text.map .char ++ segments.flatMap Segment.pieces := by
  rcases segments with _ | ⟨literal | name, segments⟩
  · cases text <;> simp [prepend, Segment.pieces]
  · simp [prepend, Segment.pieces]
  · cases text <;> simp [prepend, Segment.pieces]

theorem pieces_join (pieces : List Piece) : (join pieces).flatMap Segment.pieces = pieces := by
  induction pieces with
  | nil => rfl
  | cons piece pieces ih =>
    cases piece with
    | char c => rw [join, pieces_prepend, ih, List.map_singleton, List.singleton_append]
    | field name => rw [join, List.flatMap_cons, ih, Segment.pieces, List.singleton_append]

/-- Joined segments are known by their pieces. -/
theorem IsJoined.join_pieces (h : IsJoined segments) :
    join (segments.flatMap Segment.pieces) = segments := by
  induction h with
  | nil => rfl
  | field _ ih => rw [List.flatMap_cons, Segment.pieces, List.singleton_append, join, ih]
  | literal hFilled hApart _ ih =>
    rw [List.flatMap_cons, Segment.pieces, join_chars, ih, prepend_of_head hFilled hApart]

theorem meaning_eq_join (tokens : List Token) :
    meaning tokens = join (tokens.flatMap Token.pieces) := by
  induction tokens with
  | nil => rfl
  | cons token tokens ih =>
    rw [List.flatMap_cons]
    cases token with
    | tail text => rw [meaning, Token.pieces, join_chars, ih]
    | _ => rw [meaning, ih]; rfl

/-! ### Turns -/

/-- A template while it is read: what is left of it, the literal text since the last field, and the
segments in front of that. -/
structure Reading where
  rest : String
  literal : String
  segments : List Segment

namespace Reading

def start (text : String) : Reading := ⟨text, "", []⟩

/-- The segments with the literal text behind them, if there is some. -/
def found (r : Reading) : List Segment :=
  if r.literal = "" then r.segments else r.segments ++ [.literal r.literal]

/-- One turn, in front of the character `c`. There is no next reading if the reader takes a part of the
text that does not exist. -/
def turn? (r : Reading) (c : Char) : Option Reading :=
  if [opening, opening] <+: r.rest.toList then
    return ⟨← Text.sliceFrom? r.rest 2, r.literal.push opening, r.segments⟩
  else if [closing, closing] <+: r.rest.toList then
    return ⟨← Text.sliceFrom? r.rest 2, r.literal.push closing, r.segments⟩
  else if c = opening then do
    let inside ← Text.sliceFrom? r.rest 1
    match Text.offset? closing inside with
    | some stop =>
      let raw ← Text.slice? r.rest 1 (stop + 1)
      let rest ← Text.sliceFrom? r.rest (stop + 2)
      return ⟨rest, "", r.found ++ [.field (String.ofList (Text.trim raw.toList))]⟩
    | none => return ⟨"", r.literal ++ r.rest, r.segments⟩
  else return ⟨← Text.sliceFrom? r.rest c.utf8Size, r.literal.push c, r.segments⟩

/-- The reader comes to the end of the text and has found segments. -/
inductive Ends : Reading → List Segment → Prop
  | done {literal : String} {segments : List Segment} :
      Ends ⟨"", literal, segments⟩ (found ⟨"", literal, segments⟩)
  | turn {r next : Reading} {c : Char} {result : List Segment} : r.rest.toList.head? = some c →
      r.turn? c = some next → Ends next result → Ends r result

variable {literal : String} {raw rest : List Char} {c : Char}

theorem pair_prefix_iff {a b : Char} : [a, b] <+: c :: rest ↔ a = c ∧ rest.head? = some b := by
  rw [List.cons_prefix_cons]
  cases rest with
  | nil => simp
  | cons d rest => simp [eq_comm]

theorem turn?_openingPair (rest : List Char) :
    (⟨String.ofList (opening :: opening :: rest), literal, segments⟩ : Reading).turn? opening =
      some ⟨String.ofList rest, literal.push opening, segments⟩ := by
  have hRest : Text.sliceFrom? (String.ofList (opening :: opening :: rest)) 2 =
      some (String.ofList rest) := Text.sliceFrom?_ofList [opening, opening] rest
  rw [turn?, String.toList_ofList, if_pos (pair_prefix_iff.2 ⟨rfl, rfl⟩), hRest]
  rfl

theorem turn?_closingPair (rest : List Char) :
    (⟨String.ofList (closing :: closing :: rest), literal, segments⟩ : Reading).turn? closing =
      some ⟨String.ofList rest, literal.push closing, segments⟩ := by
  have hRest : Text.sliceFrom? (String.ofList (closing :: closing :: rest)) 2 =
      some (String.ofList rest) := Text.sliceFrom?_ofList [closing, closing] rest
  have hOpening : ¬ [opening, opening] <+: closing :: closing :: rest := fun h =>
    absurd (pair_prefix_iff.1 h).1 (by decide)
  rw [turn?, String.toList_ofList, if_neg hOpening, if_pos (pair_prefix_iff.2 ⟨rfl, rfl⟩), hRest]
  rfl

theorem turn?_char (hOpening : c ≠ opening) (hPair : ¬ (c = closing ∧ rest.head? = some closing)) :
    (⟨String.ofList (c :: rest), literal, segments⟩ : Reading).turn? c =
      some ⟨String.ofList rest, literal.push c, segments⟩ := by
  have hRest : Text.sliceFrom? (String.ofList (c :: rest)) c.utf8Size =
      some (String.ofList rest) := by
    have hPart := Text.sliceFrom?_ofList [c] rest
    rwa [String.utf8Len_cons, String.utf8Len_nil, Nat.zero_add] at hPart
  have hFirst : ¬ [opening, opening] <+: c :: rest := fun h =>
    hOpening (pair_prefix_iff.1 h).1.symm
  have hSecond : ¬ [closing, closing] <+: c :: rest := fun h =>
    hPair ((pair_prefix_iff.1 h).imp_left Eq.symm)
  rw [turn?, String.toList_ofList, if_neg hFirst, if_neg hSecond, if_neg hOpening, hRest]
  rfl

/-- In front of an opening brace alone, the reader looks for a closing one behind it. -/
theorem turn?_opening (hStart : rest.head? ≠ some opening) :
    (⟨String.ofList (opening :: rest), literal, segments⟩ : Reading).turn? opening =
      match Text.offset? closing (String.ofList rest) with
      | some stop => do
        let raw ← Text.slice? (String.ofList (opening :: rest)) 1 (stop + 1)
        let rest ← Text.sliceFrom? (String.ofList (opening :: rest)) (stop + 2)
        return ⟨rest, "", found ⟨"", literal, segments⟩ ++
          [.field (String.ofList (Text.trim raw.toList))]⟩
      | none => some ⟨"", literal ++ String.ofList (opening :: rest), segments⟩ := by
  have hInside : Text.sliceFrom? (String.ofList (opening :: rest)) 1 =
      some (String.ofList rest) := Text.sliceFrom?_ofList [opening] rest
  have hFirst : ¬ [opening, opening] <+: opening :: rest := fun h =>
    hStart (pair_prefix_iff.1 h).2
  have hSecond : ¬ [closing, closing] <+: opening :: rest := fun h =>
    absurd (pair_prefix_iff.1 h).1 (by decide)
  rw [turn?, String.toList_ofList, if_neg hFirst, if_neg hSecond, if_pos rfl, hInside]
  rfl

theorem turn?_hole (hClosed : closing ∉ raw) (hStart : raw.head? ≠ some opening) :
    (⟨String.ofList (opening :: (raw ++ closing :: rest)), literal, segments⟩ : Reading).turn?
      opening = some ⟨String.ofList rest, "", found ⟨"", literal, segments⟩ ++
        [.field (String.ofList (Text.trim raw))]⟩ := by
  have hRaw : Text.slice? (String.ofList (opening :: (raw ++ closing :: rest))) 1
      (utf8Len raw + 1) = some (String.ofList raw) := by
    rw [Nat.add_comm]
    exact Text.slice?_ofList [opening] raw (closing :: rest)
  have hRest : Text.sliceFrom? (String.ofList (opening :: (raw ++ closing :: rest)))
      (utf8Len raw + 2) = some (String.ofList rest) := by
    have hPart := Text.sliceFrom?_ofList (opening :: raw ++ [closing]) rest
    have hSize : utf8Len (opening :: raw ++ [closing]) = utf8Len raw + 2 := by
      rw [String.utf8Len_append, String.utf8Len_cons]
      rfl
    rwa [hSize, List.append_assoc] at hPart
  rw [turn?_opening (head?_ne_opening hStart), Text.offset?_of_mem rest hClosed]
  simp only [hRaw, hRest, Option.bind_eq_bind, Option.bind_some, String.toList_ofList]
  rfl

theorem turn?_tail (hStart : rest.head? ≠ some opening) (hClosed : closing ∉ rest) :
    (⟨String.ofList (opening :: rest), literal, segments⟩ : Reading).turn? opening =
      some ⟨"", literal ++ String.ofList (opening :: rest), segments⟩ := by
  rw [turn?_opening hStart, Text.offset?_of_not_mem hClosed]

theorem found_append (r : Reading) {more : List Segment}
    (hHead : ∀ other, more.head? ≠ some (.literal other)) :
    r.found ++ more = r.segments ++ prepend r.literal.toList more := by
  rw [found]
  split
  · rename_i hNone
    rw [hNone, String.toList_empty, prepend_nil]
  · rename_i hSome
    rw [prepend_of_head hSome hHead, List.append_assoc, List.singleton_append]

theorem ends_done (literal : String) (segments : List Segment) :
    (⟨"", literal, segments⟩ : Reading).Ends (segments ++ prepend literal.toList []) := by
  have hApart : ∀ other, ([] : List Segment).head? ≠ some (.literal other) := by simp
  rw [← found_append ⟨"", literal, segments⟩ hApart, List.append_nil]
  exact .done

/-- A row of tokens is read in one turn for each token. -/
theorem ends_of_decomposes (h : Decomposes cs tokens) (literal : String) (segments : List Segment) :
    (⟨String.ofList cs, literal, segments⟩ : Reading).Ends
      (segments ++ prepend literal.toList (meaning tokens)) := by
  induction h generalizing literal segments with
  | nil => exact ends_done literal segments
  | openingPair _ ih =>
    refine .turn (by simp) (turn?_openingPair _) ?_
    rw [meaning, ← prepend_append, ← String.toList_push]
    exact ih _ _
  | closingPair _ ih =>
    refine .turn (by simp) (turn?_closingPair _) ?_
    rw [meaning, ← prepend_append, ← String.toList_push]
    exact ih _ _
  | @hole raw rest tokens hClosed hStart _ ih =>
    refine .turn (by simp) (turn?_hole hClosed hStart) ?_
    have hApart : ∀ other, (.field (String.ofList (Text.trim raw)) :: meaning tokens).head? ≠
        some (.literal other) := by simp
    have hFound := found_append ⟨"", literal, segments⟩ hApart
    have hRest := ih "" (found ⟨"", literal, segments⟩ ++ [.field (String.ofList (Text.trim raw))])
    rwa [String.toList_empty, prepend_nil, List.append_assoc, List.singleton_append, hFound] at hRest
  | char hOpening hPair _ ih =>
    refine .turn (by simp) (turn?_char hOpening hPair) ?_
    rw [meaning, ← prepend_append, ← String.toList_push]
    exact ih _ _
  | @tail rest hStart hClosed =>
    refine .turn (by simp) (turn?_tail hStart hClosed) ?_
    have hDone := ends_done (literal ++ String.ofList (opening :: rest)) segments
    rwa [String.toList_append, String.toList_ofList, prepend_append] at hDone

/-- A reader cannot come to two ends. -/
theorem Ends.unique {r : Reading} {result other : List Segment} (h : r.Ends result)
    (hOther : r.Ends other) : result = other := by
  induction h with
  | done =>
    cases hOther with
    | done => rfl
    | turn hHead => simp at hHead
  | turn hHead hTurn _ ih =>
    cases hOther with
    | done => simp at hHead
    | turn hHead' hTurn' hEnds =>
      cases hHead.symm.trans hHead'
      cases hTurn.symm.trans hTurn'
      exact ih hEnds

end Reading

/-- A text is a row of tokens in one way, with all its characters in their order; its segments are the
joined ones that consist of what the tokens stand for; and the reader that cuts the text at offsets in
bytes comes to its end with these. -/
theorem reads_by_tokens (text : String) :
    ∃ tokens, (∀ others, Decomposes text.toList others ↔ others = tokens) ∧
      tokens.flatMap Token.chars = text.toList ∧
      (∀ segments, (parse text).segments = segments ↔
        IsJoined segments ∧ segments.flatMap Segment.pieces = tokens.flatMap Token.pieces) ∧
      ∀ segments, (Reading.start text).Ends segments ↔ (parse text).segments = segments := by
  have hDecomposes := decomposes_scan text.toList
  have hParse : (parse text).segments = meaning (scan text.toList) := rfl
  refine ⟨scan text.toList, fun others => decomposes_iff, hDecomposes.chars, fun segments => ?_,
    fun segments => ?_⟩
  · rw [hParse, meaning_eq_join]
    constructor
    · rintro rfl
      exact ⟨isJoined_join _, pieces_join _⟩
    · rintro ⟨hJoined, hPieces⟩
      rw [← hPieces, hJoined.join_pieces]
  · have hEnds := Reading.ends_of_decomposes hDecomposes "" []
    rw [String.ofList_toList, String.toList_empty, prepend_nil, List.nil_append, ← hParse] at hEnds
    exact ⟨fun h => hEnds.unique h, fun h => h ▸ hEnds⟩

end Slideshow.Template
