import Slideshow.Proofs.Json.Number

/-! Written JSON reads back. The reader keeps nothing of a number but that it is one, and finds null
for a number that is not finite; all else of a value is read as it is, so two values with one text
are read alike. -/

namespace Slideshow

open JsonText

/-! ### Strings -/

/-- A string goes on with one more part. -/
def prepend (piece : Piece) (read : List Piece × List Char) : List Piece × List Char :=
  (piece :: read.1, read.2)

theorem readPieces?_escape {e c : Char} (hLetter : e ≠ 'u') (h : escape? e = some c)
    (cs : List Char) :
    readPieces? ('\\' :: e :: cs) = (readPieces? cs).map (prepend (.char c)) := by
  rw [readPieces?]
  · rw [h]
    cases readPieces? cs <;> rfl
  · rintro _ _ _ _ _ rfl
    exact absurd rfl hLetter

theorem hexNumber?_control :
    ∀ n < 32, hexNumber? ['0', '0', Nat.digitChar (n / 16), Nat.digitChar (n % 16)] = some n := by
  decide

theorem readPieces?_control {n : Nat} (h : n < 32) (cs : List Char) :
    readPieces? ('\\' :: 'u' :: '0' :: '0' :: Nat.digitChar (n / 16) ::
      Nat.digitChar (n % 16) :: cs) = (readPieces? cs).map (prepend (.unit n)) := by
  rw [readPieces?, hexNumber?_control n h]
  cases readPieces? cs <;> rfl

theorem readPieces?_plain {c : Char} (hQuote : c ≠ '"') (hSlash : c ≠ '\\')
    (hPlain : ¬ c.toNat < 32) (cs : List Char) :
    readPieces? (c :: cs) = (readPieces? cs).map (prepend (.char c)) := by
  rw [readPieces?]
  · rw [if_neg (not_or.2 ⟨hPlain, hSlash⟩)]
    rfl
  · exact hQuote
  · intro _ _ _ _ _ hEq
    exact absurd hEq hSlash
  · intro _ _ hEq
    exact absurd hEq hSlash

/-- Every character is written as one part of a string, which stands for the character. -/
theorem exists_piece (c : Char) : ∃ piece : Piece,
    (∀ cs, readPieces? (Json.escapeChar c ++ cs) = (readPieces? cs).map (prepend piece)) ∧
    ∀ pieces, decode? (piece :: pieces) = (decode? pieces).map (c :: ·) := by
  rw [Json.escapeChar]
  split_ifs with hQuote hSlash hLine hReturn hTab hBack hFeed hControl
  · exact ⟨_, readPieces?_escape (by decide) (by rw [hQuote]; rfl), fun _ => rfl⟩
  · exact ⟨_, readPieces?_escape (by decide) (by rw [hSlash]; rfl), fun _ => rfl⟩
  · exact ⟨_, readPieces?_escape (by decide) (by rw [hLine]; rfl), fun _ => rfl⟩
  · exact ⟨_, readPieces?_escape (by decide) (by rw [hReturn]; rfl), fun _ => rfl⟩
  · exact ⟨_, readPieces?_escape (by decide) (by rw [hTab]; rfl), fun _ => rfl⟩
  · exact ⟨_, readPieces?_escape (by decide) (by rw [hBack]; rfl), fun _ => rfl⟩
  · exact ⟨_, readPieces?_escape (by decide) (by rw [hFeed]; rfl), fun _ => rfl⟩
  · refine ⟨.unit c.toNat, readPieces?_control hControl, fun pieces => ?_⟩
    rw [decode?.eq_def]
    dsimp only
    rw [if_neg (by omega), if_neg (by omega), Char.ofNat_toNat]
  · exact ⟨.char c, readPieces?_plain hQuote hSlash hControl, fun _ => rfl⟩

theorem readPieces?_written (cs rest : List Char) :
    ∃ pieces, readPieces? (cs.flatMap Json.escapeChar ++ '"' :: rest) = some (pieces, rest) ∧
      decode? pieces = some cs := by
  induction cs with
  | nil => exact ⟨[], rfl, rfl⟩
  | cons c cs ih =>
    obtain ⟨pieces, hRead, hDecode⟩ := ih
    obtain ⟨piece, hPiece, hStands⟩ := exists_piece c
    refine ⟨piece :: pieces, ?_, ?_⟩
    · rw [List.flatMap_cons, List.append_assoc, hPiece, hRead]
      rfl
    · rw [hStands, hDecode]
      rfl

theorem readString?_written (s : String) (rest : List Char) :
    readString? (s.toList.flatMap Json.escapeChar ++ '"' :: rest) = some (some s, rest) := by
  obtain ⟨pieces, hRead, hDecode⟩ := readPieces?_written s.toList rest
  rw [readString?, hRead]
  show some ((decode? pieces).map String.ofList, rest) = _
  rw [hDecode, Option.map_some, String.ofList_toList]

/-! ### White space -/

theorem isBlank_of_numberStart {c : Char} (h : c = '-' ∨ c.isDigit = true) : isBlank c = false := by
  rw [Bool.eq_false_iff]
  intro hBlank
  simp only [isBlank, Bool.or_eq_true, beq_iff_eq] at hBlank
  rcases hBlank with ((rfl | rfl) | rfl) | rfl <;> exact absurd h (by decide)

theorem skipBlank_cons {c : Char} (h : isBlank c = false) (cs : List Char) :
    skipBlank (c :: cs) = c :: cs := by
  rw [skipBlank, List.dropWhile_cons_of_neg]
  rw [h]
  exact Bool.false_ne_true

/-! ### Values -/

namespace Json

mutual

/-- A value as it is read. -/
def asRead : Json → JsonText
  | null => .null
  | bool b => .bool b
  | integer _ => .number
  | real x => if x.isFinite then .number else .null
  | string s => .string (some s)
  | array vs => .array (itemsAsRead vs)
  | object fs => .object (fieldsAsRead fs)

def itemsAsRead : List Json → List JsonText
  | [] => []
  | v :: vs => v.asRead :: itemsAsRead vs

def fieldsAsRead : List (String × Json) → List (Option String × JsonText)
  | [] => []
  | (name, v) :: fs => (some name, v.asRead) :: fieldsAsRead fs

end

theorem itemsAsRead_eq_map (vs : List Json) : itemsAsRead vs = vs.map asRead := by
  induction vs with
  | nil => rfl
  | cons v vs ih => rw [itemsAsRead, ih, List.map_cons]

/-- No text of a value starts like white space or the end of an array. -/
theorem compactChars_head (v : Json) :
    ∃ c cs, v.compactChars = c :: cs ∧ isBlank c = false ∧ c ≠ ']' := by
  have hNumber {cs : List Char} (h : IsNumber cs) :
      ∃ c rest, cs = c :: rest ∧ isBlank c = false ∧ c ≠ ']' := by
    obtain ⟨c, rest, rfl, hFirst⟩ := h.head
    refine ⟨c, rest, rfl, isBlank_of_numberStart hFirst, ?_⟩
    rintro rfl
    exact absurd hFirst (by decide)
  cases v with
  | null => exact ⟨_, _, rfl, by decide⟩
  | bool b => cases b <;> exact ⟨_, _, rfl, by decide⟩
  | integer n => exact hNumber (isNumber_integer n)
  | real x =>
    rw [compactChars]
    split
    · rename_i hFinite
      exact hNumber (isNumber_real hFinite)
    · exact ⟨_, _, rfl, by decide⟩
  | string s => exact ⟨_, _, rfl, by decide⟩
  | array vs => cases vs <;> exact ⟨_, _, rfl, by decide⟩
  | object fs => cases fs <;> exact ⟨_, _, rfl, by decide⟩

theorem quote_append (s : String) (rest : List Char) :
    quote s ++ rest = '"' :: (s.toList.flatMap escapeChar ++ '"' :: rest) := by
  simp [quote]

end Json

namespace JsonText

open Json (quote compactItems compactFields itemsAsRead fieldsAsRead)

variable {n : Nat} {cs rest : List Char}

theorem readValue?_number (h : IsNumber cs) (hRest : Ends rest) :
    readValue? (n + 1) (cs ++ rest) = some (.number, rest) := by
  have hAfter := h.after hRest
  obtain ⟨c, cs, rfl, hFirst⟩ := h.head
  have hne (other : Char) (hOther : ¬ (other = '-' ∨ other.isDigit = true)) : c ≠ other := by
    rintro rfl
    exact hOther hFirst
  rw [List.cons_append] at hAfter ⊢
  rw [readValue?, skipBlank_cons (isBlank_of_numberStart hFirst)]
  dsimp only
  rw [if_neg (hne 'n' (by decide)), if_neg (hne 't' (by decide)), if_neg (hne 'f' (by decide)),
    if_neg (hne '"' (by decide)), if_neg (hne '[' (by decide)), if_neg (hne '\x7b' (by decide)),
    hAfter]
  rfl

theorem readValue?_string (s : String) :
    readValue? (n + 1) (quote s ++ rest) = some (.string (some s), rest) := by
  rw [Json.quote_append]
  show (readString? _).map _ = _
  rw [readString?_written]
  rfl

theorem readValue?_array {c : Char} (hBlank : isBlank c = false) (hEnd : c ≠ ']') :
    readValue? (n + 1) ('[' :: c :: cs) =
      (readItems? n (c :: cs)).map fun (items, rest) => (.array items, rest) := by
  rw [readValue?, skipBlank_cons (by decide)]
  dsimp only
  rw [if_neg (by decide), if_neg (by decide), if_neg (by decide), if_neg (by decide), if_pos rfl,
    skipBlank_cons hBlank]
  split
  · rename_i hNone
    exact absurd (List.cons.inj hNone).1 hEnd
  · rfl

/-- What a written value, the items of an array that has some, and the fields of an object that has
some, are read as in a number of steps. -/
structure ReadsBack (n : Nat) : Prop where
  value : ∀ (v : Json) (rest : List Char), v.compactChars.length ≤ n → Ends rest →
    readValue? n (v.compactChars ++ rest) = some (v.asRead, rest)
  items : ∀ (v : Json) (vs : List Json) (rest : List Char),
    (v.compactChars ++ compactItems vs).length ≤ n →
    readItems? n (v.compactChars ++ compactItems vs ++ rest) =
      some (itemsAsRead (v :: vs), rest)
  fields : ∀ (name : String) (v : Json) (fs : List (String × Json)) (rest : List Char),
    (quote name ++ ':' :: v.compactChars ++ compactFields fs).length ≤ n →
    readFields? n (quote name ++ ':' :: v.compactChars ++ compactFields fs ++ rest) =
      some (fieldsAsRead ((name, v) :: fs), rest)

theorem readsValue (h : ReadsBack n) (v : Json) (hSteps : v.compactChars.length ≤ n + 1)
    (hRest : Ends rest) : readValue? (n + 1) (v.compactChars ++ rest) = some (v.asRead, rest) := by
  cases v with
  | null => rfl
  | bool b => cases b <;> rfl
  | integer m => exact readValue?_number (isNumber_integer m) hRest
  | real x =>
    rw [Json.compactChars, Json.asRead]
    split
    · rename_i hFinite
      exact readValue?_number (isNumber_real hFinite) hRest
    · rfl
  | string s => exact readValue?_string s
  | array vs =>
    cases vs with
    | nil => rfl
    | cons v vs =>
      have hItems := h.items v vs rest (Nat.le_of_succ_le_succ hSteps)
      obtain ⟨c, cs, hCons, hBlank, hEnd⟩ := v.compactChars_head
      show readValue? (n + 1) ('[' :: (v.compactChars ++ compactItems vs ++ rest)) = _
      rw [hCons] at hItems ⊢
      exact (readValue?_array hBlank hEnd).trans (congrArg (Option.map _) hItems)
  | object fs =>
    cases fs with
    | nil => rfl
    | cons f fs =>
      obtain ⟨name, v⟩ := f
      have hFields := h.fields name v fs rest (Nat.le_of_succ_le_succ hSteps)
      show (readFields? n (quote name ++ ':' :: v.compactChars ++ compactFields fs ++ rest)).map _
        = _
      rw [hFields]
      rfl

theorem ends_compactItems (vs : List Json) (rest : List Char) : Ends (compactItems vs ++ rest) := by
  cases vs <;> rintro c ⟨⟩ <;> decide

theorem ends_compactFields (fs : List (String × Json)) (rest : List Char) :
    Ends (compactFields fs ++ rest) := by
  cases fs <;> rintro c ⟨⟩ <;> decide

theorem length_compactChars_pos (v : Json) : 0 < v.compactChars.length := by
  obtain ⟨c, cs, hCons, -⟩ := v.compactChars_head
  rw [hCons]
  exact Nat.succ_pos _

theorem readsItems (h : ReadsBack n) (v : Json) (vs : List Json)
    (hSteps : (v.compactChars ++ compactItems vs).length ≤ n + 1) :
    readItems? (n + 1) (v.compactChars ++ compactItems vs ++ rest) =
      some (itemsAsRead (v :: vs), rest) := by
  have hPos := length_compactChars_pos v
  rw [List.length_append] at hSteps
  cases vs with
  | nil =>
    have hValue := h.value v (compactItems [] ++ rest) (Nat.le_of_succ_le_succ hSteps)
      (ends_compactItems _ _)
    rw [readItems?, List.append_assoc, hValue]
    rfl
  | cons w ws =>
    have hLength : (compactItems (w :: ws)).length =
        (w.compactChars ++ compactItems ws).length + 1 := rfl
    have hValue := h.value v (compactItems (w :: ws) ++ rest) (by omega) (ends_compactItems _ _)
    have hItems := h.items w ws rest (by omega)
    rw [readItems?, List.append_assoc, hValue]
    show (readItems? n (w.compactChars ++ compactItems ws ++ rest) >>= _) = _
    rw [hItems]
    rfl

theorem readsFields (h : ReadsBack n) (name : String) (v : Json) (fs : List (String × Json))
    (hSteps : (quote name ++ ':' :: v.compactChars ++ compactFields fs).length ≤ n + 1) :
    readFields? (n + 1) (quote name ++ ':' :: v.compactChars ++ compactFields fs ++ rest) =
      some (fieldsAsRead ((name, v) :: fs), rest) := by
  have hSteps : v.compactChars.length + (compactFields fs).length ≤ n := by
    simp only [quote, List.length_append, List.length_cons] at hSteps
    omega
  have hPos := length_compactChars_pos v
  rw [List.append_assoc, List.append_assoc, Json.quote_append]
  show (readString? _ >>= _) = _
  rw [readString?_written]
  show (readValue? n (v.compactChars ++ (compactFields fs ++ rest)) >>= _) = _
  rw [h.value v _ (by omega) (ends_compactFields fs rest)]
  cases fs with
  | nil => rfl
  | cons f fs =>
    obtain ⟨next, w⟩ := f
    have hLength : (compactFields ((next, w) :: fs)).length =
        (quote next ++ ':' :: w.compactChars ++ compactFields fs).length + 1 := rfl
    have hFields := h.fields next w fs rest (by omega)
    show (readFields? n (quote next ++ ':' :: w.compactChars ++ compactFields fs ++ rest) >>= _) = _
    rw [hFields]
    rfl

/-- Each of the readers calls the others with one step less, and takes one character at least before
it calls itself again. -/
theorem readsBack (n : Nat) : ReadsBack n := by
  induction n with
  | zero =>
    refine ⟨fun v rest hSteps _ => ?_, fun v vs rest hSteps => ?_, fun name v fs rest hSteps => ?_⟩
    · have := length_compactChars_pos v
      omega
    · have := length_compactChars_pos v
      rw [List.length_append] at hSteps
      omega
    · simp [quote] at hSteps
  | succ n ih =>
    exact ⟨fun v _ => readsValue ih v, fun v vs _ => readsItems ih v vs,
      fun name v fs _ => readsFields ih name v fs⟩

/-- The text of a value is read as the value. -/
theorem read?_compact (v : Json) : read? v.compact = some v.asRead := by
  have hValue := (readsBack (2 * v.compactChars.length + 2)).value v [] (by omega) nofun
  rw [List.append_nil] at hValue
  rw [read?, Json.compact, String.toList_ofList]
  simp only [hValue]
  rfl

end JsonText

end Slideshow
