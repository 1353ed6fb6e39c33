import Mathlib.Data.List.Infix
import Slideshow.Markup.Escape

/-! Escaping, one character at a time. Read with the rule that a backslash stands for the character
behind it, escaped text is the text that was escaped, and the first backtick that stands for itself
in a module is the one that closes its literal. -/

namespace Slideshow.Markup

/-- What a character becomes: a backslash before it if it is a backslash or a backtick. -/
def escapeChar (c : Char) : List Char := if c = '\\' ∨ c = backtick then ['\\', c] else [c]

/-- The text that is meant where a backslash stands for the character behind it. -/
def evaluate : List Char → List Char
  | '\\' :: c :: rest => c :: evaluate rest
  | ['\\'] => []
  | c :: rest => c :: evaluate rest
  | [] => []

/-- What comes before and after the first backtick that no backslash takes away. -/
def closing? : List Char → Option (List Char × List Char)
  | '\\' :: c :: rest => (closing? rest).map fun parts => ('\\' :: c :: parts.1, parts.2)
  | c :: rest =>
    if c = backtick then some ([], rest)
    else (closing? rest).map fun parts => (c :: parts.1, parts.2)
  | [] => none

/-- What follows the first backtick of a text. -/
def afterOpening (text : String) : List Char := (text.toList.dropWhile (· ≠ backtick)).drop 1

/-- The two replacements are one pass: the second one leaves what the first one has put in. -/
theorem escapeChars_eq_flatMap (cs : List Char) : escapeChars cs = cs.flatMap escapeChar := by
  rw [escapeChars, replaceChar, replaceChar, List.flatMap_assoc]
  congr 1
  funext c
  by_cases hSlash : c = '\\'
  · subst hSlash
    decide
  · by_cases hTick : c = backtick
    · subst hTick
      decide
    · simp [escapeChar, hSlash, hTick]

theorem escapeChars_append (as bs : List Char) :
    escapeChars (as ++ bs) = escapeChars as ++ escapeChars bs := by
  simp only [escapeChars_eq_flatMap, List.flatMap_append]

theorem escapeChars_cons (c : Char) (cs : List Char) :
    escapeChars (c :: cs) = escapeChar c ++ escapeChars cs := by
  simp only [escapeChars_eq_flatMap, List.flatMap_cons]

theorem evaluate_cons {c : Char} (h : c ≠ '\\') (rest : List Char) :
    evaluate (c :: rest) = c :: evaluate rest := by
  rw [evaluate]
  all_goals simp_all

theorem closing?_cons {c : Char} (hSlash : c ≠ '\\') (hTick : c ≠ backtick) (rest : List Char) :
    closing? (c :: rest) = (closing? rest).map fun parts => (c :: parts.1, parts.2) := by
  rw [closing?, if_neg hTick]
  simp_all

theorem evaluate_escapeChars (cs : List Char) : evaluate (escapeChars cs) = cs := by
  induction cs with
  | nil => rfl
  | cons c cs ih =>
    rw [escapeChars_cons, escapeChar]
    split
    · rw [List.cons_append, List.singleton_append, evaluate, ih]
    · rename_i h
      rw [List.singleton_append, evaluate_cons (fun hc => h (.inl hc)), ih]

/-- Escaped text holds no backtick that would close a literal. -/
theorem closing?_escapeChars (cs rest : List Char) :
    closing? (escapeChars cs ++ backtick :: rest) = some (escapeChars cs, rest) := by
  induction cs with
  | nil => rfl
  | cons c cs ih =>
    rw [escapeChars_cons, escapeChar, List.append_assoc]
    split
    · rw [List.cons_append, List.singleton_append, closing?, ih]
      rfl
    · rename_i h
      rw [List.singleton_append,
        closing?_cons (fun hc => h (.inl hc)) (fun hc => h (.inr hc)), ih]
      rfl

theorem pair_infix_cons {a b c : Char} {cs : List Char} :
    [a, b] <:+: c :: cs ↔ (a = c ∧ cs.head? = some b) ∨ [a, b] <:+: cs := by
  rw [List.infix_cons_iff, List.cons_prefix_cons]
  cases cs with
  | nil => simp
  | cons c' cs => simp [List.cons_prefix_cons, eq_comm (a := b)]

theorem head?_escapeChars {c : Char} (hSlash : c ≠ '\\') (hTick : c ≠ backtick) (cs : List Char) :
    (escapeChars cs).head? = some c ↔ cs.head? = some c := by
  cases cs with
  | nil => rfl
  | cons c' cs =>
    rw [escapeChars_cons, escapeChar]
    split
    · rename_i h
      rcases h with rfl | rfl <;> simp [hSlash.symm, hTick.symm]
    · rfl

/-- Escaping neither makes nor breaks a pair of characters that it leaves alone. -/
theorem pair_infix_escapeChars {a b : Char} (haSlash : a ≠ '\\') (haTick : a ≠ backtick)
    (hbSlash : b ≠ '\\') (hbTick : b ≠ backtick) (cs : List Char) :
    [a, b] <:+: escapeChars cs ↔ [a, b] <:+: cs := by
  induction cs with
  | nil => rfl
  | cons c cs ih =>
    rw [escapeChars_cons, escapeChar, pair_infix_cons]
    split
    · rename_i h
      have hne : a ≠ c := by rcases h with rfl | rfl <;> assumption
      rw [List.cons_append, List.singleton_append, pair_infix_cons, pair_infix_cons, ih]
      simp [haSlash, hne]
    · rw [List.singleton_append, pair_infix_cons, ih, head?_escapeChars hbSlash hbTick]

theorem afterOpening_toModule (escaped : String) :
    afterOpening (toModule escaped) =
      escaped.toList ++ backtick :: "; export default text;".toList := by
  have hStart : moduleStart.toList = "const text = ".toList ++ [backtick] := by decide
  have hPlain : ∀ c ∈ "const text = ".toList, decide (c ≠ backtick) = true :=
    List.all_eq_true.1 (by decide)
  have hEnd : moduleEnd.toList = backtick :: "; export default text;".toList := by decide
  rw [afterOpening, toModule, String.toList_append, String.toList_append, hStart, hEnd,
    List.append_assoc, List.append_assoc, List.dropWhile_append_of_pos hPlain]
  rfl

/-- Escaping is exact: it is one pass over the characters and so respects joining; evaluated, it
gives the text back; the literal of a module ends where the module ends it; and a substitution
starts in escaped text if and only if one starts in the text. -/
theorem escape_exact (markup : String) :
    escape markup = String.ofList (markup.toList.flatMap escapeChar) ∧
    (∀ other, escape (markup ++ other) = escape markup ++ escape other) ∧
    evaluate (escape markup).toList = markup.toList ∧
    closing? (afterOpening (toModule (escape markup))) =
      some ((escape markup).toList, "; export default text;".toList) ∧
    (['$', '\x7b'] <:+: (escape markup).toList ↔ ['$', '\x7b'] <:+: markup.toList) := by
  rw [afterOpening_toModule]
  simp only [escape, String.toList_append, String.toList_ofList]
  refine ⟨by rw [escapeChars_eq_flatMap], fun other => ?_, evaluate_escapeChars _,
    closing?_escapeChars _ _, ?_⟩
  · rw [escapeChars_append, String.ofList_append]
  · exact pair_infix_escapeChars (by decide) (by decide) (by decide) (by decide) _

end Slideshow.Markup
