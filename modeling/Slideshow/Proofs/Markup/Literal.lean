import Slideshow.Deck.Load
import Slideshow.Markup.Render
import Slideshow.Proofs.Markup.Escape
import Slideshow.Proofs.Yaml.Document

/-! What a script gets from a module. A script takes any line break in a template literal for a line
feed, so a module exports the markup it was made from with a line feed for every carriage return,
alone or with a line feed behind it. That is the markup itself if and only if no carriage return is in
it. -/

namespace Slideshow

namespace Markup

/-- The value of a template literal and what follows its end, from a place in it that a backslash may
precede. A line break written with a carriage return is a line feed. There is no value if the literal
never ends, if it has a substitution, or if a backslash stands before anything but a backslash or a
backtick. -/
def literal? (escaped : Bool) : List Char → Option (List Char × List Char)
  | [] => none
  | c :: rest =>
    if escaped then
      if c = '\\' ∨ c = backtick then (literal? false rest).map fun parts => (c :: parts.1, parts.2)
      else none
    else if c = backtick then some ([], rest)
    else if c = '\\' then literal? true rest
    else if c = '$' ∧ rest.head? = some '\x7b' then none
    else if c = '\r' then
      -- A line feed behind it stands for both.
      if rest.head? = some '\n' then literal? false rest
      else (literal? false rest).map fun parts => ('\n' :: parts.1, parts.2)
    else (literal? false rest).map fun parts => (c :: parts.1, parts.2)

/-- The text that a module exports: the value of its literal, if nothing but the export follows. -/
def exported? (text : String) : Option String :=
  match literal? false (afterOpening text) with
  | some (value, rest) =>
    if rest = "; export default text;".toList then some (String.ofList value) else none
  | none => none

/-- A text with every line break written as a line feed. -/
def unifyBreaks : List Char → List Char
  | [] => []
  | c :: rest =>
    if c = '\r' then if rest.head? = some '\n' then unifyBreaks rest else '\n' :: unifyBreaks rest
    else c :: unifyBreaks rest

example : unifyBreaks "a\r\nb\rc\n\r".toList = "a\nb\nc\n\n".toList := by decide

/-! ### Line breaks -/

theorem not_mem_unifyBreaks (cs : List Char) : '\r' ∉ unifyBreaks cs := by
  induction cs with
  | nil => exact List.not_mem_nil
  | cons c cs ih =>
    unfold unifyBreaks
    split
    · split
      · exact ih
      · rw [List.mem_cons, not_or]
        exact ⟨by decide, ih⟩
    · rename_i hOther
      rw [List.mem_cons, not_or]
      exact ⟨Ne.symm hOther, ih⟩

theorem unifyBreaks_of_not_mem {cs : List Char} (h : '\r' ∉ cs) : unifyBreaks cs = cs := by
  induction cs with
  | nil => rfl
  | cons c cs ih =>
    rw [List.mem_cons, not_or] at h
    rw [unifyBreaks, if_neg (Ne.symm h.1), ih h.2]

/-- Only texts with a carriage return are changed. -/
theorem unifyBreaks_eq_self_iff {cs : List Char} : unifyBreaks cs = cs ↔ '\r' ∉ cs :=
  ⟨fun h => h ▸ not_mem_unifyBreaks cs, unifyBreaks_of_not_mem⟩

/-! ### Escaped text in a literal -/

/-- What comes next in a literal is what comes next in the text, but for backslashes and backticks. -/
theorem head?_body {c : Char} (hSlash : c ≠ '\\') (hTick : c ≠ backtick) (cs rest : List Char) :
    (escapeChars cs ++ backtick :: rest).head? = some c ↔ cs.head? = some c := by
  rw [← head?_escapeChars hSlash hTick cs, List.head?_append]
  cases (escapeChars cs).head? with
  | none => simp [hTick.symm]
  | some _ => rfl

/-- A literal around escaped text has the text as its value, but for its line breaks, and ends where
it was closed. -/
theorem literal?_escapeChars {cs : List Char} (h : ¬ ['$', '\x7b'] <:+: cs) (rest : List Char) :
    literal? false (escapeChars cs ++ backtick :: rest) = some (unifyBreaks cs, rest) := by
  induction cs with
  | nil => rfl
  | cons c cs ih =>
    rw [pair_infix_cons, not_or] at h
    obtain ⟨hHere, hLater⟩ := h
    rw [escapeChars_cons, escapeChar, List.append_assoc]
    split
    · rename_i hSpecial
      have hBreak : c ≠ '\r' := by
        rcases hSpecial with rfl | rfl <;> decide
      show literal? false ('\\' :: c :: (escapeChars cs ++ backtick :: rest)) = _
      rw [literal?, if_neg Bool.false_ne_true, if_neg (by decide), if_pos rfl, literal?, if_pos rfl,
        if_pos hSpecial, ih hLater, unifyBreaks, if_neg hBreak]
      rfl
    · rename_i hPlain
      rw [not_or] at hPlain
      obtain ⟨hSlash, hTick⟩ := hPlain
      have hDollar : ¬ (c = '$' ∧ (escapeChars cs ++ backtick :: rest).head? = some '\x7b') := by
        rw [head?_body (by decide) (by decide)]
        exact fun hPair => hHere ⟨hPair.1.symm, hPair.2⟩
      rw [List.singleton_append, literal?, if_neg Bool.false_ne_true, if_neg hTick, if_neg hSlash,
        if_neg hDollar, ih hLater, unifyBreaks]
      by_cases hBreak : c = '\r'
      · -- The line feed behind a carriage return is found in the literal as in the text.
        rw [if_pos hBreak, if_pos hBreak]
        simp only [head?_body (show '\n' ≠ '\\' by decide) (show '\n' ≠ backtick by decide)]
        split <;> rfl
      · rw [if_neg hBreak, if_neg hBreak]
        rfl

theorem exported?_toModule {markup : String} (h : ¬ ['$', '\x7b'] <:+: markup.toList) :
    exported? (toModule (escape markup)) = some (String.ofList (unifyBreaks markup.toList)) := by
  rw [exported?, afterOpening_toModule, escape, String.toList_ofList, literal?_escapeChars h]
  rfl

end Markup

open Markup

/-- A deck whose markup starts no substitution has a module that exports this markup with its line
breaks written as line feeds, which is the markup itself if and only if there is no carriage return
in it. -/
theorem Deck.exported_eq_render_iff {rules : RuleSet} {d : Deck}
    (h : ¬ ['$', '\x7b'] <:+: (d.render rules).toList) :
    exported? (d.toModule rules) =
        some (String.ofList (unifyBreaks (d.render rules).toList)) ∧
      (exported? (d.toModule rules) = some (d.render rules) ↔
        '\r' ∉ (d.render rules).toList) := by
  have hExport : exported? (d.toModule rules) =
      some (String.ofList (unifyBreaks (d.render rules).toList)) := exported?_toModule h
  refine ⟨hExport, ?_⟩
  rw [hExport, Option.some.injEq, ← unifyBreaks_eq_self_iff, ← String.toList_inj,
    String.toList_ofList]

/-- A deck with a backslash, a backtick, a dollar sign and both kinds of line break. -/
def twoBreaks : Deck := ⟨[("s", .flat ⟨[.scalar "\\`$\n\r\n"]⟩)]⟩

theorem Deck.exported_eq_render_iff_twoBreaks :
    ¬ ['$', '\x7b'] <:+: (twoBreaks.render .empty).toList ∧
      exported? (twoBreaks.toModule .empty) =
        some "<section class=\"\"><section class=\"\"><p class=\"\">\\`$\n\n</p></section></section>" ∧
      exported? (twoBreaks.toModule .empty) ≠ some (twoBreaks.render .empty) := by
  have hNone : ¬ ['$', '\x7b'] <:+: (twoBreaks.render .empty).toList := by decide +kernel
  obtain ⟨hExport, hIff⟩ := Deck.exported_eq_render_iff hNone
  refine ⟨hNone, hExport.trans (by rfl), fun hSame => ?_⟩
  exact hIff.1 hSame (by decide)

/-- A text with a carriage return. -/
def carriageReturn : Deck := ⟨[("s", .flat ⟨[.scalar "a\rb"]⟩)]⟩

/-- A module can export another text than the markup of its deck, although that starts no
substitution. -/
theorem Deck.module_changes_text : ∃ (text : String) (d : Deck), Deck.read text = .ok d ∧
    ¬ ['$', '\x7b'] <:+: (d.render .empty).toList ∧
      exported? (d.toModule .empty) ≠ some (d.render .empty) := by
  have hTokens : (Yaml.Token.scan "s: [\"a\\rb\"]").toOption =
      some (Yaml.listUnder "s" [.scalar "a\rb" false]) := by decide +kernel
  have hWritten : Yaml.read "s: [\"a\\rb\"]" =
      .ok (.mapping [(.string "s", .list [.string "a\rb"])]) := Yaml.read_of_scan hTokens rfl
  have hRead : Deck.read "s: [\"a\\rb\"]" = .ok carriageReturn := by
    rw [Deck.read, hWritten]
    rfl
  have hNone : ¬ ['$', '\x7b'] <:+: (carriageReturn.render .empty).toList := by decide +kernel
  refine ⟨_, carriageReturn, hRead, hNone, ?_⟩
  have hExport : exported? (carriageReturn.toModule .empty) = _ := exported?_toModule hNone
  rw [hExport]
  decide

end Slideshow
