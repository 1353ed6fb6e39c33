import Mathlib.Data.List.Infix
import Slideshow.Text

/-! Texts in which no occurrence of another text starts, whatever follows them. The search for the
first occurrence passes over such texts. Numbers in texts end where their digits end, and are known by
their digits and their sign. -/

namespace Slideshow.Text

variable {needle cs ds : List Char}

/-! ### Ends -/

/-- The characters in front of the first occurrence of one. -/
theorem takeWhile_ne {c : Char} (h : c ∉ cs) (rest : List Char) :
    (cs ++ c :: rest).takeWhile (· ≠ c) = cs := by
  have hOther : ∀ d ∈ cs, decide (d ≠ c) = true := fun d hd =>
    decide_eq_true fun hSame => h (hSame ▸ hd)
  rw [List.takeWhile_append_of_pos hOther, List.takeWhile_cons_of_neg (by simp), List.append_nil]

/-- Texts in front of a character that is in neither of them are told apart by what follows. -/
theorem eq_of_prefix_of_not_mem {c : Char} {as bs xs ys : List Char} (ha : c ∉ as) (hb : c ∉ bs)
    (h : as ++ c :: xs <+: bs ++ c :: ys) : as = bs := by
  obtain ⟨rest, h⟩ := h
  rw [List.append_assoc, List.cons_append] at h
  have hTake := congrArg (List.takeWhile (· ≠ c)) h
  rwa [takeWhile_ne ha, takeWhile_ne hb] at hTake

/-! ### Numbers -/

theorem not_mem_toDigits {c : Char} (h : c.isDigit = false) (n : Nat) : c ∉ Nat.toDigits 10 n := by
  intro hMem
  rw [Nat.isDigit_of_mem_toDigits (by decide) (by decide) hMem] at h
  exact absurd h (by decide)

theorem toDigits_inj {m n : Nat} : Nat.toDigits 10 m = Nat.toDigits 10 n ↔ m = n := by
  refine ⟨fun h => ?_, fun h => h ▸ rfl⟩
  rw [← Nat.ofDigitChars_ten_toDigits (n := m), h, Nat.ofDigitChars_ten_toDigits]

/-- An integer is written with its digits, behind a minus sign if it is negative. -/
theorem toList_toString (n : Int) :
    (toString n).toList =
      if n < 0 then '-' :: Nat.toDigits 10 n.natAbs else Nat.toDigits 10 n.natAbs := by
  cases n with
  | ofNat m =>
    rw [if_neg (by simp)]
    exact Nat.toList_repr
  | negSucc m =>
    have hText : toString (Int.negSucc m) = "-" ++ (m + 1).repr := rfl
    have hMinus : "-".toList = ['-'] := by decide
    rw [if_pos (Int.negSucc_lt_zero m), hText, String.toList_append, hMinus, Nat.toList_repr]
    rfl

theorem toList_toString_inj {m n : Int} : (toString m).toList = (toString n).toList ↔ m = n := by
  refine ⟨fun h => ?_, fun h => h ▸ rfl⟩
  have hMinus (k : Nat) : '-' ∉ Nat.toDigits 10 k := not_mem_toDigits (by decide) k
  rw [toList_toString, toList_toString] at h
  split at h <;> split at h
  · rw [List.cons.injEq, toDigits_inj] at h
    omega
  · exact absurd (h ▸ List.mem_cons_self) (hMinus n.natAbs)
  · exact absurd (h ▸ List.mem_cons_self) (hMinus m.natAbs)
  · rw [toDigits_inj] at h
    omega

/-! ### Clear texts -/

/-- No occurrence of `needle` starts in a text, whatever follows it. -/
def Clear (needle cs : List Char) : Prop :=
  ∀ w, w <:+ cs → w ≠ [] → ∀ rest, ¬ needle <+: w ++ rest

theorem clear_nil (needle : List Char) : Clear needle [] :=
  fun _ hw hne => absurd (List.suffix_nil.1 hw) hne

theorem Clear.append (hc : Clear needle cs) (hd : Clear needle ds) : Clear needle (cs ++ ds) := by
  rintro w ⟨v, hw⟩ hne rest
  rcases List.append_eq_append_iff.1 hw with ⟨u, hc', rfl⟩ | ⟨u, -, hd'⟩
  · by_cases hEmpty : u = []
    · subst hEmpty
      exact hd ds List.suffix_rfl hne rest
    · rw [List.append_assoc]
      exact hc u ⟨v, hc'.symm⟩ hEmpty (ds ++ rest)
  · exact hd w ⟨u, hd'.symm⟩ hne rest

/-- Where not even a part of a text starts, the text does not start. -/
theorem Clear.mono (hc : Clear needle cs) {longer : List Char} (h : needle <+: longer) :
    Clear longer cs :=
  fun w hw hne rest hPrefix => hc w hw hne rest (h.trans hPrefix)

/-- The search for an occurrence fails only where there is none. -/
theorem splitFirst?_eq_none_iff : splitFirst? needle cs = none ↔ ¬ needle <:+: cs := by
  induction cs with
  | nil =>
    unfold splitFirst?
    rw [List.infix_nil]
    cases needle <;> simp
  | cons c cs ih =>
    unfold splitFirst?
    rw [List.infix_cons_iff, not_or, ← List.isPrefixOf_iff_prefix]
    split
    · rename_i hHere
      simp [hHere]
    · rename_i hHere
      rw [Option.map_eq_none_iff, ih]
      exact (and_iff_right hHere).symm

theorem replaceFirst?_eq_none_iff {replacement : List Char} :
    replaceFirst? needle replacement cs = none ↔ ¬ needle <:+: cs := by
  rw [replaceFirst?, Option.map_eq_none_iff, splitFirst?_eq_none_iff]

theorem splitFirst?_append_self (needle rest : List Char) :
    splitFirst? needle (needle ++ rest) = some ([], rest) := by
  cases h : needle ++ rest with
  | nil =>
    obtain ⟨rfl, rfl⟩ := List.append_eq_nil_iff.1 h
    rfl
  | cons c cs =>
    have hPrefix : needle.isPrefixOf (c :: cs) = true := by
      rw [List.isPrefixOf_iff_prefix, ← h]
      exact List.prefix_append needle rest
    rw [splitFirst?, if_pos hPrefix, ← h, List.drop_left]

theorem splitFirst?_clear_append (h : Clear needle cs) (rest : List Char) :
    splitFirst? needle (cs ++ rest) =
      (splitFirst? needle rest).map fun parts => (cs ++ parts.1, parts.2) := by
  induction cs with
  | nil => simp
  | cons c cs ih =>
    have hPrefix : ¬ needle.isPrefixOf (c :: (cs ++ rest)) = true := by
      rw [List.isPrefixOf_iff_prefix]
      exact h (c :: cs) List.suffix_rfl (List.cons_ne_nil c cs) rest
    have hTail : Clear needle cs := fun w hw => h w (hw.trans (List.suffix_cons c cs))
    rw [List.cons_append, splitFirst?, if_neg hPrefix, ih hTail, Option.map_map]
    rfl

theorem splitFirst?_clear (h : Clear needle cs) (hne : needle ≠ []) :
    splitFirst? needle cs = none := by
  rw [← List.append_nil cs, splitFirst?_clear_append h, splitFirst?,
    if_neg (by simpa using hne), Option.map_none]

/-- A clear text, then the text that is looked for. -/
theorem replaceFirst?_clear_append (h : Clear needle cs) (replacement rest : List Char) :
    replaceFirst? needle replacement (cs ++ (needle ++ rest)) =
      some (cs ++ (replacement ++ rest)) := by
  rw [replaceFirst?, splitFirst?_clear_append h, splitFirst?_append_self]
  simp

theorem replaceFirst?_clear (h : Clear needle cs) (hne : needle ≠ []) (replacement : List Char) :
    replaceFirst? needle replacement cs = none := by
  rw [replaceFirst?, splitFirst?_clear h hne, Option.map_none]

end Slideshow.Text
