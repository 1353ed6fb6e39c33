import Slideshow.Page
import Slideshow.Proofs.Text.Occurrence

/-! Insert points within texts. No insert point starts within an inert text, whatever follows, and the
insert points of two positions are never taken for one another. -/

namespace Slideshow

/-- What every insert point starts with. -/
def pointStart : String := "<!-- Insert Point "

/-- A text holds no start of an insert point and does not end within one. -/
structure Inert (text : String) : Prop where
  free : ¬ pointStart.toList <:+: text.toList
  last : ∀ w, w ≠ [] → w <+: pointStart.toList → w ≠ pointStart.toList → ¬ w <:+ text.toList

/-! ### Insert points -/

theorem insertPoint_eq (position : Int) :
    insertPoint position = pointStart ++ toString position ++ " -->" := rfl

theorem insertPoint_toList (position : Int) :
    (insertPoint position).toList =
      pointStart.toList ++ ((toString position).toList ++ ' ' :: "-->".toList) := by
  have hEnd : " -->".toList = ' ' :: "-->".toList := by decide
  rw [insertPoint_eq, String.toList_append, String.toList_append, List.append_assoc, hEnd]

theorem insertPoint_ne_nil (position : Int) : (insertPoint position).toList ≠ [] := by
  rw [insertPoint_toList]
  exact List.append_ne_nil_of_left_ne_nil (by decide) _

/-- Only the first character that insert points start with is an angle bracket. -/
theorem pointStart_toList : pointStart.toList = '<' :: "!-- Insert Point ".toList := by decide

/-- A position is written with digits and at most a minus sign. -/
theorem not_mem_toString {c : Char} (hDigit : c.isDigit = false) (hMinus : c ≠ '-')
    (position : Int) : c ∉ (toString position).toList := by
  have hDigits := Text.not_mem_toDigits hDigit position.natAbs
  rw [Text.toList_toString]
  split
  · exact List.not_mem_cons_of_ne_of_not_mem hMinus hDigits
  · exact hDigits

/-- The insert point of one position is found nowhere in that of another. -/
theorem clear_insertPoint {p q : Int} (hne : p ≠ q) :
    Text.Clear (insertPoint q).toList (insertPoint p).toList := by
  rintro w ⟨v, hw⟩ hEmpty rest hPrefix
  cases v with
  | nil =>
    -- At the start: both are written alike up to the positions, which a blank ends.
    rw [List.nil_append] at hw
    subst hw
    rw [insertPoint_toList, insertPoint_toList, List.append_assoc, List.append_assoc,
      List.prefix_append_right_inj, List.cons_append] at hPrefix
    have hSame := Text.eq_of_prefix_of_not_mem (not_mem_toString (by decide) (by decide) q)
      (not_mem_toString (by decide) (by decide) p) hPrefix
    exact hne (Text.toList_toString_inj.1 hSame).symm
  | cons c v =>
    -- Further in, where no angle bracket follows.
    obtain ⟨c', w, rfl⟩ := List.exists_cons_of_ne_nil hEmpty
    rw [insertPoint_toList, pointStart_toList, List.cons_append, List.cons_append,
      List.cons.injEq] at hw
    rw [insertPoint_toList, pointStart_toList, List.cons_append, List.cons_append,
      List.cons_prefix_cons] at hPrefix
    have hMem : '<' ∈ "!-- Insert Point ".toList ++ ((toString p).toList ++ ' ' :: "-->".toList) := by
      rw [← hw.2, ← hPrefix.1]
      simp
    simp only [List.mem_append] at hMem
    obtain h | h | h := hMem
    · exact absurd h (by decide)
    · exact not_mem_toString (by decide) (by decide) p h
    · exact absurd h (by decide)

/-! ### Inert texts -/

/-- A text is inert if and only if no insert point starts in it, whatever follows. -/
theorem inert_iff {text : String} : Inert text ↔ Text.Clear pointStart.toList text.toList := by
  constructor
  · rintro ⟨hFree, hLast⟩ w hw hne rest hPrefix
    -- An occurrence that starts in the text ends in it, or starts with an end of it.
    rcases Nat.lt_or_ge w.length pointStart.toList.length with hLength | hLength
    · have hInside : w <+: pointStart.toList :=
        List.prefix_of_prefix_length_le (List.prefix_append w rest) hPrefix (Nat.le_of_lt hLength)
      exact hLast w hne hInside (fun h => absurd hLength (by simp [h])) hw
    · have hWhole : pointStart.toList <+: w :=
        List.prefix_of_prefix_length_le hPrefix (List.prefix_append w rest) hLength
      exact hFree (hWhole.isInfix.trans hw.isInfix)
  · intro h
    refine ⟨?_, fun w hne hInside hProper hw => ?_⟩
    · rintro ⟨before, after, hText⟩
      rw [List.append_assoc] at hText
      exact h _ ⟨before, hText⟩ (List.append_ne_nil_of_left_ne_nil (by decide) after) []
        (by simp)
    · obtain ⟨rest, hRest⟩ := hInside
      exact h w hw hne rest (hRest ▸ List.prefix_rfl)

instance (text : String) : Decidable (Inert text) :=
  decidable_of_iff (¬ pointStart.toList <:+: text.toList ∧
      ∀ w ∈ pointStart.toList.inits, w ≠ [] → w ≠ pointStart.toList → ¬ w <:+ text.toList)
    ⟨fun ⟨hFree, hLast⟩ => ⟨hFree, fun w hne hw => hLast w ((List.mem_inits w _).2 hw) hne⟩,
      fun ⟨hFree, hLast⟩ => ⟨hFree, fun w hw hne => hLast w hne ((List.mem_inits w _).1 hw)⟩⟩

theorem Inert.clear {text : String} (h : Inert text) (position : Int) :
    Text.Clear (insertPoint position).toList text.toList :=
  (inert_iff.1 h).mono (insertPoint_toList position ▸ List.prefix_append _ _)

/-- Fragments on lines of their own are inert if each of them is. -/
theorem inert_intercalate {texts : List String} (h : ∀ text ∈ texts, Inert text) :
    Inert ("\n".intercalate texts) := by
  have hBreak : Text.Clear pointStart.toList "\n".toList := by
    have hLine : "\n".toList = ['\n'] := by decide
    rintro w hw hne rest hPrefix
    rw [hLine, List.suffix_cons_iff, List.suffix_nil] at hw
    obtain rfl := hw.resolve_right hne
    rw [pointStart_toList, List.cons_append, List.cons_prefix_cons] at hPrefix
    exact absurd hPrefix.1 (by decide)
  induction texts with
  | nil => exact inert_iff.2 (by simpa using Text.clear_nil _)
  | cons text texts ih =>
    have ⟨hHead, hTail⟩ := List.forall_mem_cons.1 h
    cases texts with
    | nil => simpa using hHead
    | cons second rest =>
      rw [String.intercalate_cons_cons, inert_iff, String.toList_append, String.toList_append]
      exact ((inert_iff.1 hHead).append hBreak).append (inert_iff.1 (ih hTail))

end Slideshow
