import Slideshow.Proofs.Page.Substitution

/-! Putting the fragments in again. The queues are kept, so this does nothing if and only if no insert
point of a position with fragments is left. On a page of inert texts one is left if and only if its
position comes up more than once, since only the first of its insert points is replaced. -/

namespace Slideshow

variable {queued : Int → List String} {start : String} {parts : List (Int × String)}
  {before : List Int} {q : Int}

/-! ### Insert points that are left -/

/-- A position that has come up before keeps its insert point where it comes up again. -/
theorem insertPoint_infix_filledParts (hBefore : q ∈ before) (hq : q ∈ parts.map (·.1)) :
    (insertPoint q).toList <:+: (filledParts queued before parts).toList := by
  induction parts generalizing before with
  | nil => exact absurd hq List.not_mem_nil
  | cons part parts ih =>
    obtain ⟨position, text⟩ := part
    rw [filledParts, String.toList_append, String.toList_append]
    by_cases hHere : q = position
    · subst hHere
      rw [filledPoint, if_pos (.inr hBefore), List.append_assoc]
      exact (List.prefix_append _ _).isInfix
    · apply List.infix_append_of_infix_right
      apply ih (List.mem_append_left _ hBefore)
      exact (List.mem_cons.1 hq).resolve_left hHere

/-- An insert point of a position with fragments is left if and only if the position comes up more
than once. -/
theorem insertPoint_infix_filledText (hInert : AllInert queued start parts) (hq : queued q ≠ []) :
    (insertPoint q).toList <:+: (filledText queued start parts).toList ↔
      1 < (parts.map (·.1)).count q := by
  constructor
  · intro hLeft
    by_contra hOnce
    have hNone := replaceFirst?_filledText_none hInert (not_lt.1 hOnce) hq []
    exact Text.replaceFirst?_eq_none_iff.1 hNone hLeft
  · intro hAgain
    have hMem : q ∈ parts.map (·.1) := List.count_pos_iff.1 (by omega)
    obtain ⟨front, text, back, rfl, hFirst⟩ := exists_first hMem
    -- The first of its insert points is filled, and any further one stands in the parts behind.
    have hBack : q ∈ back.map (·.1) := by
      rw [List.map_append, List.map_cons, List.count_append, List.count_cons_self,
        List.count_eq_zero.2 hFirst] at hAgain
      apply List.count_pos_iff.1
      omega
    rw [filledText, filledParts_append, filledParts, String.toList_append, String.toList_append,
      String.toList_append]
    apply List.infix_append_of_infix_right
    apply List.infix_append_of_infix_right
    apply List.infix_append_of_infix_right
    exact insertPoint_infix_filledParts (by simp) hBack

namespace Page

/-- Calls that change the default position only. -/
def OnlyDefaults (calls : List Call) : Prop := ∀ c ∈ calls, ∃ position, c = .setDefault position

theorem run_onlyDefaults {calls : List Call} (h : OnlyDefaults calls) (page : Page) :
    (page.run calls).markup = page.markup ∧ (page.run calls).queues = page.queues := by
  induction calls generalizing page with
  | nil => exact ⟨rfl, rfl⟩
  | cons c calls ih =>
    have ⟨hHead, hTail⟩ := List.forall_mem_cons.1 h
    obtain ⟨position, rfl⟩ := hHead
    exact ih hTail (page.setDefault position)

/-- After any calls on a fresh page and a flush, flushing again with no fragment queued in between
replaces nothing and changes nothing if and only if the first flush has left no insert point of a
position with fragments. On a page of inert texts, where inert fragments were queued since it was
fresh, this is so if and only if no position with fragments comes up more than once. -/
theorem flush_again_iff {markup : String} {calls between : List Call}
    (hBetween : OnlyDefaults between) :
    let page := ({ markup } : Page).run calls
    let again := page.flush.1.run between
    (again.flush = (again, 0) ↔ ¬ page.flush.1.HasOpenPoint) ∧
      ∀ start parts, markup = pageText start parts → .flush ∉ calls → Inert start →
        (∀ part ∈ parts, Inert part.2) → (∀ sent ∈ sends 0 calls, Inert sent.2) →
        (again.flush = (again, 0) ↔
          ∀ q, sentTo q (sends 0 calls) ≠ [] → (parts.map (·.1)).count q ≤ 1) := by
  intro page again
  have hNew : Orderly ({ markup } : Page).queues :=
    ⟨List.nodup_nil, fun _ h => absurd h List.not_mem_nil⟩
  have hOrderly : Orderly page.queues := orderly_run hNew calls
  obtain ⟨hMarkup, hQueues⟩ := run_onlyDefaults hBetween page.flush.1
  have hPending : again.pending = page.pending := by
    funext q
    rw [pending, hQueues]
    rfl
  have hOpen : again.HasOpenPoint ↔ page.flush.1.HasOpenPoint := by
    unfold HasOpenPoint
    rw [hPending, hMarkup]
    rfl
  have hAgain : again.flush = (again, 0) ↔ ¬ page.flush.1.HasOpenPoint := by
    rw [flush_eq_self_iff (hQueues ▸ hOrderly), hOpen]
  refine ⟨hAgain, fun start parts hText hCalls hStart hParts hSent => ?_⟩
  have hQueued : page.pending = fun q => sentTo q (sends 0 calls) := by
    funext q
    rw [pending_run]
    rfl
  have hInert : AllInert page.pending start parts := by
    refine ⟨hStart, hParts, fun q content h => hSent (q, content) (mem_sentTo.1 ?_)⟩
    rwa [hQueued] at h
  have hFlush := flush_filledText ((markup_run hCalls).trans hText) hOrderly hInert
  have hLeft : page.flush.1.HasOpenPoint ↔
      ∃ q, page.pending q ≠ [] ∧ 1 < (parts.map (·.1)).count q := by
    unfold HasOpenPoint
    rw [hFlush]
    exact exists_congr fun q => and_congr_right (insertPoint_infix_filledText hInert)
  rw [hAgain, hLeft, hQueued]
  simp only [not_exists, not_and, not_lt]

theorem flush_again_iff_repeatedPosition :
    let page : Page := { markup := pageText "<ul>" [(1, "<hr>"), (2, "<hr>"), (1, "</ul>")] }
    let flushed := fun position =>
      (page.run [.insertAt "<li>" position]).flush.1.run [.setDefault 1]
    (flushed 2).flush = (flushed 2, 0) ∧ (flushed 1).flush ≠ (flushed 1, 0) := by
  intro page flushed
  have hBetween : OnlyDefaults [.setDefault 1] := by
    intro c hc
    exact ⟨1, List.mem_singleton.1 hc⟩
  have hParts : ∀ part ∈ [((1 : Int), "<hr>"), (2, "<hr>"), (1, "</ul>")], Inert part.2 := by decide
  have hIff (position : Int) : (flushed position).flush = (flushed position, 0) ↔
      ∀ q, sentTo q [(position, "<li>")] ≠ [] → [(1 : Int), 2, 1].count q ≤ 1 := by
    apply (flush_again_iff hBetween).2 "<ul>" _ rfl _ (by decide) hParts
    · intro sent hSent
      rw [List.mem_singleton.1 hSent]
      show Inert "<li>"
      decide
    · simp
  constructor
  · refine (hIff 2).2 fun q hq => ?_
    by_cases h : q = 2
    · subst h
      decide
    · exact absurd (by simp [sentTo, Ne.symm h]) hq
  · intro hAgain
    exact absurd ((hIff 1).1 hAgain 1 (by decide)) (by decide)

theorem flush_puts_fragment_in_twice :
    let page : Page := { markup := "<!-- Insert Point 0 --><!-- Insert Point 0 -->" }
    let flushed := page.run [.insert "x", .flush]
    flushed.markup = "x<!-- Insert Point 0 -->" ∧ flushed.flush.1.markup = "xx" ∧
      flushed.flush.2 = 1 := by
  decide

end Page

end Slideshow
