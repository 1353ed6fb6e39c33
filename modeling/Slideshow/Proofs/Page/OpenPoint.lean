import Slideshow.Proofs.Page.Calls
import Slideshow.Proofs.Text.Occurrence

/-! Insert points of positions with fragments that stand on a page. Putting the fragments in changes
something if and only if there is one: a queue that finds its insert point is counted, and no later
one makes the count smaller. -/

namespace Slideshow.Page

/-- Whether an insert point of a position with fragments stands on a page. -/
def HasOpenPoint (page : Page) : Prop :=
  ∃ q, page.pending q ≠ [] ∧ (insertPoint q).toList <:+: page.markup.toList

/-- One step: a queue that finds no insert point leaves everything as it is. -/
theorem fill_of_closed {done : List Char × Nat} {queue : Int × List String}
    (h : ¬ (insertPoint queue.1).toList <:+: done.1) : fill done queue = done := by
  simp only [fill, Text.replaceFirst?_eq_none_iff.2 h]

/-- One step: a queue that finds an insert point is counted. -/
theorem fill_snd_of_open {done : List Char × Nat} {queue : Int × List String}
    (h : (insertPoint queue.1).toList <:+: done.1) : (fill done queue).2 = done.2 + 1 := by
  simp only [fill]
  split
  · rfl
  · rename_i hNone
    exact absurd h (Text.replaceFirst?_eq_none_iff.1 hNone)

theorem le_foldl_fill (queues : List (Int × List String)) (done : List Char × Nat) :
    done.2 ≤ (queues.foldl fill done).2 := by
  induction queues generalizing done with
  | nil => exact Nat.le_refl _
  | cons queue queues ih =>
    have hRest := ih (fill done queue)
    rw [List.foldl_cons]
    by_cases hHere : (insertPoint queue.1).toList <:+: done.1
    · rw [fill_snd_of_open hHere] at hRest
      omega
    · rwa [fill_of_closed hHere] at hRest ⊢

/-- All steps: queues leave everything as it is if and only if none of them finds an insert point in
the text as it was at first. -/
theorem foldl_fill_eq_self_iff {queues : List (Int × List String)} {done : List Char × Nat} :
    queues.foldl fill done = done ↔
      ∀ queue ∈ queues, ¬ (insertPoint queue.1).toList <:+: done.1 := by
  induction queues with
  | nil => simp
  | cons queue queues ih =>
    rw [List.foldl_cons, List.forall_mem_cons]
    by_cases hHere : (insertPoint queue.1).toList <:+: done.1
    · -- It is counted, and the queues behind it count no less.
      have hMore := le_foldl_fill queues (fill done queue)
      rw [fill_snd_of_open hHere] at hMore
      refine iff_of_false (fun hSame => ?_) fun hNone => hNone.1 hHere
      rw [hSame] at hMore
      omega
    · rw [fill_of_closed hHere, ih]
      exact (and_iff_right hHere).symm

theorem flush_eq_self_iff {page : Page} (h : Orderly page.queues) :
    page.flush = (page, 0) ↔ ¬ page.HasOpenPoint := by
  have hFold : page.flush = (page, 0) ↔
      page.queues.foldl fill (page.markup.toList, 0) = (page.markup.toList, 0) := by
    constructor
    · intro hFlush
      have hMarkup := congrArg (·.1.markup.toList) hFlush
      have hCount := congrArg (·.2) hFlush
      simp only [flush, String.toList_ofList] at hMarkup hCount
      exact Prod.ext hMarkup hCount
    · intro hSame
      simp only [flush, hSame, String.ofList_toList]
  rw [hFold, foldl_fill_eq_self_iff]
  constructor
  · rintro hNone ⟨q, hPending, hOpen⟩
    obtain ⟨queue, hQueue, rfl⟩ := List.mem_map.1 ((mem_positions_iff h).2 hPending)
    exact hNone queue hQueue hOpen
  · intro hClosed queue hQueue hOpen
    exact hClosed ⟨queue.1, (mem_positions_iff h).1 (List.mem_map_of_mem hQueue), hOpen⟩

end Slideshow.Page
