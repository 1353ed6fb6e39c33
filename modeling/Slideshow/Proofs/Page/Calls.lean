import Mathlib.Data.List.Nodup
import Slideshow.Page
import Slideshow.Proofs.Dictionary

/-! What calls queue on a page. Every fragment that is sent waits in the queue of its position, in the
order of the calls, and there is one queue for each position that a fragment was sent to. -/

namespace Slideshow.Page

/-- What can be asked of a page. -/
inductive Call
  | insert (content : String)
  | insertAt (content : String) (position : Int)
  | setDefault (position : Int)
  | flush
  deriving DecidableEq, Repr

def call (page : Page) : Call → Page
  | .insert content => page.insert content
  | .insertAt content position => page.insertAt content position
  | .setDefault position => page.setDefault position
  | .flush => page.flush.1

def run (page : Page) (calls : List Call) : Page := calls.foldl call page

/-- The fragments that calls send, each with the position that it is sent to: its own, or else the
default one, which is `position` before the calls. -/
def sends (position : Int) : List Call → List (Int × String)
  | [] => []
  | .insert content :: calls => (position, content) :: sends position calls
  | .insertAt content own :: calls => (own, content) :: sends position calls
  | .setDefault next :: calls => sends next calls
  | .flush :: calls => sends position calls

/-- The fragments sent to a position, in order. -/
def sentTo (position : Int) (sent : List (Int × String)) : List String :=
  (sent.filter (·.1 = position)).map (·.2)

theorem mem_sentTo {position : Int} {sent : List (Int × String)} {content : String} :
    content ∈ sentTo position sent ↔ (position, content) ∈ sent := by
  simp [sentTo]

/-! ### Queues -/

/-- Queues with a fragment added. -/
def enqueueSent (queues : List (Int × List String)) (sent : Int × String) :
    List (Int × List String) := enqueue sent.2 sent.1 queues

/-- No position has two queues, and no queue is empty. -/
structure Orderly (queues : List (Int × List String)) : Prop where
  nodup : (queues.map (·.1)).Nodup
  filled : ∀ queue ∈ queues, queue.2 ≠ []

theorem lookup_enqueue (content : String) (position other : Int) (queues : List (Int × List String)) :
    (enqueue content position queues).lookup other =
      if other = position then some ((queues.lookup position).getD [] ++ [content])
      else queues.lookup other := by
  induction queues with
  | nil => simp [enqueue, Dictionary.lookup_cons]
  | cons queue queues ih =>
    obtain ⟨p, queued⟩ := queue
    rw [enqueue]
    split
    · rename_i hHere
      subst hHere
      simp only [Dictionary.lookup_cons, if_true, Option.getD_some]
      split <;> rfl
    · rename_i hHere
      simp only [Dictionary.lookup_cons, ih, Ne.symm hHere, if_false]
      by_cases h : other = p
      · subst h
        simp [hHere]
      · simp [h]

theorem mem_positions_enqueue {content : String} {position other : Int}
    {queues : List (Int × List String)} :
    other ∈ (enqueue content position queues).map (·.1) ↔
      other = position ∨ other ∈ queues.map (·.1) := by
  induction queues with
  | nil => simp [enqueue]
  | cons queue queues ih =>
    obtain ⟨p, queued⟩ := queue
    rw [enqueue]
    split
    · rename_i h
      subst h
      simp
    · simp only [List.map_cons, List.mem_cons, ih]
      tauto

theorem Orderly.enqueue {queues : List (Int × List String)} (h : Orderly queues) (content : String)
    (position : Int) : Orderly (enqueue content position queues) := by
  induction queues with
  | nil => exact ⟨List.nodup_singleton position, by simp [Page.enqueue]⟩
  | cons queue queues ih =>
    obtain ⟨p, queued⟩ := queue
    obtain ⟨hNodup, hFilled⟩ := h
    have ⟨hNew, hNodup⟩ := List.nodup_cons.1 hNodup
    have ⟨hHead, hTail⟩ := List.forall_mem_cons.1 hFilled
    rw [Page.enqueue]
    split
    · exact ⟨List.nodup_cons.2 ⟨hNew, hNodup⟩, List.forall_mem_cons.2 ⟨by simp, hTail⟩⟩
    · rename_i hne
      obtain ⟨hNodup, hFilled⟩ := ih ⟨hNodup, hTail⟩
      refine ⟨List.nodup_cons.2 ⟨?_, hNodup⟩, List.forall_mem_cons.2 ⟨hHead, hFilled⟩⟩
      rw [mem_positions_enqueue, not_or]
      exact ⟨hne, hNew⟩

theorem orderly_foldl {queues : List (Int × List String)} (h : Orderly queues)
    (sent : List (Int × String)) : Orderly (sent.foldl enqueueSent queues) := by
  induction sent generalizing queues with
  | nil => exact h
  | cons s sent ih => exact ih (h.enqueue s.2 s.1)

theorem lookup_foldl (queues : List (Int × List String)) (sent : List (Int × String))
    (position : Int) :
    ((sent.foldl enqueueSent queues).lookup position).getD [] =
      (queues.lookup position).getD [] ++ sentTo position sent := by
  induction sent generalizing queues with
  | nil => simp [sentTo]
  | cons s sent ih =>
    rw [List.foldl_cons, ih, enqueueSent, lookup_enqueue]
    by_cases h : s.1 = position
    · subst h
      simp [sentTo]
    · simp [sentTo, h, Ne.symm h]

theorem Orderly.lookup_of_mem {queues : List (Int × List String)} (h : Orderly queues)
    {position : Int} {contents : List String} (hMem : (position, contents) ∈ queues) :
    queues.lookup position = some contents := by
  obtain ⟨before, after, rfl⟩ := List.append_of_mem hMem
  refine List.lookup_eq_some_iff.2 ⟨before, after, rfl, fun queue hQueue => ?_⟩
  rw [bne_iff_ne]
  rintro rfl
  have hNodup := h.nodup
  rw [List.map_append, List.map_cons, List.nodup_append] at hNodup
  exact hNodup.2.2 _ (List.mem_map_of_mem hQueue) _ List.mem_cons_self rfl

/-- The positions with a queue are those with fragments. -/
theorem mem_positions_iff {page : Page} (h : Orderly page.queues) {position : Int} :
    position ∈ page.queues.map (·.1) ↔ page.pending position ≠ [] := by
  rw [pending]
  constructor
  · rw [List.mem_map]
    rintro ⟨⟨_, contents⟩, hMem, rfl⟩
    rw [h.lookup_of_mem hMem]
    exact h.filled _ hMem
  · contrapose
    intro hNot
    rw [Dictionary.lookup_eq_none_of_not_mem hNot, Option.getD_none]

/-! ### Runs -/

theorem queues_run (page : Page) (calls : List Call) :
    (page.run calls).queues = (sends page.defaultPosition calls).foldl enqueueSent page.queues := by
  induction calls generalizing page with
  | nil => rfl
  | cons c calls ih => cases c <;> exact ih _

/-- A run leaves at each position what was there, with the fragments sent to it behind. -/
theorem pending_run (page : Page) (calls : List Call) (position : Int) :
    (page.run calls).pending position =
      page.pending position ++ sentTo position (sends page.defaultPosition calls) := by
  rw [pending, queues_run, lookup_foldl]
  rfl

theorem orderly_run {page : Page} (h : Orderly page.queues) (calls : List Call) :
    Orderly (page.run calls).queues := by
  rw [queues_run]
  exact orderly_foldl h _

/-- Only putting the fragments in changes the markup. -/
theorem markup_run {page : Page} {calls : List Call} (h : .flush ∉ calls) :
    (page.run calls).markup = page.markup := by
  induction calls generalizing page with
  | nil => rfl
  | cons c calls ih =>
    have ⟨hHead, hTail⟩ := not_or.1 (mt List.mem_cons.2 h)
    cases c with
    | flush => exact absurd rfl hHead
    | _ => exact ih hTail

end Slideshow.Page
