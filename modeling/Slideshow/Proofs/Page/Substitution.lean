import Mathlib.Data.Finset.Card
import Slideshow.Proofs.Page.InsertPoint
import Slideshow.Proofs.Page.OpenPoint

/-! Putting the fragments in, position by position, is one simultaneous substitution: as long as no
text and no fragment holds or ends in a part of an insert point, the insert points found are those of
the page itself, and the first one of each position with fragments is replaced by them. -/

namespace Slideshow

/-- A text with an insert point in front of each of its later parts. -/
def pageText (start : String) (parts : List (Int × String)) : String :=
  start ++ String.join (parts.map fun part => insertPoint part.1 ++ part.2)

/-- What stands before a part whose position is `position` and comes after the positions `before`:
its insert point, unless it is the first one of a position with fragments. -/
def filledPoint (queued : Int → List String) (before : List Int) (position : Int) : String :=
  if queued position = [] ∨ position ∈ before then insertPoint position
  else "\n".intercalate (queued position)

/-- The later parts of a text, with fragments for the first insert point of each position. -/
def filledParts (queued : Int → List String) (before : List Int) : List (Int × String) → String
  | [] => ""
  | (position, text) :: parts =>
    filledPoint queued before position ++ text ++ filledParts queued (before ++ [position]) parts

/-- A text in which, at once, the first insert point of each position with fragments is replaced by
these on lines of their own. -/
def filledText (queued : Int → List String) (start : String) (parts : List (Int × String)) :
    String :=
  start ++ filledParts queued [] parts

example : filledText (fun q => if q = 1 then ["x", "y"] else []) "a" [(11, "b"), (1, "c"), (1, "d")] =
    "a<!-- Insert Point 11 -->bx\nyc<!-- Insert Point 1 -->d" := by rfl

theorem filledText_nothing (start : String) (parts : List (Int × String)) :
    filledText (fun _ => []) start parts = pageText start parts := by
  have hParts (before : List Int) : filledParts (fun _ => []) before parts =
      String.join (parts.map fun part => insertPoint part.1 ++ part.2) := by
    induction parts generalizing before with
    | nil => rfl
    | cons part parts ih =>
      rw [filledParts, ih, filledPoint, if_pos (.inl rfl), List.map_cons, String.join_cons]
  rw [filledText, pageText, hParts]

variable {queued : Int → List String} {start : String} {parts front back : List (Int × String)}
  {before : List Int} {q : Int}

theorem filledParts_append :
    filledParts queued before (front ++ back) =
      filledParts queued before front ++ filledParts queued (before ++ front.map (·.1)) back := by
  induction front generalizing before with
  | nil => simp [filledParts]
  | cons part front ih =>
    rw [List.cons_append, filledParts, ih, filledParts]
    simp [String.append_assoc]

/-- Only the fragments of positions that come up for the first time count. -/
theorem filledParts_congr {others : Int → List String}
    (h : ∀ position ∈ parts.map (·.1), position ∉ before → queued position = others position) :
    filledParts queued before parts = filledParts others before parts := by
  induction parts generalizing before with
  | nil => rfl
  | cons part parts ih =>
    obtain ⟨position, text⟩ := part
    have ⟨hHead, hTail⟩ := List.forall_mem_cons.1 h
    have hPoint : filledPoint queued before position = filledPoint others before position := by
      by_cases hBefore : position ∈ before
      · rw [filledPoint, filledPoint, if_pos (.inr hBefore), if_pos (.inr hBefore)]
      · rw [filledPoint, filledPoint, hHead hBefore]
    rw [filledParts, filledParts, hPoint, ih]
    intro other hOther hLater
    exact hTail other hOther fun hMem => hLater (List.mem_append_left _ hMem)

/-- Fragments of a position that does not come up change nothing. -/
theorem filledText_update (hq : q ∉ parts.map (·.1)) (contents : List String) :
    filledText (Function.update queued q contents) start parts = filledText queued start parts := by
  rw [filledText, filledText, filledParts_congr]
  intro position hPosition _
  refine Function.update_of_ne ?_ _ _
  rintro rfl
  exact hq hPosition

/-- All texts and all fragments are inert. -/
structure AllInert (queued : Int → List String) (start : String) (parts : List (Int × String)) :
    Prop where
  start : Inert start
  parts : ∀ part ∈ parts, Inert part.2
  queued : ∀ position, ∀ content ∈ queued position, Inert content

theorem AllInert.update (h : AllInert queued start parts) {contents : List String}
    (hContents : ∀ content ∈ contents, Inert content) :
    AllInert (Function.update queued q contents) start parts := by
  refine ⟨h.start, h.parts, fun position content hContent => ?_⟩
  by_cases hHere : position = q
  · rw [hHere, Function.update_self] at hContent
    exact hContents content hContent
  · rw [Function.update_of_ne hHere] at hContent
    exact h.queued position content hContent

theorem clear_filledPoint (before : List Int) {position : Int}
    (hQueued : ∀ content ∈ queued position, Inert content)
    (h : position = q → queued position ≠ [] ∧ position ∉ before) :
    Text.Clear (insertPoint q).toList (filledPoint queued before position).toList := by
  rw [filledPoint]
  split
  · rename_i hPoint
    apply clear_insertPoint
    rintro rfl
    exact hPoint.elim (h rfl).1 (h rfl).2
  · exact (inert_intercalate hQueued).clear q

/-- Where a position does not come up, its insert point is not found. -/
theorem clear_filledParts (before : List Int) (hParts : ∀ part ∈ parts, Inert part.2)
    (hQueued : ∀ position, ∀ content ∈ queued position, Inert content)
    (hq : q ∉ parts.map (·.1)) :
    Text.Clear (insertPoint q).toList (filledParts queued before parts).toList := by
  induction parts generalizing before with
  | nil => simpa [filledParts] using Text.clear_nil _
  | cons part parts ih =>
    obtain ⟨position, text⟩ := part
    have ⟨hHead, hTail⟩ := List.forall_mem_cons.1 hParts
    have ⟨hne, hRest⟩ := not_or.1 (mt List.mem_cons.2 hq)
    rw [filledParts, String.toList_append, String.toList_append]
    have hPoint := clear_filledPoint before (hQueued position) fun h => absurd h.symm hne
    exact (hPoint.append (hHead.clear q)).append (ih _ hTail hRest)

theorem exists_first (h : q ∈ parts.map (·.1)) :
    ∃ front text back, parts = front ++ (q, text) :: back ∧ q ∉ front.map (·.1) := by
  obtain ⟨before, after, hMap, hFirst⟩ := List.eq_append_cons_of_mem h
  obtain ⟨front, rest, rfl, rfl, hRest⟩ := List.map_eq_append_iff.1 hMap
  obtain ⟨⟨_, text⟩, back, rfl, rfl, -⟩ := List.map_eq_cons_iff.1 hRest
  exact ⟨front, text, back, rfl, hFirst⟩

/-- One step: the fragments of a position that was empty so far are put in. -/
theorem replaceFirst?_filledText (hInert : AllInert queued start parts) (hq : queued q = [])
    {contents : List String} (hContents : contents ≠ []) :
    Text.replaceFirst? (insertPoint q).toList ("\n".intercalate contents).toList
        (filledText queued start parts).toList =
      if q ∈ parts.map (·.1) then
        some (filledText (Function.update queued q contents) start parts).toList
      else none := by
  obtain ⟨hStart, hParts, hQueued⟩ := hInert
  split
  · rename_i hMem
    obtain ⟨front, text, back, rfl, hFirst⟩ := exists_first hMem
    -- The point found is the first one of its position, so nothing else changes its text.
    have hFront : filledParts (Function.update queued q contents) [] front =
        filledParts queued [] front := by
      refine filledParts_congr fun position hPosition _ => Function.update_of_ne ?_ _ _
      rintro rfl
      exact hFirst hPosition
    have hBack : filledParts (Function.update queued q contents) (front.map (·.1) ++ [q]) back =
        filledParts queued (front.map (·.1) ++ [q]) back := by
      refine filledParts_congr fun position _ hLater => Function.update_of_ne ?_ _ _
      rintro rfl
      exact hLater (by simp)
    have hOld : filledPoint queued (front.map (·.1)) q = insertPoint q := if_pos (.inl hq)
    have hNew : filledPoint (Function.update queued q contents) (front.map (·.1)) q =
        "\n".intercalate contents := by
      rw [filledPoint, Function.update_self, if_neg (not_or.2 ⟨hContents, hFirst⟩)]
    have hClear := (hStart.clear q).append (clear_filledParts []
      (fun part h => hParts part (List.mem_append_left _ h)) hQueued hFirst)
    have hFound := Text.replaceFirst?_clear_append hClear ("\n".intercalate contents).toList
      (text.toList ++ (filledParts queued (front.map (·.1) ++ [q]) back).toList)
    simp only [filledText, filledParts_append, filledParts, List.nil_append, hFront, hBack, hOld, hNew]
    simpa using hFound
  · rename_i hMem
    rw [filledText, String.toList_append]
    exact Text.replaceFirst?_clear
      ((hStart.clear q).append (clear_filledParts _ hParts hQueued hMem)) (insertPoint_ne_nil q) _

/-- Where a position with fragments comes up once only, its insert point is gone. -/
theorem replaceFirst?_filledText_none (hInert : AllInert queued start parts)
    (hOnce : (parts.map (·.1)).count q ≤ 1) (hq : queued q ≠ []) (replacement : List Char) :
    Text.replaceFirst? (insertPoint q).toList replacement (filledText queued start parts).toList =
      none := by
  obtain ⟨hStart, hParts, hQueued⟩ := hInert
  refine Text.replaceFirst?_clear ?_ (insertPoint_ne_nil q) replacement
  rw [filledText, String.toList_append]
  refine (hStart.clear q).append ?_
  by_cases hMem : q ∈ parts.map (·.1)
  · obtain ⟨front, text, back, rfl, hFirst⟩ := exists_first hMem
    have hBack : q ∉ back.map (·.1) := by
      rw [List.map_append, List.map_cons, List.count_append, List.count_cons_self] at hOnce
      apply List.count_eq_zero.1
      omega
    have ⟨hFrontInert, hRest⟩ := List.forall_mem_append.1 hParts
    have ⟨hText, hBackInert⟩ := List.forall_mem_cons.1 hRest
    rw [filledParts_append, filledParts, String.toList_append, String.toList_append,
      String.toList_append]
    have hPoint : Text.Clear (insertPoint q).toList
        (filledPoint queued ([] ++ front.map (·.1)) q).toList :=
      clear_filledPoint _ (hQueued q) fun _ => ⟨hq, hFirst⟩
    exact (clear_filledParts _ hFrontInert hQueued hFirst).append
      ((hPoint.append (hText.clear q)).append (clear_filledParts _ hBackInert hQueued hBack))
  · exact clear_filledParts _ hParts hQueued hMem

namespace Page

/-- One step: one queue is put in, and counts if its position comes up. -/
theorem fill_filledText (hInert : AllInert queued start parts) (hq : queued q = [])
    {contents : List String} (hContents : contents ≠ []) (n : Nat) :
    fill ((filledText queued start parts).toList, n) (q, contents) =
      ((filledText (Function.update queued q contents) start parts).toList,
        n + if q ∈ parts.map (·.1) then 1 else 0) := by
  rw [fill, replaceFirst?_filledText hInert hq hContents]
  by_cases hMem : q ∈ parts.map (·.1)
  · simp only [if_pos hMem]
  · simp only [if_neg hMem, filledText_update hMem, Nat.add_zero]

/-- All steps: the queues are put in one after another. -/
theorem foldl_fill {queues : List (Int × List String)} (hOrderly : Orderly queues)
    (hInert : AllInert queued start parts)
    (hNew : ∀ queue ∈ queues, ∀ content ∈ queue.2, Inert content)
    (hFree : ∀ queue ∈ queues, queued queue.1 = []) (n : Nat) :
    queues.foldl fill ((filledText queued start parts).toList, n) =
      ((filledText (fun p => (queues.lookup p).getD (queued p)) start parts).toList,
        n + queues.countP (·.1 ∈ parts.map (·.1))) := by
  induction queues generalizing queued n with
  | nil => rfl
  | cons queue queues ih =>
    obtain ⟨q, contents⟩ := queue
    obtain ⟨hNodup, hFilled⟩ := hOrderly
    have ⟨hOther, hNodup⟩ := List.nodup_cons.1 hNodup
    have ⟨hHead, hFilled⟩ := List.forall_mem_cons.1 hFilled
    have ⟨hFreeHead, hFree⟩ := List.forall_mem_cons.1 hFree
    have ⟨hNewHead, hNew⟩ := List.forall_mem_cons.1 hNew
    -- The other queues are of other positions, whose insert points are still there.
    have hFreeRest : ∀ queue ∈ queues, Function.update queued q contents queue.1 = [] := by
      intro queue hQueue
      rw [Function.update_of_ne fun h => hOther (List.mem_map.2 ⟨queue, hQueue, h⟩)]
      exact hFree queue hQueue
    have hMerged : (fun p => (queues.lookup p).getD (Function.update queued q contents p)) =
        fun p => (((q, contents) :: queues).lookup p).getD (queued p) := by
      funext p
      rw [Dictionary.lookup_cons]
      split
      · rename_i h
        subst h
        rw [Dictionary.lookup_eq_none_of_not_mem hOther, Option.getD_none, Option.getD_some,
          Function.update_self]
      · rename_i h
        rw [Function.update_of_ne h]
    rw [List.foldl_cons, fill_filledText hInert hFreeHead hHead,
      ih ⟨hNodup, hFilled⟩ (hInert.update hNewHead) hNew hFreeRest, hMerged, List.countP_cons,
      Nat.add_assoc, Nat.add_comm (List.countP _ _)]
    simp only [decide_eq_true_eq]

/-- The number of queues whose positions come up is the number of positions with fragments among
them. -/
theorem countP_queues {page : Page} (h : Orderly page.queues) (positions : List Int) :
    page.queues.countP (·.1 ∈ positions) =
      (positions.toFinset.filter fun q => page.pending q ≠ []).card := by
  have hNodup : ((page.queues.filter (·.1 ∈ positions)).map (·.1)).Nodup :=
    h.nodup.sublist (List.filter_sublist.map _)
  rw [List.countP_eq_length_filter, ← List.length_map (·.1), ← List.toFinset_card_of_nodup hNodup]
  congr 1
  ext q
  rw [Finset.mem_filter, List.mem_toFinset, List.mem_toFinset, ← mem_positions_iff h]
  simp only [List.mem_map, List.mem_filter, decide_eq_true_eq]
  constructor
  · rintro ⟨queue, ⟨hQueue, hPosition⟩, rfl⟩
    exact ⟨hPosition, queue, hQueue, rfl⟩
  · rintro ⟨hPosition, queue, hQueue, rfl⟩
    exact ⟨queue, ⟨hQueue, hPosition⟩, rfl⟩

/-- The fragments of an orderly page go in at once. -/
theorem flush_filledText {page : Page} (hMarkup : page.markup = pageText start parts)
    (hOrderly : Orderly page.queues) (hInert : AllInert page.pending start parts) :
    page.flush = ({ page with markup := filledText page.pending start parts },
      ((parts.map (·.1)).toFinset.filter fun q => page.pending q ≠ []).card) := by
  have hNothing : AllInert (fun _ => []) start parts :=
    ⟨hInert.start, hInert.parts, fun _ _ h => absurd h List.not_mem_nil⟩
  have hQueued : ∀ queue ∈ page.queues, ∀ content ∈ queue.2, Inert content := by
    rintro ⟨q, contents⟩ hQueue content hContent
    refine hInert.queued q content ?_
    rwa [pending, hOrderly.lookup_of_mem hQueue]
  have hFold := foldl_fill hOrderly hNothing hQueued (fun _ _ => rfl) 0
  rw [filledText_nothing, ← hMarkup, countP_queues hOrderly, Nat.zero_add] at hFold
  simp only [flush, hFold, String.ofList_toList]
  rfl

/-- Where positions come up once only, nothing is left to be put in. -/
theorem flush_again {page : Page} (hMarkup : page.markup = filledText page.pending start parts)
    (hOrderly : Orderly page.queues) (hInert : AllInert page.pending start parts)
    (hOnce : (parts.map (·.1)).Nodup) : page.flush = (page, 0) := by
  apply (flush_eq_self_iff hOrderly).2
  rintro ⟨q, hPending, hOpen⟩
  have hNone := replaceFirst?_filledText_none hInert (List.nodup_iff_count_le_one.1 hOnce q)
    hPending []
  rw [← hMarkup] at hNone
  exact Text.replaceFirst?_eq_none_iff.1 hNone hOpen

/-- On a fresh page with inert texts, the inert fragments that calls send are substituted at once for
the first insert points of their positions, and the positions with fragments that come up are counted.
Only what was sent to each position matters, not when; and where the positions come up once only, a
second time changes nothing. -/
theorem flush_substitutes {calls : List Call} (hCalls : .flush ∉ calls) (hStart : Inert start)
    (hParts : ∀ part ∈ parts, Inert part.2) (hSent : ∀ sent ∈ sends 0 calls, Inert sent.2) :
    let page : Page := { markup := pageText start parts }
    let queued := fun q => sentTo q (sends 0 calls)
    let flushed := (page.run calls).flush
    flushed.1.markup = filledText queued start parts ∧
      flushed.2 = ((parts.map (·.1)).toFinset.filter fun q => queued q ≠ []).card ∧
      (∀ others : List Call, .flush ∉ others → (∀ q, sentTo q (sends 0 others) = queued q) →
        (page.run others).flush.1.markup = flushed.1.markup ∧
          (page.run others).flush.2 = flushed.2) ∧
      ((parts.map (·.1)).Nodup → flushed.1.flush = (flushed.1, 0)) := by
  intro page queued flushed
  have hInert : AllInert queued start parts :=
    ⟨hStart, hParts, fun q content h => hSent (q, content) (mem_sentTo.1 h)⟩
  have hNew : Orderly page.queues := ⟨List.nodup_nil, fun _ h => absurd h List.not_mem_nil⟩
  have hOrderly (others : List Call) : Orderly (page.run others).queues := orderly_run hNew others
  -- What is put in depends on the calls through the queues only.
  have hFlush {others : List Call} (hOthers : .flush ∉ others)
      (h : ∀ q, sentTo q (sends 0 others) = queued q) :
      (page.run others).pending = queued ∧
        (page.run others).flush =
          ({ page.run others with markup := filledText queued start parts },
            ((parts.map (·.1)).toFinset.filter fun q => queued q ≠ []).card) := by
    have hPending : (page.run others).pending = queued := by
      funext q
      rw [pending_run, ← h q]
      rfl
    have hText := flush_filledText (markup_run hOthers) (hOrderly others) (hPending ▸ hInert)
    rw [hPending] at hText
    exact ⟨hPending, hText⟩
  obtain ⟨hPending, hFlushed⟩ := hFlush hCalls fun _ => rfl
  have hFlushed : flushed = _ := hFlushed
  refine ⟨by rw [hFlushed], by rw [hFlushed], fun others hOthers h => ?_, fun hOnce => ?_⟩
  · obtain ⟨-, hOther⟩ := hFlush hOthers h
    rw [hFlushed, hOther]
    exact ⟨rfl, rfl⟩
  · have hKept : flushed.1.pending = queued := by
      rw [hFlushed]
      exact hPending
    refine flush_again ?_ ?_ (hKept ▸ hInert) hOnce
    · rw [hKept, hFlushed]
    · rw [hFlushed]
      exact hOrderly calls

theorem flush_substitutes_list :
    let page : Page :=
      { markup := pageText "<ul>" [(-1, "<li>"), (11, "</li><li>"), (1, "</li></ul>")] }
    let calls : List Call := [.insertAt "one" 11, .setDefault 1, .insert "two", .insertAt "three" 11]
    let others : List Call := [.insertAt "two" 1, .insertAt "one" 11, .insertAt "three" 11]
    let flushed := (page.run calls).flush
    flushed.1.markup =
        "<ul><!-- Insert Point -1 --><li>one\nthree</li><li>two</li></ul>" ∧
      flushed.2 = 2 ∧ (page.run others).flush.1.markup = flushed.1.markup ∧
      flushed.1.flush = (flushed.1, 0) := by
  intro page calls others flushed
  have hStart : Inert "<ul>" := by decide
  have hParts : ∀ part ∈ [((-1 : Int), "<li>"), (11, "</li><li>"), (1, "</li></ul>")],
      Inert part.2 := by decide
  have hCalls : .flush ∉ calls := by decide
  have hSent : ∀ sent ∈ sends 0 calls, Inert sent.2 := by decide
  obtain ⟨hText, hCount, hOrder, hAgain⟩ := flush_substitutes hCalls hStart hParts hSent
  have hSame (q : Int) : sentTo q (sends 0 others) = sentTo q (sends 0 calls) := by
    by_cases h : (1 : Int) = q
    · subst h
      rfl
    · simp [sentTo, sends, calls, others, List.filter_cons, h]
  refine ⟨?_, ?_, (hOrder others (by decide) hSame).1, hAgain (by decide)⟩
  · rw [hText]
    rfl
  · rw [hCount]
    decide

end Page

end Slideshow
