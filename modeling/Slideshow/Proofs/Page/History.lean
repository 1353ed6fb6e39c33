import Mathlib.Data.List.Induction
import Mathlib.Data.List.Infix
import Slideshow.Browser
import Slideshow.Proofs.Page.Calls

/-! What a page shows of all calls on it since it was fresh: a queue for each position that a fragment
was sent to, in the order of first use, with the fragments in the order of the calls. What the scripts
of a web page ask for are calls on a page like any others. -/

namespace Slideshow

namespace Page

/-! ### What calls send -/

/-- The position that a call makes the default one. -/
def Call.setting? : Call → Option Int
  | .setDefault position => some position
  | .insert _ | .insertAt _ _ | .flush => none

/-- The position that calls set last, or else `position`. -/
def lastSet (position : Int) (calls : List Call) : Int :=
  (calls.filterMap Call.setting?).getLastD position

/-- The fragment that a call sends, with its position, where `position` is the default one. -/
def Call.sent? (position : Int) : Call → Option (Int × String)
  | .insert content => some (position, content)
  | .insertAt content own => some (own, content)
  | .setDefault _ | .flush => none

/-- The fragments that calls on a fresh page send. The default position of each call is the one that
the calls before it set last, or else zero. -/
def sent (calls : List Call) : List (Int × String) :=
  (calls.inits.zip calls).filterMap fun c => c.2.sent? (lastSet 0 c.1)

theorem lastSet_cons (position : Int) (c : Call) (calls : List Call) :
    lastSet position (c :: calls) = lastSet (c.setting?.getD position) calls := by
  cases c with
  | setDefault next => exact List.getLastD_cons
  | _ => rfl

theorem sends_cons (position : Int) (c : Call) (calls : List Call) :
    sends position (c :: calls) =
      (c.sent? position).toList ++ sends (c.setting?.getD position) calls := by
  cases c <;> rfl

/-- Reading calls with the default position at hand gives what each sends behind those before it. -/
theorem sends_eq (position : Int) (calls : List Call) :
    sends position calls =
      (calls.inits.zip calls).filterMap fun c => c.2.sent? (lastSet position c.1) := by
  induction calls generalizing position with
  | nil => rfl
  | cons c calls ih =>
    -- All other calls have `c` before them, which may set the position that they start from.
    rw [sends_cons, ih, List.inits_cons, List.zip_cons_cons, List.zip_map_left,
      List.filterMap_cons, List.filterMap_map]
    have hFirst : lastSet position [] = position := rfl
    simp only [Function.comp_def, Prod.map, lastSet_cons, id, hFirst]
    cases c.sent? position <;> rfl

example : sent [.insert "a", .insertAt "b" 1, .setDefault 2, .flush, .insert "c"] =
    [(0, "a"), (1, "b"), (2, "c")] := by decide

/-! ### Queues in the order of first use -/

theorem positions_enqueue (content : String) (position : Int) (queues : List (Int × List String)) :
    (enqueue content position queues).map (·.1) =
      if position ∈ queues.map (·.1) then queues.map (·.1)
      else queues.map (·.1) ++ [position] := by
  induction queues with
  | nil => rfl
  | cons queue queues ih =>
    obtain ⟨p, queued⟩ := queue
    rw [enqueue]
    by_cases hHere : p = position
    · rw [if_pos hHere, List.map_cons, List.map_cons, if_pos (hHere ▸ List.mem_cons_self)]
    · rw [if_neg hHere, List.map_cons, ih, List.map_cons]
      simp only [List.mem_cons, Ne.symm hHere, false_or]
      split <;> rfl

/-- Fragments make queues in the order in which their positions come up first. -/
theorem positions_foldl (fragments : List (Int × String)) :
    (fragments.foldl enqueueSent []).map (·.1) = (fragments.map (·.1)).eraseDups := by
  induction fragments using List.reverseRecOn with
  | nil => rfl
  | append_singleton fragments s ih =>
    rw [List.foldl_concat, enqueueSent, positions_enqueue, ih, List.map_append,
      List.eraseDups_append]
    by_cases hUsed : s.1 ∈ fragments.map (·.1)
    · have hNone : ([s].map (·.1)).removeAll (fragments.map (·.1)) = [] := by
        simpa [List.removeAll] using hUsed
      rw [if_pos (List.mem_eraseDups.2 hUsed), hNone, List.eraseDups_nil, List.append_nil]
    · have hNew : ([s].map (·.1)).removeAll (fragments.map (·.1)) = [s.1] := by
        simpa [List.removeAll] using hUsed
      rw [if_neg (mt List.mem_eraseDups.1 hUsed), hNew]
      rfl

/-- Orderly queues are determined by their positions and by what is pending at these. -/
theorem Orderly.queues_eq {page : Page} (h : Orderly page.queues) :
    page.queues = (page.queues.map (·.1)).map fun position => (position, page.pending position) := by
  have hQueue : ∀ queue ∈ page.queues, queue = (queue.1, page.pending queue.1) := by
    rintro ⟨position, contents⟩ hMem
    rw [pending, h.lookup_of_mem hMem, Option.getD_some]
  rw [List.map_map]
  exact (List.map_id page.queues).symm.trans (List.map_congr_left hQueue)

/-! ### Runs -/

/-- The queues of a page hold what calls on it have sent since it was fresh. -/
structure Reflects (page : Page) (calls : List Call) : Prop where
  pending : ∀ position, page.pending position = sentTo position (sent calls)
  queues : page.queues = ((sent calls).map (·.1)).eraseDups.map fun position =>
    (position, sentTo position (sent calls))
  orderly : Orderly page.queues
  defaultPosition : page.defaultPosition = lastSet 0 calls

/-- What further calls on a page leave as it is. -/
structure Keeps (page : Page) (calls : List Call) : Prop where
  queues : (∀ c ∈ calls, c = .flush ∨ ∃ position, c = .setDefault position) →
    (page.run calls).queues = page.queues
  defaultPosition : (∀ position, .setDefault position ∉ calls) →
    (page.run calls).defaultPosition = page.defaultPosition
  markup : .flush ∉ calls → (page.run calls).markup = page.markup

theorem defaultPosition_run (page : Page) (calls : List Call) :
    (page.run calls).defaultPosition = lastSet page.defaultPosition calls := by
  induction calls generalizing page with
  | nil => rfl
  | cons c calls ih =>
    rw [lastSet_cons]
    cases c <;> exact ih _

theorem reflects_run (markup : String) (calls : List Call) :
    (({ markup } : Page).run calls).Reflects calls := by
  have hNew : Orderly ({ markup } : Page).queues :=
    ⟨List.nodup_nil, fun _ h => absurd h List.not_mem_nil⟩
  have hOrderly := orderly_run hNew calls
  have hPending (position : Int) : (({ markup } : Page).run calls).pending position =
      sentTo position (sent calls) := by
    rw [pending_run, sent, ← sends_eq]
    rfl
  have hPositions : (({ markup } : Page).run calls).queues.map (·.1) =
      ((sent calls).map (·.1)).eraseDups := by
    rw [queues_run, positions_foldl, sends_eq]
    rfl
  refine ⟨hPending, ?_, hOrderly, defaultPosition_run _ calls⟩
  rw [hOrderly.queues_eq, hPositions]
  simp only [hPending]

theorem keeps_run (page : Page) (calls : List Call) : page.Keeps calls := by
  refine ⟨fun h => ?_, fun h => ?_, markup_run⟩
  · induction calls generalizing page with
    | nil => rfl
    | cons c calls ih =>
      have ⟨hHead, hTail⟩ := List.forall_mem_cons.1 h
      obtain rfl | ⟨position, rfl⟩ := hHead <;> exact ih _ hTail
  · have hNone : calls.filterMap Call.setting? = [] := by
      rw [List.filterMap_eq_nil_iff]
      intro c hc
      cases c with
      | setDefault position => exact absurd hc (h position)
      | _ => rfl
    rw [defaultPosition_run, lastSet, hNone]
    rfl

end Page

/-! ### Scripts -/

namespace Browser

/-- What a script can ask of a page. -/
inductive Request
  | insert (content : String) (position : Option Int32)
  | setDefaultPosition (position : Int32)
  | flush
  deriving DecidableEq, Repr

def request (page : Page) : Request → Page
  | .insert content position => insert page content position
  | .setDefaultPosition position => setDefaultPosition page position
  | .flush => (flush page).1

def run (page : Page) (requests : List Request) : Page := requests.foldl request page

/-- The call that a request stands for. Without a position the default one is meant. -/
def Request.call : Request → Page.Call
  | insert content none => .insert content
  | insert content (some position) => .insertAt content position.toInt
  | setDefaultPosition position => .setDefault position.toInt
  | flush => .flush

theorem request_eq_call (page : Page) (r : Request) : request page r = page.call r.call := by
  cases r with
  | insert content position => cases position <;> rfl
  | _ => rfl

theorem run_eq_run (page : Page) (requests : List Request) :
    run page requests = page.run (requests.map (·.call)) := by
  induction requests generalizing page with
  | nil => rfl
  | cons r requests ih =>
    rw [run, List.foldl_cons, request_eq_call]
    exact ih _

/-- Whether the position that a call names, if any, is one that a script can name. -/
def IsNarrow : Page.Call → Prop
  | .insertAt _ position | .setDefault position =>
    Int32.minValue.toInt ≤ position ∧ position ≤ Int32.maxValue.toInt
  | .insert _ | .flush => True

instance : DecidablePred IsNarrow
  | .insertAt _ _ | .setDefault _ => inferInstanceAs (Decidable (_ ∧ _))
  | .insert _ | .flush => inferInstanceAs (Decidable True)

theorem exists_int32 {position : Int} (hLow : Int32.minValue.toInt ≤ position)
    (hHigh : position ≤ Int32.maxValue.toInt) : ∃ narrow : Int32, narrow.toInt = position := by
  have hMin : Int32.minValue.toInt = -2147483648 := rfl
  have hMax : Int32.maxValue.toInt = 2147483647 := rfl
  exact ⟨.ofInt position, Int32.toInt_ofInt_of_le (by omega) (by omega)⟩

theorem exists_request {c : Page.Call} (h : IsNarrow c) : ∃ r : Request, r.call = c := by
  cases c with
  | insert content => exact ⟨.insert content none, rfl⟩
  | insertAt content position =>
    obtain ⟨narrow, rfl⟩ := exists_int32 h.1 h.2
    exact ⟨.insert content (some narrow), rfl⟩
  | setDefault position =>
    obtain ⟨narrow, rfl⟩ := exists_int32 h.1 h.2
    exact ⟨.setDefaultPosition narrow, rfl⟩
  | flush => exact ⟨.flush, rfl⟩

theorem exists_requests {calls : List Page.Call} (h : ∀ c ∈ calls, IsNarrow c) :
    ∃ requests : List Request, requests.map (·.call) = calls := by
  induction calls with
  | nil => exact ⟨[], rfl⟩
  | cons c calls ih =>
    have ⟨hHead, hTail⟩ := List.forall_mem_cons.1 h
    obtain ⟨r, rfl⟩ := exists_request hHead
    obtain ⟨requests, rfl⟩ := ih hTail
    exact ⟨r :: requests, rfl⟩

end Browser

/-- After any calls, a page that was fresh before them has what they sent in its queues, one for each
position in the order of first use, and further calls change no more than what they are for. Requests
of a script that stand for the same calls lead to the same page, so that each flush gives the same
markup; and there are such requests for all calls that name no position out of a script's range. -/
theorem Page.queues_reflect_calls (markup : String) (calls : List Call) :
    let page := ({ markup } : Page).run calls
    page.Reflects calls ∧ (∀ more, page.Keeps more) ∧
      (∀ requests : List Browser.Request, requests.map (·.call) = calls →
        Browser.run { markup } requests = page ∧
          (Browser.flush (Browser.run { markup } requests)).2 = (page.call .flush).markup) ∧
      ((∀ c ∈ calls, Browser.IsNarrow c) →
        ∃ requests : List Browser.Request, requests.map (·.call) = calls) := by
  intro page
  refine ⟨reflects_run markup calls, keeps_run page, ?_, Browser.exists_requests⟩
  rintro requests rfl
  rw [Browser.run_eq_run]
  exact ⟨rfl, rfl⟩

theorem Page.queues_reflect_calls_twoPositions :
    let fresh : Page := { markup := "<!-- Insert Point 2 -->|<!-- Insert Point 0 -->" }
    let calls : List Call := [.insert "a", .setDefault 2, .insert "b", .insertAt "c" 0, .insert "d"]
    let requests : List Browser.Request := [.insert "a" none, .setDefaultPosition 2,
      .insert "b" none, .insert "c" (some 0), .insert "d" none]
    let page := fresh.run calls
    page.queues = [(0, ["a", "c"]), (2, ["b", "d"])] ∧ page.pending 2 = ["b", "d"] ∧
      page.defaultPosition = 2 ∧ (page.run [.flush, .setDefault 0]).queues = page.queues ∧
      (page.run [.flush, .insert "e"]).defaultPosition = 2 ∧
      (page.run [.setDefault 0, .insert "e"]).markup = fresh.markup ∧
      requests.map (·.call) = calls ∧
      (Browser.flush (Browser.run fresh requests)).2 = "b\nd|a\nc" ∧
      ∃ others : List Browser.Request, others.map (·.call) = calls := by
  intro fresh calls requests page
  obtain ⟨hReflects, hKeeps, hScript, hNarrow⟩ := queues_reflect_calls fresh.markup calls
  have hCalls : requests.map (·.call) = calls := by decide
  have hQueues : (page.run [.flush, .setDefault 0]).queues = page.queues :=
    (hKeeps _).queues (by simp)
  have hDefault : (page.run [.flush, .insert "e"]).defaultPosition = page.defaultPosition :=
    (hKeeps _).defaultPosition (by simp)
  have hMarkup : (page.run [.setDefault 0, .insert "e"]).markup = page.markup :=
    (hKeeps _).markup (by decide)
  have hText : (page.call .flush).markup = "b\nd|a\nc" := by decide
  refine ⟨hReflects.queues.trans (by decide), (hReflects.pending 2).trans (by decide),
    hReflects.defaultPosition, hQueues, hDefault, hMarkup, hCalls,
    (hScript requests hCalls).2.trans hText, hNarrow (by decide)⟩

end Slideshow
