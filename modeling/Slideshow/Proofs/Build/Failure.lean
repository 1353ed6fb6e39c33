import Slideshow.CommandLine.Run
import Slideshow.Proofs.Build.Report

/-! Failures in a build. A missing argument stops it before anything is written. A deck that fails
stops nothing: the report has every deck, and a deck that holds no text, or a text that is no deck,
is as good as absent for the files and for the other decks. -/

namespace Slideshow

open BuildReport (isFailure)
open CommandLine (runBuild buildOutcome)

variable {s : Settings} {rules : RuleSet} {out : Option Path} {fs : Files} {d : DeckSource}
  {before after decks : List DeckSource}

/-! ### The report -/

theorem map_fst_report (rules : RuleSet) (out : Option Path) (fs : Files)
    (decks : List DeckSource) : (buildDecks rules out fs decks).2.map (·.1) = decks := by
  induction decks generalizing fs with
  | nil => rfl
  | cons d decks ih => rw [buildDecks, List.map_cons, ih]

theorem length_report (rules : RuleSet) (out : Option Path) (fs : Files)
    (decks : List DeckSource) : (buildDecks rules out fs decks).2.length = decks.length := by
  rw [← List.length_map (f := (·.1)), map_fst_report]

theorem BuildReport.counts_add (r : BuildReport) :
    r.builtCount + r.unchangedCount + r.failedCount = r.length := by
  induction r with
  | nil => rfl
  | cons e r ih =>
    have hOnce : (if e.2 == .built then 1 else 0) + (if e.2 == .unchanged then 1 else 0) +
        (if isFailure e.2 then 1 else 0) = 1 := by
      cases e.2 <;> rfl
    simp only [builtCount, unchangedCount, failedCount, List.countP_cons, List.length_cons] at ih ⊢
    omega

theorem BuildReport.counts_failed {e : BuildError} (first rest : BuildReport) :
    builtCount (first ++ (d, .failed e) :: rest) = builtCount (first ++ rest) ∧
      unchangedCount (first ++ (d, .failed e) :: rest) = unchangedCount (first ++ rest) ∧
      failedCount (first ++ (d, .failed e) :: rest) = failedCount (first ++ rest) + 1 := by
  have hFailed : isFailure (.failed e) = true := rfl
  simp [builtCount, unchangedCount, failedCount, List.countP_append, hFailed, Nat.add_assoc]

/-- A deck is built in the files that those before it have left. -/
theorem getElem?_report : (buildDecks rules out fs (before ++ d :: after)).2[before.length]? =
    some (d, (d.build rules out (buildDecks rules out fs before).1).2) := by
  rw [buildDecks_append, ← length_report rules out fs]
  simp [buildDecks]

/-! ### Broken decks -/

/-- The file of a deck holds no text, or a text that is no deck. -/
def DeckSource.IsBroken (d : DeckSource) (fs : Files) : Prop :=
  (∃ e, fs.readText d.path = .error e) ∨
    ∃ text e, fs.readText d.path = .ok text ∧ Deck.read text = .error e

theorem DeckSource.IsBroken.build (h : d.IsBroken fs) (rules : RuleSet) (out : Option Path) :
    ∃ e, d.build rules out fs = (fs, .failed e) := by
  obtain ⟨e, h⟩ | ⟨text, e, hText, h⟩ := h
  · exact ⟨.unreadable d.path e, by rw [DeckSource.build, compileFile, h]⟩
  · exact ⟨.notADeck d.path e, by rw [DeckSource.build, compileFile, hText]; simp only [h]⟩

/-- A run with a broken deck is the run over the other decks, with one more failure in its report. -/
theorem buildDecks_broken (h : d.IsBroken (buildDecks rules out fs before).1)
    (after : List DeckSource) :
    ∃ e first rest, (buildDecks rules out fs (before ++ after)).2 = first ++ rest ∧
      buildDecks rules out fs (before ++ d :: after) =
        ((buildDecks rules out fs (before ++ after)).1, first ++ (d, .failed e) :: rest) := by
  obtain ⟨e, hBuild⟩ := h.build rules out
  refine ⟨e, (buildDecks rules out fs before).2,
    (buildDecks rules out (buildDecks rules out fs before).1 after).2, ?_, ?_⟩
  · rw [buildDecks_append]
  · rw [buildDecks_append, buildDecks_append, buildDecks, hBuild]

/-- What a run over decks does and how it accounts for them: every deck is built in the files that
those before it have left and has one outcome, and a deck that is broken when its turn comes changes
neither the files nor what comes of the others. -/
structure Accounted (rules : RuleSet) (out : Option Path) (fs : Files) (decks : List DeckSource)
    (fs' : Files) (report : BuildReport) : Prop where
  all : report.map (·.1) = decks
  attempted : ∀ before d after, decks = before ++ d :: after →
    report[before.length]? = some (d, (d.build rules out (buildDecks rules out fs before).1).2)
  counts : report.builtCount + report.unchangedCount + report.failedCount = decks.length
  broken : ∀ before d after, decks = before ++ d :: after →
    d.IsBroken (buildDecks rules out fs before).1 →
      (d.build rules out (buildDecks rules out fs before).1).1 =
        (buildDecks rules out fs before).1 ∧
      ∃ others, buildDecks rules out fs (before ++ after) = (fs', others) ∧
        report.builtCount = others.builtCount ∧ report.unchangedCount = others.unchangedCount ∧
        report.failedCount = others.failedCount + 1

theorem buildDecks_accounted (rules : RuleSet) (out : Option Path) (fs : Files)
    (decks : List DeckSource) :
    Accounted rules out fs decks (buildDecks rules out fs decks).1
      (buildDecks rules out fs decks).2 where
  all := map_fst_report rules out fs decks
  attempted := by
    rintro before d after rfl
    exact getElem?_report
  counts := by rw [BuildReport.counts_add, length_report]
  broken := by
    rintro before d after rfl hBroken
    obtain ⟨e, hBuild⟩ := hBroken.build rules out
    obtain ⟨e', first, rest, hOthers, hRun⟩ := buildDecks_broken hBroken after
    refine ⟨by rw [hBuild], _, Prod.ext (by rw [hRun]) rfl, ?_⟩
    simp only [hRun, hOthers]
    exact BuildReport.counts_failed first rest

theorem exitCode_buildOutcome (quiet : Bool) (out : Option Path) (r : BuildReport) :
    (buildOutcome quiet out r).exitCode ≠ 0 ↔ 0 < r.failedCount := by
  rw [buildOutcome]
  split
  · rename_i h
    exact iff_of_true Nat.one_ne_zero h
  · rename_i h
    exact iff_of_false (not_not_intro rfl) h

/-- If an argument is missing, a build fails and the files stay as they are. Otherwise it is a run
over the decks of its arguments, and it fails exactly when one of them does. -/
theorem runBuild_isolates (s : Settings) (quiet : Bool) (dir : Option String) (fs : Files)
    (arguments : List String) :
    ((∃ a ∈ arguments, fs.isFile ⟨a⟩ = false ∧ fs.isDirectory ⟨a⟩ = false) →
      ∃ a ∈ arguments, fs.isFile ⟨a⟩ = false ∧ fs.isDirectory ⟨a⟩ = false ∧
        runBuild s quiet arguments dir fs = (fs, .failed [] (MissingArgument.mk a).message)) ∧
    ((∀ a ∈ arguments, fs.isFile ⟨a⟩ = true ∨ fs.isDirectory ⟨a⟩ = true) →
      ∃ decks fs' report, findDecks s fs arguments = .ok decks ∧
        build s dir fs arguments = .ok (fs', report) ∧
        Accounted s.rules (s.output? dir) fs decks fs' report ∧
        runBuild s quiet arguments dir fs = (fs', buildOutcome quiet (s.output? dir) report) ∧
        ((runBuild s quiet arguments dir fs).2.exitCode ≠ 0 ↔ 0 < report.failedCount)) := by
  constructor
  · rintro ⟨missing, hMem, hMissing⟩
    obtain ⟨a, ha, hAbsent, hError⟩ :=
      findDecks_missing (s := s) ⟨missing, hMem, Files.contains_eq_false.2 hMissing⟩
    obtain ⟨hFile, hDirectory⟩ := Files.contains_eq_false.1 hAbsent
    refine ⟨a, ha, hFile, hDirectory, ?_⟩
    rw [runBuild, build, hError]
    rfl
  · intro hThere
    obtain ⟨decks, hDecks⟩ :=
      exists_findDecks (s := s) fun a ha => Files.contains_iff.2 (hThere a ha)
    have hBuild : build s dir fs arguments =
        .ok (buildDecks s.rules (s.output? dir) fs decks) := by
      rw [build, hDecks]
      rfl
    have hRun : runBuild s quiet arguments dir fs =
        ((buildDecks s.rules (s.output? dir) fs decks).1,
          buildOutcome quiet (s.output? dir) (buildDecks s.rules (s.output? dir) fs decks).2) := by
      rw [runBuild, hBuild]
    refine ⟨decks, _, _, hDecks, hBuild, buildDecks_accounted _ _ fs decks, hRun, ?_⟩
    rw [hRun]
    exact exitCode_buildOutcome _ _ _

/-- A file that is no text beside a deck. -/
def brokenBeside : Files :=
  ⟨.directory [("a.yaml", .file ⟨#[0xff]⟩), ("b.yaml", .file "s: []".toUTF8)], []⟩

theorem runBuild_isolates_brokenBeside :
    runBuild {} true ["b.yaml", "c.yaml"] none brokenBeside =
      (brokenBeside, .failed [] "No such file or directory: 'c.yaml'") ∧
    (runBuild {} true ["a.yaml", "b.yaml"] none brokenBeside).2.exitCode ≠ 0 ∧
    (runBuild {} true ["a.yaml", "b.yaml"] none brokenBeside).1 =
      (buildDecks (Settings.rules {}) none brokenBeside [⟨⟨"b.yaml"⟩, ⟨"b.yaml"⟩⟩]).1 := by
  constructor
  · obtain ⟨a, ha, hFile, -, hRun⟩ :=
      (runBuild_isolates {} true none brokenBeside ["b.yaml", "c.yaml"]).1
        ⟨"c.yaml", by decide, by rfl, by rfl⟩
    have hThere : brokenBeside.isFile ⟨"b.yaml"⟩ = true := by rfl
    simp only [List.mem_cons, List.not_mem_nil, or_false] at ha
    obtain rfl | rfl := ha
    · exact nomatch hThere.symm.trans hFile
    · exact hRun
  · obtain ⟨decks, fs', report, hDecks, -, hAccounted, hRun, hExit⟩ :=
      (runBuild_isolates {} true none brokenBeside ["a.yaml", "b.yaml"]).2 (by decide)
    have hFound : findDecks {} brokenBeside ["a.yaml", "b.yaml"] =
        .ok [⟨⟨"a.yaml"⟩, ⟨"a.yaml"⟩⟩, ⟨⟨"b.yaml"⟩, ⟨"b.yaml"⟩⟩] := by rfl
    cases hDecks.symm.trans hFound
    have hBroken : DeckSource.IsBroken ⟨⟨"a.yaml"⟩, ⟨"a.yaml"⟩⟩ brokenBeside :=
      .inl ⟨.notText, by rfl⟩
    obtain ⟨-, others, hOthers, -, -, hFailed⟩ := hAccounted.broken [] _ _ rfl hBroken
    refine ⟨hExit.2 (by omega), ?_⟩
    rw [hRun]
    exact (congrArg Prod.fst hOthers).symm

end Slideshow
