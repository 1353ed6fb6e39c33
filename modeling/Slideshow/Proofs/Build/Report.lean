import Slideshow.Build.Report
import Slideshow.Proofs.Build.Discovery
import Slideshow.Proofs.Yaml.Document

/-! What a build leaves behind. A deck writes at most its own output, and what an output holds in the
end is the module of the last deck that it belongs to, compiled when its turn came. So every deck
finds its module in its output if and only if decks that share an output have the same module, and
the last of them is compiled from what its file held before the build. -/

namespace Slideshow

open Files (Frame Update)
open BuildReport (isFailure)

/-- Whether two paths lead to the same place. -/
def Files.SamePlace (fs : Files) (p q : Path) : Prop :=
  ∃ names, fs.resolve p = .ok names ∧ fs.resolve q = .ok names

/-- Whether the output of a deck holds, in the files `after`, the module of what the deck held in
the files `before`. -/
def DeckSource.HoldsModule (d : DeckSource) (rules : RuleSet) (out : Option Path)
    (before after : Files) : Prop :=
  ∃ text, compileFile rules before d.path = .ok text ∧ after.read (d.output out) = .ok text.toUTF8

variable {rules : RuleSet} {out : Option Path} {fs : Files}

/-! ### One deck -/

theorem createParent_update (written : List String → Prop) (fs : Files) (p : Path) :
    Update (fs.IsAbove p) written fs (createParent fs p).1 := by
  rw [createParent]
  split
  · exact .refl fs
  · rename_i above hParent
    have hUpdate := (Files.createDirectories_update written fs above).mono
      (fun _ => Files.IsAbove.of_parent hParent) fun _ => id
    split
    · rename_i made hMade
      rw [hMade] at hUpdate
      exact hUpdate
    · rename_i made e hMade
      rw [hMade] at hUpdate
      exact hUpdate

/-- A module is there already, or writing it fails after directories at most, or it is written once
they are there. -/
theorem writeModule_cases (fs : Files) (output : Path) (text : String) :
    (writeModule fs output text = (fs, .unchanged) ∧ fs.read output = .ok text.toUTF8) ∨
    (∃ fs' e, writeModule fs output text = (fs', .failed e) ∧
      ∀ written, Update (fs.IsAbove output) written fs fs') ∨
    ∃ made fs', writeModule fs output text = (fs', .built) ∧
      (∀ written, Update (fs.IsAbove output) written fs made) ∧
      made.write output text.toUTF8 = .ok fs' := by
  rw [writeModule]
  split
  · rename_i hSame
    cases hRead : fs.readText output with
    | error e =>
      rw [hRead] at hSame
      exact nomatch hSame
    | ok found =>
      rw [hRead] at hSame
      cases Option.some.inj hSame
      exact .inl ⟨rfl, Files.readText_eq_ok.1 hRead⟩
  · have hUpdate (written : List String → Prop) := createParent_update written fs output
    split
    · rename_i made e hMade
      rw [hMade] at hUpdate
      exact .inr (.inl ⟨made, e, rfl, hUpdate⟩)
    · rename_i made hMade
      rw [hMade] at hUpdate
      split
      · rename_i fs' hWrite
        exact .inr (.inr ⟨made, fs', rfl, hUpdate, hWrite⟩)
      · rename_i e hWrite
        exact .inr (.inl ⟨made, .unwritable output e, rfl, hUpdate⟩)

/-- Writing a module changes no file but the output, and that only if the module is built; it fails
unless the output then holds the module. -/
theorem writeModule_spec (fs : Files) (output : Path) (text : String) :
    Update (fs.IsAbove output)
        (fun names => (writeModule fs output text).2 = .built ∧
          (writeModule fs output text).1.resolve output = .ok names) fs
        (writeModule fs output text).1 ∧
      (isFailure (writeModule fs output text).2 = false →
        (writeModule fs output text).1.read output = .ok text.toUTF8) := by
  obtain ⟨hEq, hRead⟩ | ⟨failed, e, hEq, hUpdate⟩ | ⟨made, done, hEq, hUpdate, hWrite⟩ :=
    writeModule_cases fs output text
  · rw [hEq]
    exact ⟨.refl fs, fun _ => hRead⟩
  · rw [hEq]
    exact ⟨hUpdate _, fun hFailure => nomatch hFailure⟩
  · rw [hEq]
    obtain ⟨names, hResolve, hNode, hWritten⟩ := Files.write_eq_ok hWrite
    have hResolve := hWritten.resolve hResolve
    have hOutput : Update (fs.IsAbove output)
        (fun names => BuildOutcome.built = .built ∧ done.resolve output = .ok names) made done :=
      hWritten.mono (fun _ hNever => hNever.elim) fun other hOther => ⟨rfl, hOther ▸ hResolve⟩
    exact ⟨(hUpdate _).trans hOutput, fun _ => Files.read_eq_ok.2 ⟨names, hResolve, hNode⟩⟩

/-- Building a deck changes no file but its output, and that only if the deck is reported as built;
it fails unless the output then holds its module. -/
theorem DeckSource.build_spec (rules : RuleSet) (out : Option Path) (fs : Files) (d : DeckSource) :
    Update (fs.IsAbove (d.output out))
        (fun names => (d.build rules out fs).2 = .built ∧
          (d.build rules out fs).1.resolve (d.output out) = .ok names) fs
        (d.build rules out fs).1 ∧
      (isFailure (d.build rules out fs).2 = false →
        ∃ text, compileFile rules fs d.path = .ok text ∧
          (d.build rules out fs).1.read (d.output out) = .ok text.toUTF8) := by
  rw [build]
  split
  · exact ⟨.refl fs, fun hFailure => nomatch hFailure⟩
  · rename_i text hCompile
    have ⟨hUpdate, hRead⟩ := writeModule_spec fs (d.output out) text
    exact ⟨hUpdate, fun hFailure => ⟨text, hCompile, hRead hFailure⟩⟩

/-! ### A run over many decks -/

theorem buildDecks_append (ds es : List DeckSource) :
    buildDecks rules out fs (ds ++ es) =
      ((buildDecks rules out (buildDecks rules out fs ds).1 es).1,
        (buildDecks rules out fs ds).2 ++
          (buildDecks rules out (buildDecks rules out fs ds).1 es).2) := by
  induction ds generalizing fs with
  | nil => rfl
  | cons d ds ih => simp only [List.cons_append, buildDecks, ih]

theorem mem_of_mem_report {d : DeckSource} {outcome : BuildOutcome} {ds : List DeckSource}
    (h : (d, outcome) ∈ (buildDecks rules out fs ds).2) : d ∈ ds := by
  induction ds generalizing fs with
  | nil => exact absurd h List.not_mem_nil
  | cons e ds ih =>
    rw [buildDecks] at h
    obtain hFirst | h := List.mem_cons.1 h
    · cases hFirst
      exact List.mem_cons_self
    · exact List.mem_cons_of_mem _ (ih h)

/-- A run writes no place but the outputs of the decks that it reports as built, and makes no
directory but above outputs. -/
theorem buildDecks_update_built (rules : RuleSet) (out : Option Path) (fs : Files)
    (ds : List DeckSource) :
    Update (fun names => ∃ d ∈ ds, fs.IsAbove (d.output out) names)
      (fun names => ∃ d, (d, .built) ∈ (buildDecks rules out fs ds).2 ∧
        (buildDecks rules out fs ds).1.resolve (d.output out) = .ok names)
      fs (buildDecks rules out fs ds).1 := by
  induction ds generalizing fs with
  | nil => exact .refl fs
  | cons d ds ih =>
    rw [buildDecks]
    have ⟨hFirst, _⟩ := DeckSource.build_spec rules out fs d
    have hRest := ih (d.build rules out fs).1
    refine (hFirst.mono ?_ ?_).trans (hRest.mono ?_ ?_)
    · exact fun names hNames => ⟨d, List.mem_cons_self, hNames⟩
    · rintro names ⟨hBuilt, hNames⟩
      exact ⟨d, hBuilt ▸ List.mem_cons_self, hRest.resolve hNames⟩
    · rintro names ⟨e, he, hNames⟩
      exact ⟨e, List.mem_cons_of_mem _ he, hFirst.isAbove.1 hNames⟩
    · rintro names ⟨e, he, hNames⟩
      exact ⟨e, List.mem_cons_of_mem _ he, hNames⟩

theorem buildDecks_update (rules : RuleSet) (out : Option Path) (fs : Files)
    (ds : List DeckSource) :
    Update (fun names => ∃ d ∈ ds, fs.IsAbove (d.output out) names)
      (fun names => ∃ d ∈ ds, (buildDecks rules out fs ds).1.resolve (d.output out) = .ok names)
      fs (buildDecks rules out fs ds).1 :=
  (buildDecks_update_built rules out fs ds).mono (fun _ => id) fun _ ⟨d, hd, hNames⟩ =>
    ⟨d, mem_of_mem_report hd, hNames⟩

theorem not_isFailure_of_failedCount {r : BuildReport} (h : r.failedCount = 0)
    {entry : DeckSource × BuildOutcome} (hEntry : entry ∈ r) : isFailure entry.2 = false := by
  rw [BuildReport.failedCount, List.countP_eq_zero] at h
  exact Bool.eq_false_iff.2 (h entry hEntry)

/-- In a run without failures every deck, compiled in the files that those before it have left,
writes its module; those after it write no place but their own outputs. -/
theorem buildDecks_turn {before after : List DeckSource} {d : DeckSource} {fs' : Files}
    {report : BuildReport} (hRun : buildDecks rules out fs (before ++ d :: after) = (fs', report))
    (hNone : report.failedCount = 0) :
    ∃ built text, compileFile rules (buildDecks rules out fs before).1 d.path = .ok text ∧
      built.read (d.output out) = .ok text.toUTF8 ∧
      Frame (fun names => ∃ e ∈ after, fs'.resolve (e.output out) = .ok names) built fs' := by
  rw [buildDecks_append, buildDecks, Prod.mk.injEq] at hRun
  obtain ⟨rfl, rfl⟩ := hRun
  obtain ⟨-, hHolds⟩ := DeckSource.build_spec rules out (buildDecks rules out fs before).1 d
  obtain ⟨text, hCompile, hRead⟩ := hHolds (not_isFailure_of_failedCount hNone
    (List.mem_append_right _ List.mem_cons_self))
  exact ⟨_, text, hCompile, hRead, (buildDecks_update _ _ _ _).toFrame⟩

/-- What an output holds after a run without failures: the module of the last deck that it belongs
to. -/
theorem buildDecks_read_last {before after : List DeckSource} {d : DeckSource} {fs' : Files}
    {report : BuildReport} (hRun : buildDecks rules out fs (before ++ d :: after) = (fs', report))
    (hNone : report.failedCount = 0)
    (hLast : ∀ e ∈ after, ¬ fs'.SamePlace (d.output out) (e.output out)) :
    ∃ text, compileFile rules (buildDecks rules out fs before).1 d.path = .ok text ∧
      fs'.read (d.output out) = .ok text.toUTF8 := by
  obtain ⟨built, text, hCompile, hRead, hFrame⟩ := buildDecks_turn hRun hNone
  obtain ⟨names, hResolve, -⟩ := Files.read_eq_ok.1 hRead
  refine ⟨text, hCompile, hFrame.read hResolve ?_ hRead⟩
  rintro ⟨e, he, hSame⟩
  exact hLast e he ⟨names, hFrame.resolve hResolve, hSame⟩

/-- After a run without failures the output of every deck can be found. -/
theorem buildDecks_resolve_output {decks : List DeckSource} {d : DeckSource} {fs' : Files}
    {report : BuildReport} (hRun : buildDecks rules out fs decks = (fs', report))
    (hNone : report.failedCount = 0) (hd : d ∈ decks) :
    fs'.SamePlace (d.output out) (d.output out) := by
  obtain ⟨before, after, rfl⟩ := List.append_of_mem hd
  obtain ⟨built, text, -, hRead, hFrame⟩ := buildDecks_turn hRun hNone
  obtain ⟨names, hResolve, -⟩ := Files.read_eq_ok.1 hRead
  exact ⟨names, hFrame.resolve hResolve, hFrame.resolve hResolve⟩

/-! ### Modules that stay -/

theorem Files.SamePlace.trans {p q r : Path} (h1 : fs.SamePlace p q) (h2 : fs.SamePlace q r) :
    fs.SamePlace p r := by
  obtain ⟨names, hp, hq⟩ := h1
  obtain ⟨names', hq', hr⟩ := h2
  cases hq.symm.trans hq'
  exact ⟨names, hp, hr⟩

theorem Files.SamePlace.read {p q : Path} (h : fs.SamePlace p q) : fs.read p = fs.read q := by
  obtain ⟨names, hp, hq⟩ := h
  rw [Files.read, Files.read, Files.at?, Files.at?, hp, hq]

/-- Whether decks that share an output have the same module. -/
def OutputsAgree (rules : RuleSet) (out : Option Path) (before after : Files)
    (decks : List DeckSource) : Prop :=
  ∀ d ∈ decks, ∀ e ∈ decks, after.SamePlace (d.output out) (e.output out) →
    compileFile rules before d.path = compileFile rules before e.path

/-- Whether every deck that is the last of its output is compiled, when its turn comes, from what
its file held before the build. -/
def LastUnchanged (rules : RuleSet) (out : Option Path) (before after : Files)
    (decks : List DeckSource) : Prop :=
  ∀ earlier d later, decks = earlier ++ d :: later →
    (∀ e ∈ later, ¬ after.SamePlace (d.output out) (e.output out)) →
    compileFile rules (buildDecks rules out before earlier).1 d.path =
      compileFile rules before d.path

/-- Of the elements with a property, one is the last. -/
theorem exists_last {α : Type} {p : α → Prop} {l : List α} {a : α} (ha : a ∈ l) (hp : p a) :
    ∃ before b after, l = before ++ b :: after ∧ p b ∧ ∀ c ∈ after, ¬ p c := by
  induction l generalizing a with
  | nil => exact absurd ha List.not_mem_nil
  | cons x l ih =>
    by_cases hLater : ∃ y ∈ l, p y
    · obtain ⟨y, hy, hpy⟩ := hLater
      obtain ⟨before, b, after, rfl, hb, hAfter⟩ := ih hy hpy
      exact ⟨x :: before, b, after, rfl, hb, hAfter⟩
    · have hx : a = x := (List.mem_cons.1 ha).resolve_right fun hMem => hLater ⟨a, hMem, hp⟩
      exact ⟨[], x, l, rfl, hx ▸ hp, fun c hc hpc => hLater ⟨c, hc, hpc⟩⟩

theorem buildDecks_holdsModule_iff {decks : List DeckSource} {fs' : Files} {report : BuildReport}
    (hRun : buildDecks rules out fs decks = (fs', report)) (hNone : report.failedCount = 0) :
    (∀ d ∈ decks, d.HoldsModule rules out fs fs') ↔
      OutputsAgree rules out fs fs' decks ∧ LastUnchanged rules out fs fs' decks := by
  constructor
  · intro hAll
    refine ⟨fun d hd e he hSame => ?_, fun earlier d later hSplit hLast => ?_⟩
    · obtain ⟨text, hText, hRead⟩ := hAll d hd
      obtain ⟨text', hText', hRead'⟩ := hAll e he
      rw [hSame.read, hRead'] at hRead
      rw [hText, hText', String.toByteArray_inj.1 (Except.ok.inj hRead)]
    · subst hSplit
      obtain ⟨text, hText, hRead⟩ := hAll d (List.mem_append_right _ List.mem_cons_self)
      obtain ⟨text', hText', hRead'⟩ := buildDecks_read_last hRun hNone hLast
      rw [hRead'] at hRead
      rw [hText, hText', String.toByteArray_inj.1 (Except.ok.inj hRead)]
  · rintro ⟨hAgree, hUnchanged⟩ d hd
    have hResolve := buildDecks_resolve_output hRun hNone hd
    -- The last deck `e` that has the output of `d` decides what it holds.
    obtain ⟨earlier, e, later, hSplit, hSame, hLast⟩ :=
      exists_last (p := fun e => fs'.SamePlace (d.output out) (e.output out)) hd hResolve
    have hLastOfE : ∀ c ∈ later, ¬ fs'.SamePlace (e.output out) (c.output out) :=
      fun c hc hec => hLast c hc (hSame.trans hec)
    have he : e ∈ decks := hSplit ▸ List.mem_append_right _ List.mem_cons_self
    subst hSplit
    obtain ⟨text, hText, hRead⟩ := buildDecks_read_last hRun hNone hLastOfE
    refine ⟨text, ?_, hSame.read.trans hRead⟩
    rw [hAgree d hd e he hSame, ← hUnchanged earlier e later rfl hLastOfE, hText]

/-- A deck whose file no earlier deck has as its output is compiled from what the file held before
the build. -/
theorem compileFile_unchanged {earlier later : List DeckSource} {d : DeckSource} {fs' : Files}
    {report : BuildReport} (hRun : buildDecks rules out fs (earlier ++ d :: later) = (fs', report))
    {content : ByteArray} (hContent : fs.read d.path = .ok content)
    (hApart : ∀ e ∈ earlier, ¬ fs'.SamePlace (e.output out) d.path) :
    compileFile rules (buildDecks rules out fs earlier).1 d.path = compileFile rules fs d.path := by
  have hBefore := buildDecks_update rules out fs earlier
  have hAfter := buildDecks_update rules out (buildDecks rules out fs earlier).1 (d :: later)
  rw [buildDecks_append, Prod.mk.injEq] at hRun
  rw [hRun.1] at hAfter
  obtain ⟨names, hResolve, -⟩ := Files.read_eq_ok.1 hContent
  have hRead : (buildDecks rules out fs earlier).1.read d.path = .ok content := by
    refine hBefore.read hResolve ?_ hContent
    rintro ⟨e, he, hWritten⟩
    exact hApart e he ⟨names, hAfter.resolve hWritten, hAfter.resolve (hBefore.resolve hResolve)⟩
  rw [compileFile, compileFile, Files.readText, Files.readText, hRead, hContent]

/-- After a build without failures every deck finds its module in its output if and only if decks
that share an output have the same module and the last of them was compiled from what its file held
before the build. The second holds where no deck overwrites the file of a later one. -/
theorem build_holdsModule_iff {s : Settings} {dir : Option String} {fs' : Files}
    {arguments : List String} {decks : List DeckSource} {report : BuildReport}
    (hFound : findDecks s fs arguments = .ok decks)
    (hBuild : build s dir fs arguments = .ok (fs', report)) (hNone : report.failedCount = 0) :
    ((∀ d ∈ decks, d.HoldsModule s.rules (s.output? dir) fs fs') ↔
      OutputsAgree s.rules (s.output? dir) fs fs' decks ∧
        LastUnchanged s.rules (s.output? dir) fs fs' decks) ∧
    (fs.root.WellFormed →
      decks.Pairwise (fun e d => ¬ fs'.SamePlace (e.output (s.output? dir)) d.path) →
      ((∀ d ∈ decks, d.HoldsModule s.rules (s.output? dir) fs fs') ↔
        OutputsAgree s.rules (s.output? dir) fs fs' decks)) := by
  rw [build, hFound] at hBuild
  have hRun : buildDecks s.rules (s.output? dir) fs decks = (fs', report) := Except.ok.inj hBuild
  have hIff := buildDecks_holdsModule_iff hRun hNone
  refine ⟨hIff, fun hWell hApart => hIff.trans (and_iff_left ?_)⟩
  rintro earlier d later rfl -
  obtain ⟨content, hContent⟩ :=
    findDecks_read hWell hFound (List.mem_append_right _ List.mem_cons_self)
  refine compileFile_unchanged hRun hContent fun e he => ?_
  exact (List.pairwise_append.1 hApart).2.2 e he d List.mem_cons_self

/-! ### Two decks of one stem -/

theorem writeModule_eq_built {made fs' : Files} {output : Path} {text : String}
    (hOther : (fs.readText output).toOption ≠ some text)
    (hParent : createParent fs output = (made, .ok ()))
    (hWrite : made.write output text.toUTF8 = .ok fs') :
    writeModule fs output text = (fs', .built) := by
  rw [writeModule, if_neg hOther, hParent]
  simp only [Files.writeText, hWrite]

/-- A section without elements, and an empty deck, in files whose modules are both `a.js`. -/
def sameStem : Files :=
  ⟨.directory [("a.yaml", .file "s: []".toUTF8), ("a.yml", .file "".toUTF8)], []⟩

/-- The files of `sameStem` and a module. -/
def sameStemWith (text : String) : Files :=
  ⟨.directory [("a.js", .file text.toUTF8), ("a.yaml", .file "s: []".toUTF8),
    ("a.yml", .file "".toUTF8)], []⟩

def sectionModule : String := Deck.toModule .empty ⟨[("s", .flat ⟨[]⟩)]⟩

def emptyModule : String := Deck.toModule .empty ⟨[]⟩

def sameStemDecks : List DeckSource := [⟨⟨"a.yaml"⟩, ⟨"a.yaml"⟩⟩, ⟨⟨"a.yml"⟩, ⟨"a.yml"⟩⟩]

theorem compileFile_section {fs : Files} {p : Path} (h : fs.read p = .ok "s: []".toUTF8) :
    compileFile (Settings.rules {}) fs p = .ok sectionModule := by
  have hTokens : (Yaml.Token.scan "s: []").toOption = some (Yaml.listUnder "s" []) := by decide +kernel
  have hWritten : Yaml.read "s: []" = .ok (.mapping [(.string "s", .list [])]) :=
    Yaml.read_of_scan hTokens rfl
  have hDeck : Deck.read "s: []" = .ok ⟨[("s", .flat ⟨[]⟩)]⟩ := by
    rw [Deck.read, hWritten]
    rfl
  rw [compileFile, Files.readText_eq_ok.2 h]
  simp only [hDeck]
  rfl

theorem compileFile_empty {fs : Files} {p : Path} (h : fs.read p = .ok "".toUTF8) :
    compileFile (Settings.rules {}) fs p = .ok emptyModule := by
  have hTokens : (Yaml.Token.scan "").toOption = some [] := by decide +kernel
  have hWritten : Yaml.read "" = .ok .null := Yaml.read_of_scan hTokens rfl
  have hDeck : Deck.read "" = .ok ⟨[]⟩ := by
    rw [Deck.read, hWritten]
    rfl
  rw [compileFile, Files.readText_eq_ok.2 h]
  simp only [hDeck]
  rfl

theorem createParent_module (fs : Files) : createParent fs ⟨"a.js"⟩ = (fs, .ok ()) := by
  have hParent : (Path.mk "a.js").parent? = some ⟨""⟩ := by rfl
  have hNothing : fs.createDirectories ⟨""⟩ = (fs, .ok ()) := by
    rw [Files.createDirectories, if_pos (by rfl)]
  rw [createParent, hParent]
  simp only [hNothing]

theorem sectionModule_ne_emptyModule : sectionModule ≠ emptyModule := by decide

theorem findDecks_sameStem : findDecks {} sameStem ["a.yaml", "a.yml"] = .ok sameStemDecks := by
  rfl

/-- The second module replaces the first, and the build reports both. -/
theorem build_sameStem : build {} none sameStem ["a.yaml", "a.yml"] =
    .ok (sameStemWith emptyModule, sameStemDecks.map fun d => (d, .built)) := by
  have hFirst : DeckSource.build (Settings.rules {}) none sameStem ⟨⟨"a.yaml"⟩, ⟨"a.yaml"⟩⟩ =
      (sameStemWith sectionModule, .built) := by
    have hNew : sameStem.readText ⟨"a.js"⟩ = .error .notFound := by rfl
    rw [DeckSource.build, compileFile_section (Files.read_eq_ok.2 ⟨["a.yaml"], rfl, rfl⟩)]
    refine writeModule_eq_built ?_ (createParent_module _) rfl
    exact fun h => nomatch hNew ▸ h
  have hSecond : DeckSource.build (Settings.rules {}) none (sameStemWith sectionModule)
      ⟨⟨"a.yml"⟩, ⟨"a.yml"⟩⟩ = (sameStemWith emptyModule, .built) := by
    have hThere : (sameStemWith sectionModule).readText ⟨"a.js"⟩ = .ok sectionModule :=
      Files.readText_eq_ok.2 (Files.read_eq_ok.2 ⟨["a.js"], rfl, rfl⟩)
    rw [DeckSource.build, compileFile_empty (Files.read_eq_ok.2 ⟨["a.yml"], rfl, rfl⟩)]
    refine writeModule_eq_built ?_ (createParent_module _) rfl
    intro h
    exact sectionModule_ne_emptyModule (Option.some.inj ((congrArg _ hThere).symm.trans h))
  rw [build, findDecks_sameStem]
  show Except.ok (buildDecks (Settings.rules {}) none sameStem sameStemDecks) = _
  simp only [sameStemDecks, buildDecks, hFirst, hSecond]
  rfl

/-- A build without failures can leave a deck without its module. -/
theorem build_loses_module : ∃ (fs : Files) (arguments : List String) (decks : List DeckSource)
    (fs' : Files) (report : BuildReport), findDecks {} fs arguments = .ok decks ∧
      build {} none fs arguments = .ok (fs', report) ∧ report.failedCount = 0 ∧
      ∃ d ∈ decks, ¬ d.HoldsModule (Settings.rules {}) none fs fs' := by
  refine ⟨sameStem, ["a.yaml", "a.yml"], _, _, _, findDecks_sameStem, build_sameStem, rfl,
    ⟨⟨"a.yaml"⟩, ⟨"a.yaml"⟩⟩, List.mem_cons_self, ?_⟩
  rintro ⟨text, hText, hRead⟩
  have hSection : compileFile (Settings.rules {}) sameStem ⟨"a.yaml"⟩ = .ok sectionModule :=
    compileFile_section (Files.read_eq_ok.2 ⟨["a.yaml"], rfl, rfl⟩)
  have hEmpty : (sameStemWith emptyModule).read ⟨"a.js"⟩ = .ok emptyModule.toUTF8 :=
    Files.read_eq_ok.2 ⟨["a.js"], rfl, rfl⟩
  rw [hSection] at hText
  cases Except.ok.inj hText
  exact sectionModule_ne_emptyModule
    (String.toByteArray_inj.1 (Except.ok.inj (hRead.symm.trans hEmpty)))

theorem sameStem_wellFormed : sameStem.root.WellFormed := by
  intro names es h
  cases names with
  | nil =>
    cases Option.some.inj h
    refine ⟨by decide, ?_⟩
    simp [Path.IsName]
  | cons name names =>
    rw [Tree.get?, Option.bind_eq_some_iff] at h
    obtain ⟨below, hBelow, hRest⟩ := h
    have hFile : below.isFile = true := by
      simp only [sameStem, Tree.child?, Dictionary.lookup_cons] at hBelow
      split at hBelow
      · cases hBelow
        rfl
      · split at hBelow
        · cases hBelow
          rfl
        · cases hBelow
    cases below with
    | file content =>
      cases names with
      | nil => cases hRest
      | cons _ _ => cases hRest
    | directory _ => cases hFile

theorem build_holdsModule_iff_sameStem :
    findDecks {} sameStem ["a.yaml", "a.yml"] = .ok sameStemDecks ∧
    build {} none sameStem ["a.yaml", "a.yml"] =
      .ok (sameStemWith emptyModule, sameStemDecks.map fun d => (d, .built)) ∧
    sameStem.root.WellFormed ∧
    sameStemDecks.Pairwise (fun e d =>
      ¬ (sameStemWith emptyModule).SamePlace (e.output none) d.path) ∧
    ((∀ d ∈ sameStemDecks,
        d.HoldsModule (Settings.rules {}) none sameStem (sameStemWith emptyModule)) ↔
      OutputsAgree (Settings.rules {}) none sameStem (sameStemWith emptyModule) sameStemDecks) := by
  have hApart : sameStemDecks.Pairwise (fun e d =>
      ¬ (sameStemWith emptyModule).SamePlace (e.output none) d.path) := by
    have hOutput : (sameStemWith emptyModule).resolve ⟨"a.js"⟩ = .ok ["a.js"] := by rfl
    have hDeck : (sameStemWith emptyModule).resolve ⟨"a.yml"⟩ = .ok ["a.yml"] := by rfl
    refine List.pairwise_pair.2 ?_
    rintro ⟨names, h1, h2⟩
    have hSame := (hOutput.symm.trans h1).trans (h2.symm.trans hDeck)
    exact absurd (Except.ok.inj hSame) (by decide)
  exact ⟨findDecks_sameStem, build_sameStem, sameStem_wellFormed, hApart,
    (build_holdsModule_iff findDecks_sameStem build_sameStem rfl).2 sameStem_wellFormed hApart⟩

end Slideshow
