import Slideshow.Proofs.Build.Report
import Slideshow.Proofs.Files.Within

/-! A build as one update. Where no output is a deck, and decks have an output in common only if they
are one file, a build without failures puts every module in its place at once: the order of the
arguments does not count, and building again changes nothing. -/

namespace Slideshow

open Files (Frame Update Within)
open BuildReport (isFailure)

variable {rules : RuleSet} {out : Option Path} {fs fs' target : Files} {decks : List DeckSource}
  {d : DeckSource} {report : BuildReport}

/-- Decks have the same output only if they are the same file, and no output is a deck. -/
structure OutputsApart (out : Option Path) (fs : Files) (decks : List DeckSource) : Prop where
  shared : ∀ d ∈ decks, ∀ e ∈ decks,
    fs.placeOf (d.output out) = fs.placeOf (e.output out) → fs.placeOf d.path = fs.placeOf e.path
  decks : ∀ d ∈ decks, ∀ e ∈ decks, fs.placeOf (d.output out) ≠ fs.placeOf e.path

/-! ### What a deck is compiled from -/

theorem compileFile_eq_ok {p : Path} {module : String} :
    compileFile rules fs p = .ok module ↔ ∃ text deck, fs.read p = .ok text.toUTF8 ∧
      Deck.read text = .ok deck ∧ deck.toModule rules = module := by
  rw [compileFile]
  constructor
  · intro h
    split at h
    · cases h
    · rename_i text hText
      split at h
      · cases h
      · rename_i deck hDeck
        exact ⟨text, deck, Files.readText_eq_ok.1 hText, hDeck, Except.ok.inj h⟩
  · rintro ⟨text, deck, hRead, hDeck, rfl⟩
    simp only [Files.readText_eq_ok.2 hRead, hDeck]

/-- Files with the same content give the same module. -/
theorem compileFile_of_read {p q : Path} {module : String} (hRead : fs'.read q = fs.read p)
    (h : compileFile rules fs p = .ok module) : compileFile rules fs' q = .ok module := by
  obtain ⟨text, deck, hText, hDeck, hModule⟩ := compileFile_eq_ok.1 h
  exact compileFile_eq_ok.2 ⟨text, deck, hRead.trans hText, hDeck, hModule⟩

/-- A deck that is not written keeps its module. -/
theorem Files.Frame.compileFile {written : List String → Prop} (hFrame : Frame written fs fs')
    {p : Path} {module : String} (hApart : ¬ written (fs.placeOf p))
    (h : Slideshow.compileFile rules fs p = .ok module) :
    Slideshow.compileFile rules fs' p = .ok module := by
  obtain ⟨text, -, hRead, -⟩ := compileFile_eq_ok.1 h
  obtain ⟨names, hResolve, -⟩ := Files.read_eq_ok.1 hRead
  rw [← Files.eq_placeOf_of_resolve hResolve] at hApart
  exact compileFile_of_read ((hFrame.read hResolve hApart hRead).trans hRead.symm) h

/-! ### Builds that do not fail -/

/-- On the way to files that hold something at an output, a module can be written there. -/
theorem Files.Within.writeModule {output : Path} {content : ByteArray} (h : fs.Within target)
    (hHere : fs.root.node? fs.here = some .directory)
    (hTarget : target.read output = .ok content) (text : String) :
    isFailure (Slideshow.writeModule fs output text).2 = false ∧
      (Slideshow.writeModule fs output text).1.Within target := by
  obtain ⟨names, hResolve, hFile⟩ := Files.read_eq_ok.1 hTarget
  obtain ⟨-, name, -, hName, hEnd⟩ := Files.resolve_file hResolve hFile
  obtain ⟨above, hParent⟩ := Path.parent?_isSome hName
  obtain ⟨hAbove, rfl⟩ := (Files.resolve_iff_parent hEnd hParent).1 hResolve
  obtain ⟨made, hMade, hWithin, hEnters⟩ :=
    h.createDirectories hHere hAbove (Path.endsInName_parent hParent)
  have hOutput : made.resolve output = .ok (target.placeOf output) :=
    (Files.resolve_iff_parent hEnd hParent).2 ⟨hEnters, hWithin.placeOf output⟩
  have hNode : made.root.node? (target.placeOf output) ≠ some .directory := by
    intro hDirectory
    rw [hWithin.directories _ hDirectory] at hFile
    exact nomatch hFile
  obtain ⟨done, hWrite⟩ := Files.exists_write hOutput hNode text.toUTF8
  obtain ⟨names, hNames, -, hUpdate⟩ := Files.write_eq_ok hWrite
  cases hOutput.symm.trans hNames
  have hCreated : createParent fs output = (made, .ok ()) := by
    rw [createParent, hParent]
    simp only [hMade]
  rw [Slideshow.writeModule]
  split
  · exact ⟨rfl, h⟩
  · rw [hCreated]
    simp only [Files.writeText, hWrite]
    refine ⟨rfl, hWithin.update hUpdate (fun _ hNever => hNever.elim) ?_⟩
    rintro _ rfl
    exact ⟨content, hFile⟩

/-- On the way to files that hold something at every output, decks that can be compiled and that no
output belongs to are built without failures. -/
theorem Files.Within.buildDecks (h : fs.Within target)
    (hHere : fs.root.node? fs.here = some .directory)
    (hTarget : ∀ d ∈ decks, ∃ content, target.read (d.output out) = .ok content)
    (hCompile : ∀ d ∈ decks, ∃ module, compileFile rules fs d.path = .ok module)
    (hApart : ∀ d ∈ decks, ∀ e ∈ decks, fs.placeOf (d.output out) ≠ fs.placeOf e.path) :
    (Slideshow.buildDecks rules out fs decks).2.failedCount = 0 := by
  induction decks generalizing fs with
  | nil => rfl
  | cons d ds ih =>
    obtain ⟨content, hRead⟩ := hTarget d List.mem_cons_self
    obtain ⟨module, hModule⟩ := hCompile d List.mem_cons_self
    have hBuild : d.build rules out fs = Slideshow.writeModule fs (d.output out) module := by
      rw [DeckSource.build, hModule]
    obtain ⟨hDone, hWithin⟩ := h.writeModule hHere hRead module
    obtain ⟨hUpdate, -⟩ := DeckSource.build_spec rules out fs d
    rw [← hBuild] at hDone hWithin
    have hRest := ih hWithin (by rw [hUpdate.here]; exact hUpdate.directories _ hHere)
      (fun e he => hTarget e (List.mem_cons_of_mem _ he)) ?_ ?_
    · rw [Slideshow.buildDecks, BuildReport.failedCount, List.countP_cons_of_neg (by simpa using hDone)]
      exact hRest
    · -- The rest compile as before: the output of `d` is none of them.
      intro e he
      obtain ⟨module, hModule⟩ := hCompile e (List.mem_cons_of_mem _ he)
      refine ⟨module, hUpdate.compileFile (fun hWritten => ?_) hModule⟩
      have hSame := Files.eq_placeOf_of_resolve hWritten.2
      rw [hUpdate.placeOf] at hSame
      exact hApart d List.mem_cons_self e (List.mem_cons_of_mem _ he) hSame.symm
    · intro e he c hc
      rw [hUpdate.placeOf, hUpdate.placeOf]
      exact hApart e (List.mem_cons_of_mem _ he) c (List.mem_cons_of_mem _ hc)

/-! ### The files after a run -/

theorem Files.SamePlace.placeOf {p q : Path} (h : fs.SamePlace p q) : fs.placeOf p = fs.placeOf q := by
  obtain ⟨names, hp, hq⟩ := h
  rw [← Files.eq_placeOf_of_resolve hp, ← Files.eq_placeOf_of_resolve hq]

/-- A run without failures over decks that can be read and whose outputs are apart. -/
structure CleanRun (rules : RuleSet) (out : Option Path) (fs fs' : Files)
    (decks : List DeckSource) (report : BuildReport) : Prop where
  run : buildDecks rules out fs decks = (fs', report)
  succeeds : report.failedCount = 0
  apart : OutputsApart out fs decks
  readable : ∀ d ∈ decks, ∃ content, fs.read d.path = .ok content

namespace CleanRun

variable (h : CleanRun rules out fs fs' decks report)

include h

theorem update : Update (fun names => ∃ d ∈ decks, fs.IsAbove (d.output out) names)
    (fun names => ∃ d ∈ decks, fs'.resolve (d.output out) = .ok names) fs fs' := by
  have hUpdate := buildDecks_update rules out fs decks
  rwa [h.run] at hUpdate

/-- Every deck is compiled from what it held before the run. -/
theorem compile_turn {earlier later : List DeckSource} (hSplit : decks = earlier ++ d :: later) :
    compileFile rules (buildDecks rules out fs earlier).1 d.path = compileFile rules fs d.path := by
  have hd : d ∈ decks := hSplit ▸ List.mem_append_right _ List.mem_cons_self
  obtain ⟨content, hContent⟩ := h.readable d hd
  refine compileFile_unchanged (hSplit ▸ h.run) hContent fun e he hSame => ?_
  have hPlace := hSame.placeOf
  rw [h.update.placeOf, h.update.placeOf] at hPlace
  exact h.apart.decks e (hSplit ▸ List.mem_append_left _ he) d hd hPlace

theorem compile (hd : d ∈ decks) : ∃ module, compileFile rules fs d.path = .ok module := by
  obtain ⟨earlier, later, hSplit⟩ := List.append_of_mem hd
  obtain ⟨-, module, hModule, -⟩ := buildDecks_turn (hSplit ▸ h.run) h.succeeds
  exact ⟨module, (h.compile_turn hSplit).symm.trans hModule⟩

/-- Decks with the same output are the same file, so they have the same module. -/
theorem holdsModule : ∀ d ∈ decks, d.HoldsModule rules out fs fs' := by
  refine (buildDecks_holdsModule_iff h.run h.succeeds).2
    ⟨fun d hd e he hSame => ?_, fun _ _ _ hSplit _ => h.compile_turn hSplit⟩
  have hPlace := hSame.placeOf
  rw [h.update.placeOf, h.update.placeOf] at hPlace
  have hSource := h.apart.shared d hd e he hPlace
  obtain ⟨content, hContent⟩ := h.readable d hd
  obtain ⟨content', hContent'⟩ := h.readable e he
  obtain ⟨names, hResolve, -⟩ := Files.read_eq_ok.1 hContent
  obtain ⟨names', hResolve', -⟩ := Files.read_eq_ok.1 hContent'
  have hSame : fs.SamePlace e.path d.path := by
    rw [Files.eq_placeOf_of_resolve hResolve] at hResolve
    rw [Files.eq_placeOf_of_resolve hResolve', ← hSource] at hResolve'
    exact ⟨_, hResolve', hResolve⟩
  obtain ⟨module, hModule⟩ := h.compile hd
  rw [hModule, compileFile_of_read hSame.read hModule]

/-- Every output stands in the end at its place, as a file with the module of its deck. -/
theorem node?_output (hd : d ∈ decks) : ∃ module, compileFile rules fs d.path = .ok module ∧
    fs'.resolve (d.output out) = .ok (fs.placeOf (d.output out)) ∧
    fs'.root.node? (fs.placeOf (d.output out)) = some (.file module.toUTF8) := by
  obtain ⟨module, hModule, hOutput⟩ := h.holdsModule d hd
  obtain ⟨names, hResolve, hNode⟩ := Files.read_eq_ok.1 hOutput
  rw [Files.eq_placeOf_of_resolve hResolve, h.update.placeOf] at hNode hResolve
  exact ⟨module, hModule, hResolve, hNode⟩

theorem not_written {names : List String} (hNames : ∀ d ∈ decks, names ≠ fs.placeOf (d.output out)) :
    ¬ ∃ d ∈ decks, fs'.resolve (d.output out) = .ok names := by
  rintro ⟨d, hd, hResolve⟩
  exact hNames d hd ((Files.eq_placeOf_of_resolve hResolve).trans (h.update.placeOf _))

/-- Away from the outputs nothing is new but directories above them. -/
theorem node?_elsewhere {names : List String}
    (hNames : ∀ d ∈ decks, names ≠ fs.placeOf (d.output out)) :
    fs'.root.node? names = fs.root.node? names ∨
      fs.root.node? names = none ∧ fs'.root.node? names = some .directory ∧
        ∃ d ∈ decks, fs.IsAbove (d.output out) names := by
  have hFiles := h.update.files names (h.not_written hNames)
  cases hNode : fs.root.node? names with
  | some node =>
    cases node with
    | file content => exact .inl ((hFiles content).2 hNode)
    | directory => exact .inl (h.update.directories names hNode)
  | none =>
    cases hNode' : fs'.root.node? names with
    | none => exact .inl rfl
    | some node =>
      cases node with
      | file content => exact nomatch hNode.symm.trans ((hFiles content).1 hNode')
      | directory =>
        refine .inr ⟨rfl, rfl, (h.update.new names hNode').resolve_left fun hOld => ?_⟩
        exact nomatch hNode.symm.trans hOld

/-- All directories above outputs are there in the end. -/
theorem directory_of_isAbove {names : List String} (hd : d ∈ decks)
    (hAbove : fs.IsAbove (d.output out) names) : fs'.root.node? names = some .directory := by
  obtain ⟨module, -, hResolve, hFile⟩ := h.node?_output hd
  obtain ⟨-, name, -, -, hEnd⟩ := Files.resolve_file hResolve hFile
  obtain ⟨q, hq, rfl⟩ := hAbove
  rw [← h.update.placeOf]
  exact (Files.enters_of_isAbove hq hEnd hResolve).2

theorem within : fs.Within fs' := by
  refine ⟨h.update.here, h.update.directories, fun names content hFile => ?_⟩
  by_cases hOutput : ∃ d ∈ decks, names = fs.placeOf (d.output out)
  · obtain ⟨d, hd, rfl⟩ := hOutput
    obtain ⟨module, -, -, hNode⟩ := h.node?_output hd
    exact ⟨_, hNode⟩
  · have hNames : ∀ d ∈ decks, names ≠ fs.placeOf (d.output out) :=
      fun d hd hEq => hOutput ⟨d, hd, hEq⟩
    exact ⟨content, (h.update.files names (h.not_written hNames) content).2 hFile⟩

theorem wellFormed (hWell : fs.WellFormed) : fs'.WellFormed :=
  ⟨h.update.wellFormed hWell.root, by rw [h.update.here]; exact h.update.directories _ hWell.here⟩

omit h

variable {fs₁ fs₂ : Files} {decks₁ decks₂ : List DeckSource} {report₁ report₂ : BuildReport}

theorem node?_mono (h₁ : CleanRun rules out fs fs₁ decks₁ report₁)
    (h₂ : CleanRun rules out fs fs₂ decks₂ report₂) (hDecks : ∀ d, d ∈ decks₁ ↔ d ∈ decks₂)
    {names : List String} {node : Tree.Node} (hNode : fs₁.root.node? names = some node) :
    fs₂.root.node? names = some node := by
  by_cases hOutput : ∃ d ∈ decks₁, names = fs.placeOf (d.output out)
  · obtain ⟨d, hd, rfl⟩ := hOutput
    obtain ⟨module₁, hModule₁, -, hNode₁⟩ := h₁.node?_output hd
    obtain ⟨module₂, hModule₂, -, hNode₂⟩ := h₂.node?_output ((hDecks d).1 hd)
    cases hModule₁.symm.trans hModule₂
    exact hNode₂.trans (hNode₁.symm.trans hNode)
  · have hNames₁ : ∀ d ∈ decks₁, names ≠ fs.placeOf (d.output out) :=
      fun d hd hEq => hOutput ⟨d, hd, hEq⟩
    obtain hOld₁ | ⟨-, hNew, d, hd, hAbove⟩ := h₁.node?_elsewhere hNames₁
    · rw [hOld₁] at hNode
      obtain hOld₂ | ⟨hNone, -⟩ :=
        h₂.node?_elsewhere fun d hd => hNames₁ d ((hDecks d).2 hd)
      · exact hOld₂.trans hNode
      · exact nomatch hNone.symm.trans hNode
    · -- A new directory is above an output, and the other run needs it as well.
      rw [← hNode, hNew]
      exact h₂.directory_of_isAbove ((hDecks d).1 hd) hAbove

/-- Runs over the same decks leave the same files. -/
theorem unique (hWell : fs.WellFormed) (h₁ : CleanRun rules out fs fs₁ decks₁ report₁)
    (h₂ : CleanRun rules out fs fs₂ decks₂ report₂) (hDecks : ∀ d, d ∈ decks₁ ↔ d ∈ decks₂) :
    fs₁ = fs₂ := by
  refine (h₁.wellFormed hWell).ext (h₂.wellFormed hWell)
    (h₁.update.here.trans h₂.update.here.symm) fun names => Option.ext fun node => ?_
  exact ⟨node?_mono h₁ h₂ hDecks, node?_mono h₂ h₁ fun d => (hDecks d).symm⟩

include h

/-- The order of the decks does not count. -/
theorem perm (hWell : fs.WellFormed) {decks' : List DeckSource} (hPerm : decks.Perm decks') :
    ∃ report', CleanRun rules out fs fs' decks' report' := by
  have hMem (d : DeckSource) : d ∈ decks' → d ∈ decks := hPerm.mem_iff.2
  have hOther : CleanRun rules out fs (buildDecks rules out fs decks').1 decks'
      (buildDecks rules out fs decks').2 := by
    refine ⟨rfl, ?_, ⟨?_, ?_⟩, fun d hd => h.readable d (hMem d hd)⟩
    · refine h.within.buildDecks hWell.here (fun d hd => ?_) (fun d hd => h.compile (hMem d hd)) ?_
      · obtain ⟨module, -, hRead⟩ := h.holdsModule d (hMem d hd)
        exact ⟨_, hRead⟩
      · exact fun d hd e he => h.apart.decks d (hMem d hd) e (hMem e he)
    · exact fun d hd e he => h.apart.shared d (hMem d hd) e (hMem e he)
    · exact fun d hd e he => h.apart.decks d (hMem d hd) e (hMem e he)
  rw [← unique hWell h hOther fun d => hPerm.mem_iff] at hOther
  exact ⟨_, hOther⟩

/-- A deck is compiled to the same module again, which its output holds already. -/
theorem build_again (hd : d ∈ decks) : d.build rules out fs' = (fs', .unchanged) := by
  obtain ⟨module, hModule, hRead⟩ := h.holdsModule d hd
  have hCompile : compileFile rules fs' d.path = .ok module := by
    refine h.update.compileFile (h.not_written fun e he => ?_) hModule
    exact (h.apart.decks e he d hd).symm
  rw [DeckSource.build, hCompile]
  simp only [writeModule, Files.readText_eq_ok.2 hRead]
  exact if_pos rfl

/-- A second run changes nothing. -/
theorem again : buildDecks rules out fs' decks = (fs', decks.map fun d => (d, .unchanged)) := by
  -- The files stay the same throughout, so the induction is on the decks that are left.
  have hPart (ds : List DeckSource) (hds : ∀ d ∈ ds, d ∈ decks) :
      buildDecks rules out fs' ds = (fs', ds.map fun d => (d, .unchanged)) := by
    induction ds with
    | nil => rfl
    | cons d ds ih =>
      obtain ⟨hd, hds⟩ := List.forall_mem_cons.1 hds
      rw [buildDecks, h.build_again hd, ih hds]
      rfl
  exact hPart decks fun _ => id

end CleanRun

/-! ### Builds -/

theorem DeckSource.exists_output_eq (d : DeckSource) (out : Option Path) :
    ∃ p : Path, d.output out = p.withExtension "js" := by
  cases out with
  | none => exact ⟨d.path, rfl⟩
  | some directory => exact ⟨directory.join d.relative, rfl⟩

/-- An output that ends in a name has the extension of a module. -/
theorem DeckSource.extension?_output {name : String} (hName : (d.output out).fileName? = some name) :
    (Path.splitName name).2 = some "js" := by
  obtain ⟨p, hOutput⟩ := d.exists_output_eq out
  rw [hOutput] at hName
  exact Path.fileName?_withExtension (by decide) (by decide) hName

theorem DeckSource.isDeck_output {s : Settings} {above : List String} {name : String}
    {content : ByteArray} (hExtensions : ∀ e ∈ s.extensions, Settings.sameUpToCase "js" e = false)
    (hResolve : fs.resolve (d.output out) = .ok (above ++ [name]))
    (hFile : fs.root.node? (above ++ [name]) = some (.file content)) : s.isDeck ⟨name⟩ = false := by
  obtain ⟨parent, name', hNames, hName, -⟩ := Files.resolve_file hResolve hFile
  obtain ⟨-, hEq⟩ := List.append_inj' hNames rfl
  cases hEq
  have hAlone := Path.fileName?_of_isName (Path.isName_of_fileName? hName)
  rw [Settings.isDeck, Path.extension?_of_fileName? hAlone, extension?_output hName]
  simpa using hExtensions

/-- A build without failures of decks whose outputs are apart puts the module of every deck into its
output and changes nothing else but for new directories above outputs; it leaves the same files
whatever the order of the arguments; and the same build again finds every module in its place. -/
theorem build_update {s : Settings} {dir : Option String} {arguments : List String}
    (hWell : fs.WellFormed)
    (hExtensions : ∀ e ∈ s.extensions, Settings.sameUpToCase "js" e = false)
    (hFound : findDecks s fs arguments = .ok decks)
    (hApart : OutputsApart (s.output? dir) fs decks)
    (hBuild : build s dir fs arguments = .ok (fs', report)) (hNone : report.failedCount = 0) :
    ((∀ d ∈ decks, d.HoldsModule s.rules (s.output? dir) fs fs') ∧
      ∀ names, (∀ d ∈ decks, names ≠ fs.placeOf (d.output (s.output? dir))) →
        fs'.root.node? names = fs.root.node? names ∨
          fs.root.node? names = none ∧ fs'.root.node? names = some .directory ∧
            ∃ d ∈ decks, fs.IsAbove (d.output (s.output? dir)) names) ∧
    (∀ arguments', arguments.Perm arguments' → ∃ report',
      build s dir fs arguments' = .ok (fs', report') ∧ report'.failedCount = 0) ∧
    ∃ again, build s dir fs' arguments = .ok (fs', again) ∧ again.failedCount = 0 ∧
      again.builtCount = 0 ∧ again.unchangedCount = decks.length := by
  rw [build, hFound] at hBuild
  have hClean : CleanRun s.rules (s.output? dir) fs fs' decks report :=
    ⟨Except.ok.inj hBuild, hNone, hApart, fun d hd => findDecks_read hWell.root hFound hd⟩
  refine ⟨⟨hClean.holdsModule, fun names hNames => hClean.node?_elsewhere hNames⟩, ?_, ?_⟩
  · intro arguments' hPerm
    obtain ⟨decks', hFound', hDecks⟩ := findDecks_perm hPerm hFound
    obtain ⟨report', hClean'⟩ := hClean.perm hWell hDecks
    refine ⟨report', ?_, hClean'.succeeds⟩
    rw [build, hFound', ← hClean'.run]
    rfl
  · have hAgain : findDecks s fs' arguments = .ok decks := by
      refine findDecks_update hWell.root hClean.update ?_ ?_ hFound
      · rintro names ⟨d, hd, hResolve⟩
        obtain ⟨module, -, hOutput, hFile⟩ := hClean.node?_output hd
        cases hResolve.symm.trans hOutput
        exact ⟨_, hFile⟩
      · rintro above name ⟨d, hd, hResolve⟩
        obtain ⟨module, -, hOutput, hFile⟩ := hClean.node?_output hd
        rw [← Except.ok.inj (hResolve.symm.trans hOutput)] at hFile
        exact d.isDeck_output hExtensions hResolve hFile
    refine ⟨decks.map fun d => (d, .unchanged), ?_, ?_, ?_, ?_⟩
    · rw [build, hAgain, ← hClean.again]
      rfl
    · simp [BuildReport.failedCount, isFailure]
    · simp [BuildReport.builtCount]
    · simp [BuildReport.unchangedCount]

/-! ### Two decks and an output directory -/

def twoDecks : Files :=
  ⟨.directory [("a.yaml", .file "s: []".toUTF8), ("b.yml", .file "".toUTF8)], []⟩

/-- The files of `twoDecks` and the directory `o`. -/
def twoDecksWith (modules : List (String × Tree)) : Files :=
  ⟨.directory [("a.yaml", .file "s: []".toUTF8), ("b.yml", .file "".toUTF8),
    ("o", .directory modules)], []⟩

def twoModules : Files :=
  twoDecksWith [("a.js", .file sectionModule.toUTF8), ("b.js", .file emptyModule.toUTF8)]

def twoSources : List DeckSource := [⟨⟨"a.yaml"⟩, ⟨"a.yaml"⟩⟩, ⟨⟨"b.yml"⟩, ⟨"b.yml"⟩⟩]

theorem twoDecks_wellFormed : twoDecks.WellFormed := by
  refine ⟨Tree.wellFormed_directory.2 ⟨by decide, ?_⟩, rfl⟩
  intro e he
  simp only [List.mem_cons, List.not_mem_nil, or_false] at he
  obtain rfl | rfl := he
  · exact ⟨by simp [Path.IsName], Tree.wellFormed_of_isLeaf rfl⟩
  · exact ⟨by simp [Path.IsName], Tree.wellFormed_of_isLeaf rfl⟩

theorem twoSources_apart :
    OutputsApart (Settings.output? {} (some "o")) twoDecks twoSources := by
  have hOut : Settings.output? {} (some "o") = some ⟨"o"⟩ := by rfl
  have hFirst : twoDecks.placeOf ⟨"a.yaml"⟩ = ["a.yaml"] := by rfl
  have hSecond : twoDecks.placeOf ⟨"b.yml"⟩ = ["b.yml"] := by rfl
  have hFirstOutput : twoDecks.placeOf (DeckSource.output ⟨⟨"a.yaml"⟩, ⟨"a.yaml"⟩⟩ (some ⟨"o"⟩)) =
      ["o", "a.js"] := by rfl
  have hSecondOutput : twoDecks.placeOf (DeckSource.output ⟨⟨"b.yml"⟩, ⟨"b.yml"⟩⟩ (some ⟨"o"⟩)) =
      ["o", "b.js"] := by rfl
  rw [hOut]
  constructor
  · simp [twoSources, hFirstOutput, hSecondOutput]
  · simp [twoSources, hFirst, hSecond, hFirstOutput, hSecondOutput]

theorem createParent_of_ensureDirectory {made : Files} {output : Path} (above : Path)
    (hParent : output.parent? = some above) (hText : above.text.isEmpty = false)
    (hMade : fs.ensureDirectory above = .ok made) : createParent fs output = (made, .ok ()) := by
  rw [createParent, hParent]
  simp only
  rw [Files.createDirectories, hText, if_neg Bool.false_ne_true, hMade]

theorem findDecks_twoDecks : findDecks {} twoDecks ["a.yaml", "b.yml"] = .ok twoSources := by
  rfl

/-- The first deck makes the directory, the second finds it. -/
theorem build_twoDecks : build {} (some "o") twoDecks ["a.yaml", "b.yml"] =
    .ok (twoModules, twoSources.map fun d => (d, .built)) := by
  have hFirst : DeckSource.build (Settings.rules {}) (some ⟨"o"⟩) twoDecks
      ⟨⟨"a.yaml"⟩, ⟨"a.yaml"⟩⟩ =
        (twoDecksWith [("a.js", .file sectionModule.toUTF8)], .built) := by
    have hNew : (twoDecks.readText ⟨"o/a.js"⟩).toOption = none := by rfl
    have hMade : createParent twoDecks ⟨"o/a.js"⟩ = (twoDecksWith [], .ok ()) :=
      createParent_of_ensureDirectory ⟨"o"⟩ rfl rfl rfl
    rw [DeckSource.build, compileFile_section (Files.read_eq_ok.2 ⟨["a.yaml"], rfl, rfl⟩)]
    refine writeModule_eq_built ?_ hMade rfl
    exact fun h => Option.some_ne_none _ (h.symm.trans hNew)
  have hSecond : DeckSource.build (Settings.rules {}) (some ⟨"o"⟩)
      (twoDecksWith [("a.js", .file sectionModule.toUTF8)]) ⟨⟨"b.yml"⟩, ⟨"b.yml"⟩⟩ =
        (twoModules, .built) := by
    have hNew : ((twoDecksWith [("a.js", .file sectionModule.toUTF8)]).readText
        ⟨"o/b.js"⟩).toOption = none := by rfl
    have hThere : createParent (twoDecksWith [("a.js", .file sectionModule.toUTF8)]) ⟨"o/b.js"⟩ =
        (twoDecksWith [("a.js", .file sectionModule.toUTF8)], .ok ()) :=
      createParent_of_ensureDirectory ⟨"o"⟩ rfl rfl rfl
    rw [DeckSource.build, compileFile_empty (Files.read_eq_ok.2 ⟨["b.yml"], rfl, rfl⟩)]
    refine writeModule_eq_built ?_ hThere rfl
    exact fun h => Option.some_ne_none _ (h.symm.trans hNew)
  rw [build, findDecks_twoDecks]
  show Except.ok (buildDecks (Settings.rules {}) (some ⟨"o"⟩) twoDecks twoSources) = _
  simp only [twoSources, buildDecks, hFirst, hSecond]
  rfl

theorem build_update_twoDecks :
    twoDecks.WellFormed ∧
    (∀ e ∈ (Settings.mk none ["yaml", "yml"] .empty).extensions,
      Settings.sameUpToCase "js" e = false) ∧
    findDecks {} twoDecks ["a.yaml", "b.yml"] = .ok twoSources ∧
    OutputsApart (Settings.output? {} (some "o")) twoDecks twoSources ∧
    build {} (some "o") twoDecks ["a.yaml", "b.yml"] =
      .ok (twoModules, twoSources.map fun d => (d, .built)) ∧
    (∀ arguments', ["a.yaml", "b.yml"].Perm arguments' → ∃ report',
      build {} (some "o") twoDecks arguments' = .ok (twoModules, report') ∧
        report'.failedCount = 0) ∧
    ∃ again, build {} (some "o") twoModules ["a.yaml", "b.yml"] = .ok (twoModules, again) ∧
      again.failedCount = 0 ∧ again.builtCount = 0 ∧ again.unchangedCount = twoSources.length := by
  have hExtensions : ∀ e ∈ (Settings.mk none ["yaml", "yml"] .empty).extensions,
      Settings.sameUpToCase "js" e = false := by decide
  exact ⟨twoDecks_wellFormed, hExtensions, findDecks_twoDecks, twoSources_apart, build_twoDecks,
    (build_update twoDecks_wellFormed hExtensions findDecks_twoDecks twoSources_apart build_twoDecks
      rfl).2⟩

end Slideshow
