import Slideshow.Proofs.Build.Update

/-! What a build does to its own decks. A deck keeps its content unless a module is written over it,
which happens to files with the extension of a module only: a deck `a.js` that is built without an
output directory is replaced by its module. -/

namespace Slideshow

open BuildReport (isFailure)

variable {rules : RuleSet} {out : Option Path} {fs : Files} {decks : List DeckSource} {p : Path}
  {content : ByteArray}

/-- Of the decks `done ++ e :: rest` of a run, `e` is the last one that is built where a path
leads. -/
structure BuiltOver (rules : RuleSet) (out : Option Path) (fs : Files) (p : Path)
    (done : List DeckSource) (e : DeckSource) (rest : List DeckSource) : Prop where
  built : (e.build rules out (buildDecks rules out fs done).1).2 = .built
  place : fs.placeOf (e.output out) = fs.placeOf p
  last : ∀ c, (c, .built) ∈
      (buildDecks rules out (e.build rules out (buildDecks rules out fs done).1).1 rest).2 →
    fs.placeOf (c.output out) ≠ fs.placeOf p

/-- A file that no deck is built over stays as it is. -/
theorem buildDecks_read_kept (hRead : fs.read p = .ok content)
    (hApart : ∀ c, (c, .built) ∈ (buildDecks rules out fs decks).2 →
      fs.placeOf (c.output out) ≠ fs.placeOf p) :
    (buildDecks rules out fs decks).1.read p = .ok content := by
  have hUpdate := buildDecks_update_built rules out fs decks
  obtain ⟨names, hResolve, -⟩ := Files.read_eq_ok.1 hRead
  refine hUpdate.read hResolve ?_ hRead
  rintro ⟨c, hBuilt, hNames⟩
  have hPlace := Files.eq_placeOf_of_resolve hNames
  rw [hUpdate.placeOf] at hPlace
  exact hApart c hBuilt (hPlace.symm.trans (Files.eq_placeOf_of_resolve hResolve))

section BuiltOver

variable {done rest : List DeckSource} {e : DeckSource}

/-- What is built where a path leads is found there at once. -/
theorem BuiltOver.samePlace (h : BuiltOver rules out fs p done e rest)
    (hRead : fs.read p = .ok content) :
    ∃ module, compileFile rules (buildDecks rules out fs done).1 e.path = .ok module ∧
      (e.build rules out (buildDecks rules out fs done).1).1.read (e.output out) =
        .ok module.toUTF8 ∧
      (e.build rules out (buildDecks rules out fs done).1).1.SamePlace p (e.output out) := by
  have hBefore := buildDecks_update rules out fs done
  obtain ⟨hUpdate, hDone⟩ := e.build_spec rules out (buildDecks rules out fs done).1
  obtain ⟨module, hModule, hOutput⟩ := hDone (by rw [h.built]; rfl)
  obtain ⟨names, hResolve, -⟩ := Files.read_eq_ok.1 hRead
  obtain ⟨names', hResolve', -⟩ := Files.read_eq_ok.1 hOutput
  have hSame : names' = names := by
    rw [Files.eq_placeOf_of_resolve hResolve', Files.eq_placeOf_of_resolve hResolve,
      hUpdate.placeOf, hBefore.placeOf, h.place]
  exact ⟨module, hModule, hOutput, names, hUpdate.resolve (hBefore.resolve hResolve),
    hSame ▸ hResolve'⟩

/-- A file that decks are built over holds the module of the last of them. -/
theorem BuiltOver.read (h : BuiltOver rules out fs p done e rest)
    (hRead : fs.read p = .ok content) :
    ∃ module, compileFile rules (buildDecks rules out fs done).1 e.path = .ok module ∧
      (buildDecks rules out fs (done ++ e :: rest)).1.read p = .ok module.toUTF8 := by
  obtain ⟨module, hModule, hOutput, hSame⟩ := h.samePlace hRead
  have hBefore := buildDecks_update rules out fs done
  obtain ⟨hUpdate, -⟩ := e.build_spec rules out (buildDecks rules out fs done).1
  refine ⟨module, hModule, ?_⟩
  rw [buildDecks_append, buildDecks]
  refine buildDecks_read_kept (hSame.read.trans hOutput) fun c hc => ?_
  rw [hUpdate.placeOf, hBefore.placeOf, hUpdate.placeOf, hBefore.placeOf]
  exact h.last c hc

/-- Only a file with the extension of a module is built over. -/
theorem BuiltOver.extension? (h : BuiltOver rules out fs p done e rest)
    (hRead : fs.read p = .ok content) : p.extension? = some "js" := by
  obtain ⟨module, -, hOutput, hSame⟩ := h.samePlace hRead
  obtain ⟨names, hResolve, hFile⟩ := Files.read_eq_ok.1 (hSame.read.trans hOutput)
  obtain ⟨names', hp, hOutput⟩ := hSame
  cases hResolve.symm.trans hp
  obtain ⟨parent, name, rfl, hName, -⟩ := Files.resolve_file hp hFile
  obtain ⟨parent', name', hEq, hName', -⟩ := Files.resolve_file hOutput hFile
  obtain ⟨-, hLast⟩ := List.append_inj' hEq rfl
  cases hLast
  rw [Path.extension?_of_fileName? hName, DeckSource.extension?_output hName']

end BuiltOver

/-- Of the decks that are built over a file, one is the last. -/
theorem exists_builtOver {c : DeckSource}
    (hBuilt : (c, .built) ∈ (buildDecks rules out fs decks).2)
    (hPlace : fs.placeOf (c.output out) = fs.placeOf p) :
    ∃ done e rest, decks = done ++ e :: rest ∧ BuiltOver rules out fs p done e rest := by
  induction decks generalizing fs c with
  | nil => exact absurd hBuilt List.not_mem_nil
  | cons d ds ih =>
    obtain ⟨hUpdate, -⟩ := d.build_spec rules out fs
    -- The last one comes from the rest of the run, unless no deck of the rest is built there.
    by_cases hLater : ∃ c, (c, .built) ∈ (buildDecks rules out (d.build rules out fs).1 ds).2 ∧
        fs.placeOf (c.output out) = fs.placeOf p
    · obtain ⟨c, hBuilt, hPlace⟩ := hLater
      rw [← hUpdate.placeOf, ← hUpdate.placeOf p] at hPlace
      obtain ⟨done, e, rest, rfl, hOver⟩ := ih hBuilt hPlace
      refine ⟨d :: done, e, rest, rfl, hOver.built, ?_, fun c hc => ?_⟩
      · rw [← hUpdate.placeOf, hOver.place, hUpdate.placeOf]
      · rw [← hUpdate.placeOf, ← hUpdate.placeOf p]
        exact hOver.last c hc
    · rw [buildDecks] at hBuilt
      obtain hFirst | hBuilt := List.mem_cons.1 hBuilt
      · rw [Prod.mk.injEq] at hFirst
        obtain ⟨rfl, hOutcome⟩ := hFirst
        exact ⟨[], c, ds, rfl, hOutcome.symm, hPlace, fun c hc hEq => hLater ⟨c, hc, hEq⟩⟩
      · exact absurd ⟨c, hBuilt, hPlace⟩ hLater

/-- A deck has its content after a build if and only if the last module that is built over it, if
there is one, is that content. It always has it unless it has the extension of a module. -/
theorem build_read_deck_iff {s : Settings} {dir : Option String} {fs' : Files}
    {arguments : List String} {report : BuildReport} {d : DeckSource} (hWell : fs.root.WellFormed)
    (hFound : findDecks s fs arguments = .ok decks)
    (hBuild : build s dir fs arguments = .ok (fs', report)) (hd : d ∈ decks) :
    ∃ content, fs.read d.path = .ok content ∧
      (fs'.read d.path = .ok content ↔ ∀ done e rest module, decks = done ++ e :: rest →
        BuiltOver s.rules (s.output? dir) fs d.path done e rest →
        compileFile s.rules (buildDecks s.rules (s.output? dir) fs done).1 e.path = .ok module →
        module.toUTF8 = content) ∧
      (d.path.extension? ≠ some "js" → fs'.read d.path = .ok content) := by
  rw [build, hFound] at hBuild
  have hRun : buildDecks s.rules (s.output? dir) fs decks = (fs', report) := Except.ok.inj hBuild
  obtain ⟨content, hRead⟩ := findDecks_read hWell hFound hd
  have hIff : fs'.read d.path = .ok content ↔ ∀ done e rest module, decks = done ++ e :: rest →
      BuiltOver s.rules (s.output? dir) fs d.path done e rest →
      compileFile s.rules (buildDecks s.rules (s.output? dir) fs done).1 e.path = .ok module →
      module.toUTF8 = content := by
    constructor
    · rintro hKept done e rest module rfl hOver hModule
      obtain ⟨module', hModule', hWritten⟩ := hOver.read hRead
      rw [hRun, hKept] at hWritten
      cases hModule.symm.trans hModule'
      exact (Except.ok.inj hWritten).symm
    · intro hSame
      by_cases hOver : ∃ c, (c, .built) ∈ (buildDecks s.rules (s.output? dir) fs decks).2 ∧
          fs.placeOf (c.output (s.output? dir)) = fs.placeOf d.path
      · obtain ⟨c, hBuilt, hPlace⟩ := hOver
        obtain ⟨done, e, rest, rfl, hOver⟩ := exists_builtOver hBuilt hPlace
        obtain ⟨module, hModule, hWritten⟩ := hOver.read hRead
        rw [hRun] at hWritten
        rw [hWritten, hSame done e rest module rfl hOver hModule]
      · have hKept := buildDecks_read_kept hRead fun c hc hEq => hOver ⟨c, hc, hEq⟩
        rwa [hRun] at hKept
  refine ⟨content, hRead, hIff, fun hExtension => hIff.2 ?_⟩
  rintro done e rest module - hOver -
  exact absurd (hOver.extension? hRead) hExtension

/-! ### A deck that is its own output -/

def ownOutput (text : String) : Files := ⟨.directory [("a.js", .file text.toUTF8)], []⟩

def ownOutputDeck : DeckSource := ⟨⟨"a.js"⟩, ⟨"a.js"⟩⟩

theorem ownOutput_wellFormed (text : String) : (ownOutput text).root.WellFormed := by
  refine Tree.wellFormed_directory.2 ⟨by simp, fun e he => ?_⟩
  obtain rfl := List.mem_singleton.1 he
  exact ⟨by simp [Path.IsName], Tree.wellFormed_of_isLeaf rfl⟩

theorem findDecks_ownOutput : findDecks {} (ownOutput "s: []") ["a.js"] = .ok [ownOutputDeck] := by
  rfl

theorem read_ownOutput (text : String) : (ownOutput text).read ⟨"a.js"⟩ = .ok text.toUTF8 :=
  Files.read_eq_ok.2 ⟨["a.js"], rfl, rfl⟩

theorem sectionModule_ne_source : "s: []" ≠ sectionModule := by decide

theorem build_ownOutput : build {} none (ownOutput "s: []") ["a.js"] =
    .ok (ownOutput sectionModule, [(ownOutputDeck, .built)]) := by
  have hBuild : ownOutputDeck.build (Settings.rules {}) none (ownOutput "s: []") =
      (ownOutput sectionModule, .built) := by
    rw [DeckSource.build, ownOutputDeck, compileFile_section (read_ownOutput _)]
    refine writeModule_eq_built (fun hSame => ?_) (createParent_module _) rfl
    have hOutput : (ownOutput "s: []").readText ⟨"a.js"⟩ = .ok "s: []" :=
      Files.readText_eq_ok.2 (read_ownOutput _)
    exact sectionModule_ne_source (Option.some.inj ((congrArg _ hOutput).symm.trans hSame))
  rw [build, findDecks_ownOutput]
  show Except.ok (buildDecks (Settings.rules {}) none (ownOutput "s: []") [ownOutputDeck]) = _
  simp only [buildDecks, hBuild]

/-- A build without failures can replace a deck. -/
theorem build_replaces_deck : ∃ (fs : Files) (arguments : List String) (decks : List DeckSource)
    (fs' : Files) (report : BuildReport), fs.root.WellFormed ∧
      findDecks {} fs arguments = .ok decks ∧ build {} none fs arguments = .ok (fs', report) ∧
      report.failedCount = 0 ∧ ∃ d ∈ decks, fs'.read d.path ≠ fs.read d.path := by
  refine ⟨ownOutput "s: []", ["a.js"], _, _, _, ownOutput_wellFormed _, findDecks_ownOutput,
    build_ownOutput, rfl, ownOutputDeck, List.mem_cons_self, fun hSame => ?_⟩
  rw [ownOutputDeck, read_ownOutput, read_ownOutput] at hSame
  exact sectionModule_ne_source (String.toByteArray_inj.1 (Except.ok.inj hSame)).symm

theorem build_read_deck_iff_ownOutput :
    (ownOutput "s: []").root.WellFormed ∧
    findDecks {} (ownOutput "s: []") ["a.js"] = .ok [ownOutputDeck] ∧
    build {} none (ownOutput "s: []") ["a.js"] =
      .ok (ownOutput sectionModule, [(ownOutputDeck, .built)]) ∧
    ownOutputDeck ∈ [ownOutputDeck] ∧
    ∃ content, (ownOutput "s: []").read ownOutputDeck.path = .ok content ∧
      ((ownOutput sectionModule).read ownOutputDeck.path = .ok content ↔
        ∀ done e rest module, [ownOutputDeck] = done ++ e :: rest →
          BuiltOver (Settings.rules {}) none (ownOutput "s: []") ownOutputDeck.path done e rest →
          compileFile (Settings.rules {})
            (buildDecks (Settings.rules {}) none (ownOutput "s: []") done).1 e.path = .ok module →
          module.toUTF8 = content) := by
  obtain ⟨content, hRead, hIff, -⟩ := build_read_deck_iff (ownOutput_wellFormed _)
    findDecks_ownOutput build_ownOutput List.mem_cons_self
  exact ⟨ownOutput_wellFormed _, findDecks_ownOutput, build_ownOutput, List.mem_cons_self, content,
    hRead, hIff⟩

end Slideshow
