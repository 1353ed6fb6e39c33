import Slideshow.Browser
import Slideshow.CommandLine.Run
import Slideshow.Proofs.Build.Update
import Slideshow.Proofs.Files.Basic

/-! What the commands make of one file. Validating files succeeds if and only if each of them can be
rendered, that is, if each is a text that is a deck; and rendering, building and the calls of a web
page give one markup in its different forms. -/

namespace Slideshow

open BuildReport (isFailure)

/-! ### The severity of findings -/

section Severity

variable {rules : RuleSet} {f : Finding}

theorem severity_of_mem_decoration {decoration : Decoration} (h : f ∈ decoration.findings) :
    f.severity ≠ .error := by
  rw [Decoration.findings, List.mem_ite_nil_right, List.mem_singleton] at h
  rw [h.2]
  decide

theorem severity_of_mem_losses {i m : Nat} {e : Element} (h : f ∈ e.losses rules i m) :
    f.severity ≠ .error := by
  cases e with
  | marker _ | list _ _ _ =>
    rw [Element.losses, List.mem_ite_nil_right, List.mem_singleton] at h
    rw [h.2]
    exact nofun
  | custom _ _ =>
    rw [Element.losses, List.mem_ite_nil_left, List.mem_singleton] at h
    rw [h.2]
    exact nofun
  | unrecognized _ =>
    rw [List.mem_singleton.1 h]
    exact nofun
  | scalar _ | text _ _ _ | image _ _ => exact absurd h List.not_mem_nil

theorem severity_of_mem_elementFindings {es : List Element} {i m : Nat}
    (h : f ∈ elementFindings rules i m es) : f.severity ≠ .error := by
  induction es generalizing i m with
  | nil => exact absurd h List.not_mem_nil
  | cons e es ih =>
    rw [elementFindings, List.mem_append, List.mem_append] at h
    obtain (h | h) | h := h
    · split at h
      · exact severity_of_mem_decoration h
      · exact absurd h List.not_mem_nil
    · exact severity_of_mem_losses h
    · exact ih h

theorem Subsection.severity_of_mem {place : String} {s : Subsection} {d : Diagnostic}
    (h : d ∈ s.diagnostics rules place) : d.finding.severity ≠ .error := by
  obtain ⟨f, hf, rfl⟩ := List.mem_map.1 h
  show f.severity ≠ .error
  rw [findings, List.mem_append, List.mem_ite_nil_right, List.mem_singleton] at hf
  obtain ⟨-, rfl⟩ | hf := hf
  · decide
  · exact severity_of_mem_elementFindings hf

theorem Section.severity_of_mem {name : String} {s : Section} {d : Diagnostic}
    (h : d ∈ s.diagnostics rules name) : d.finding.severity ≠ .error := by
  cases s with
  | flat content => exact Subsection.severity_of_mem h
  | divided decoration parts =>
    simp only [diagnostics, List.mem_append] at h
    obtain h | h := h
    · obtain ⟨f, hf, rfl⟩ := List.mem_map.1 h
      show f.severity ≠ .error
      rw [List.mem_append, List.mem_ite_nil_right, List.mem_singleton] at hf
      obtain hf | ⟨-, rfl⟩ := hf
      · split at hf
        · exact severity_of_mem_decoration hf
        · exact absurd hf List.not_mem_nil
      · decide
    · obtain ⟨part, -, h⟩ := List.mem_flatMap.1 h
      exact Subsection.severity_of_mem h

/-- What is found on a deck is never an error. -/
theorem Deck.severity_of_mem {deck : Deck} {d : Diagnostic} (h : d ∈ deck.diagnostics rules) :
    d.finding.severity ≠ .error := by
  obtain ⟨part, -, h⟩ := List.mem_flatMap.1 h
  exact Section.severity_of_mem h

end Severity

/-! ### Files that hold decks -/

/-- Whether there is a file at a path that can be read as a text, and the text is a deck. -/
def HoldsDeck (fs : Files) (file : String) : Prop :=
  ∃ text deck, fs.read ⟨file⟩ = .ok text.toUTF8 ∧ Deck.read text = .ok deck

namespace CommandLine

variable {rules : RuleSet} {s : Settings} {fs : Files} {file : String}

theorem any_error_diagnosticsOf {text : String} :
    (diagnosticsOf rules text).any (·.finding.severity == .error) = false ↔
      ∃ deck, Deck.read text = .ok deck := by
  rw [diagnosticsOf]
  cases Deck.read text with
  | error e => exact iff_of_false nofun nofun
  | ok deck =>
    refine iff_of_true (List.any_eq_false.2 fun d hd => ?_) ⟨deck, rfl⟩
    rw [beq_iff_eq]
    exact deck.severity_of_mem hd

/-- Each file is read and checked in turn, so the outcome for `file :: files` is that for `files`
unless `file` cannot be read. -/
theorem validateFiles_exitCode {printed : List String} {failing : Bool} {files : List String} :
    (validateFiles rules fs printed failing files).exitCode = 0 ↔
      failing = false ∧ ∀ file ∈ files, HoldsDeck fs file := by
  induction files generalizing printed failing with
  | nil => cases failing <;> simp [validateFiles]
  | cons file files ih =>
    rw [validateFiles, List.forall_mem_cons]
    cases hRead : fs.readText ⟨file⟩ with
    | error e =>
      refine iff_of_false nofun ?_
      rintro ⟨-, ⟨text, deck, hText, -⟩, -⟩
      rw [Files.readText_eq_ok.2 hText] at hRead
      exact nomatch hRead
    | ok text =>
      have hDeck : HoldsDeck fs file ↔ ∃ deck, Deck.read text = .ok deck := by
        constructor
        · rintro ⟨text', deck, hText, hDeck⟩
          cases hRead.symm.trans (Files.readText_eq_ok.2 hText)
          exact ⟨deck, hDeck⟩
        · rintro ⟨deck, hDeck⟩
          exact ⟨text, deck, Files.readText_eq_ok.1 hRead, hDeck⟩
      show (validateFiles rules fs _ _ files).exitCode = 0 ↔ _
      rw [ih, Bool.or_eq_false_iff, any_error_diagnosticsOf, hDeck, and_assoc]

theorem runRender_of_read {text : String} {deck : Deck} (raw : Bool)
    (hText : fs.read ⟨file⟩ = .ok text.toUTF8) (hDeck : Deck.read text = .ok deck) :
    runRender s file raw fs =
      ⟨0, (if raw then deck.render s.rules else deck.compile s.rules) ++ "\n", ""⟩ := by
  rw [runRender, Files.readText_eq_ok.2 hText]
  simp only [hDeck]
  simp [CommandOutcome.endLines]

theorem runRender_exitCode {raw : Bool} :
    (runRender s file raw fs).exitCode = 0 ↔ HoldsDeck fs file := by
  constructor
  · intro h
    rw [runRender] at h
    split at h
    · exact nomatch h
    · rename_i text hText
      split at h
      · exact nomatch h
      · rename_i deck hDeck
        exact ⟨text, deck, Files.readText_eq_ok.1 hText, hDeck⟩
  · rintro ⟨text, deck, hText, hDeck⟩
    rw [runRender_of_read raw hText hDeck]

/-! ### Arguments -/

/-- Arguments that stand for files: the files themselves if none looks like an option, or two dashes
and then any files. -/
def StandFor (arguments files : List String) : Prop :=
  (arguments = files ∧ ∀ file ∈ files, isValue file = true) ∨ arguments = "--" :: files

theorem Options.read_cons {o : Options} {top : Bool} {given : Given} {argument : String}
    (h : isValue argument = true) (rest : List String) :
    o.read top given (argument :: rest) =
      if top then .ok (given, argument :: rest)
      else given.addOther o.maxOthers argument >>= (o.read top · rest) := by
  unfold isValue at h
  rw [read]
  split
  · rename_i hDashes
    rw [hDashes] at h
    exact nomatch h
  · rename_i hLong
    rw [hLong] at h
    exact nomatch h
  · rename_i hShort
    rw [hShort] at h
    exact nomatch h
  · rfl

theorem Options.read_others {o : Options} {given : Given} {files : List String}
    (h : ∀ file ∈ files, isValue file = true) :
    o.read false given files = do return (← files.foldlM (·.addOther o.maxOthers ·) given, []) := by
  induction files generalizing given with
  | nil => rfl
  | cons file files ih =>
    have ⟨hHead, hTail⟩ := List.forall_mem_cons.1 h
    rw [read_cons hHead, if_neg Bool.false_ne_true, List.foldlM_cons, bind_assoc]
    exact bind_congr fun given => ih hTail

theorem foldlM_addOther {limit : Option Nat} {given : Given} {files : List String}
    (h : ∀ n ∈ limit, given.others.length + files.length ≤ n) :
    files.foldlM (·.addOther limit ·) given =
      (.ok { given with others := given.others ++ files } : Except Stop Given) := by
  induction files generalizing given with
  | nil => rw [List.append_nil]; rfl
  | cons file files ih =>
    have hHere : limit.any (· ≤ given.others.length) = false := by
      rw [Option.any_eq_false]
      intro n hn
      have := h n hn
      rw [List.length_cons] at this
      simp; omega
    rw [List.foldlM_cons, Given.addOther, hHere]
    show files.foldlM (·.addOther limit ·) { given with others := given.others ++ [file] } = _
    rw [ih, List.append_assoc]
    · rfl
    · intro n hn
      have := h n hn
      rw [List.length_cons] at this
      simp; omega

/-- Files are read as they are, as long as there may be so many of them. -/
theorem Options.read_standFor {o : Options} {given : Given} {arguments files : List String}
    (h : StandFor arguments files)
    (hLimit : ∀ n ∈ o.maxOthers, given.others.length + files.length ≤ n) :
    o.read false given arguments = .ok ({ given with others := given.others ++ files }, []) := by
  have hRead : o.read false given arguments =
      do return (← files.foldlM (·.addOther o.maxOthers ·) given, []) := by
    obtain ⟨rfl, h⟩ | rfl := h
    · exact read_others h
    · rfl
  rw [hRead, foldlM_addOther hLimit]
  rfl

/-- The invocation that a command and what is given after it make. -/
theorem parse_command {name : String} {arguments : List String} {o : Options} {given : Given}
    {command : Command} (hName : isValue name = true) (hHelp : name ≠ "help")
    (hOptions : optionsOf? name = some o) (hRead : o.read false {} arguments = .ok (given, []))
    (hCommand : commandOf name given = .ok command) :
    parse (name :: arguments) = .ok {
      quiet := given.switches.contains "quiet"
      verbose := given.switches.contains "verbose"
      settings := (given.values.lookup "config").getD "slidedeck.json"
      command } := by
  have hTop : topOptions.read true {} (name :: arguments) = .ok ({}, name :: arguments) :=
    Options.read_cons hName arguments
  rw [parse, hTop]
  show (if name = "help" then _ else _ : Except Stop Invocation) = _
  rw [if_neg hHelp, hOptions]
  show o.read false {} arguments >>= _ = _
  rw [hRead]
  show commandOf name given >>= _ = _
  rw [hCommand]
  simp [bind, Except.bind, pure, Except.pure]

theorem run_validate {arguments files : List String} (h : StandFor arguments files) :
    run fs ("validate" :: arguments) = ({ command := .validate files } : Invocation).run fs := by
  have hRead : globalOptions.read false {} arguments = .ok ({ others := files }, []) :=
    Options.read_standFor h nofun
  rw [run, parse_command (by decide) (by decide) rfl hRead rfl]
  rfl

theorem Options.read_raw {o : Options} (h : "raw" ∈ o.switches) (arguments : List String) :
    o.read false {} ("--raw" :: arguments) = o.read false { switches := ["raw"] } arguments := by
  rw [read]
  simp [splitOption, h, Given.addSwitch, bind, Except.bind]

theorem run_render {arguments : List String} (h : StandFor arguments [file]) :
    run fs ("render" :: arguments) = ({ command := .render file false } : Invocation).run fs ∧
      run fs ("render" :: "--raw" :: arguments) =
        ({ command := .render file true } : Invocation).run fs := by
  obtain ⟨o, hOptions, hRaw, hMax⟩ :
      ∃ o, optionsOf? "render" = some o ∧ "raw" ∈ o.switches ∧ o.maxOthers = some 1 :=
    ⟨_, rfl, List.mem_cons_self, rfl⟩
  have hLimit : ∀ n ∈ o.maxOthers, ([] : List String).length + [file].length ≤ n := by
    intro n hn
    cases hMax.symm.trans hn
    exact Nat.le_refl 1
  have hRead : o.read false {} arguments = .ok ({ others := [file] }, []) :=
    Options.read_standFor h hLimit
  have hReadRaw : o.read false {} ("--raw" :: arguments) =
      .ok ({ switches := ["raw"], others := [file] }, []) := by
    rw [Options.read_raw hRaw]
    exact Options.read_standFor h hLimit
  rw [run, parse_command (by decide) (by decide) hOptions hRead rfl, run,
    parse_command (by decide) (by decide) hOptions hReadRaw rfl]
  exact ⟨rfl, rfl⟩

/-! ### The commands together -/

theorem diagnosticsOf_not_loaded {text : String} {e : LoadError} (h : Deck.read text = .error e) :
    diagnosticsOf rules text = [⟨e.place, .notLoaded e⟩] := by
  rw [diagnosticsOf, h]
  rfl

/-- What a deck that is built leaves is the module of its escaped markup. -/
theorem read_output_of_build {text : String} {deck : Deck} {d : DeckSource} {out : Option Path}
    (hText : fs.read d.path = .ok text.toUTF8) (hDeck : Deck.read text = .ok deck)
    (hBuilt : isFailure (d.build rules out fs).2 = false) :
    (d.build rules out fs).1.read (d.output out) =
      .ok (Markup.toModule (deck.compile rules)).toUTF8 := by
  obtain ⟨module, hModule, hRead⟩ := (d.build_spec rules out fs).2 hBuilt
  rw [compileFile, Files.readText_eq_ok.2 hText] at hModule
  simp only [hDeck] at hModule
  cases hModule
  exact hRead

/-- Under settings that can be loaded, files are valid if and only if each of them is rendered,
escaped or not, and so if and only if each is a text that is a deck. A deck has no diagnostic that is
an error, and a text that is no deck has one diagnostic, on the section that its error names. The
markup that is printed raw is, escaped, the one that is printed otherwise and that a build puts in a
module; without rules it is also what the calls of a web page give. -/
theorem frontEnds_agree {i : Invocation} {fs : Files} {s : Settings}
    (hLoad : Settings.load fs ⟨i.settings⟩ = .ok s) :
    let validate := fun files => ({ i with command := .validate files }.run fs).2
    let render := fun raw file => ({ i with command := .render file raw }.run fs).2
    (∀ files,
      ((validate files).exitCode = 0 ↔ ∀ file ∈ files, HoldsDeck fs file) ∧
      ∀ raw, (validate files).exitCode = 0 ↔ ∀ file ∈ files, (render raw file).exitCode = 0) ∧
    (∀ (rules : RuleSet) (text : String),
      (∀ deck, Deck.read text = .ok deck →
        ∀ d ∈ diagnosticsOf rules text, d.finding.severity ≠ .error) ∧
      ∀ e, Deck.read text = .error e → ∃ d, diagnosticsOf rules text = [d] ∧
        d.finding.severity = .error ∧ d.finding.code = "D000" ∧ d.finding.message = e.message ∧
        d.place = match e with
          | .yaml _ => "<root>"
          | .malformed place _ => place) ∧
    (∀ file text deck, fs.read ⟨file⟩ = .ok text.toUTF8 → Deck.read text = .ok deck →
      ∃ escaped raw, render false file = ⟨0, escaped ++ "\n", ""⟩ ∧
        render true file = ⟨0, raw ++ "\n", ""⟩ ∧ escaped = Markup.escape raw ∧
        (∀ (d : DeckSource) (out : Option Path), d.path = ⟨file⟩ →
          isFailure (d.build s.rules out fs).2 = false →
          (d.build s.rules out fs).1.read (d.output out) = .ok (Markup.toModule escaped).toUTF8) ∧
        (s.templates = .empty → Browser.compile text = .ok escaped ∧
          Browser.renderHtml text = .ok raw ∧
          Browser.compileModule text = .ok (Markup.toModule escaped))) ∧
    (∀ arguments files, StandFor arguments files →
      run fs ("validate" :: arguments) = ({ command := .validate files } : Invocation).run fs) ∧
    ∀ arguments file, StandFor arguments [file] →
      run fs ("render" :: arguments) = ({ command := .render file false } : Invocation).run fs ∧
        run fs ("render" :: "--raw" :: arguments) =
          ({ command := .render file true } : Invocation).run fs := by
  intro validate render
  have hRun (c : Command) : ({ i with command := c }.run fs) = runCommand s i.quiet fs c := by
    rw [Invocation.run]
    simp only [hLoad]
  have hValidate (files : List String) :
      (validate files).exitCode = 0 ↔ ∀ file ∈ files, HoldsDeck fs file := by
    show ({ i with command := .validate files }.run fs).2.exitCode = 0 ↔ _
    rw [hRun]
    exact validateFiles_exitCode.trans (and_iff_right rfl)
  have hRender (raw : Bool) (file : String) : render raw file = runRender s file raw fs := by
    show ({ i with command := .render file raw }.run fs).2 = _
    rw [hRun]
    rfl
  refine ⟨fun files => ⟨hValidate files, fun raw => ?_⟩, fun rules text => ⟨?_, ?_⟩, ?_,
    fun _ _ => run_validate, fun _ _ => run_render⟩
  · rw [hValidate]
    simp only [hRender, runRender_exitCode]
  · intro deck hDeck d hd
    rw [diagnosticsOf, hDeck] at hd
    exact deck.severity_of_mem hd
  · intro e he
    refine ⟨_, diagnosticsOf_not_loaded he, rfl, rfl, rfl, ?_⟩
    cases e <;> rfl
  · intro file text deck hText hDeck
    refine ⟨deck.compile s.rules, deck.render s.rules, ?_, ?_, rfl, ?_, ?_⟩
    · rw [hRender, runRender_of_read false hText hDeck]
      rfl
    · rw [hRender, runRender_of_read true hText hDeck]
      rfl
    · rintro d out hPath hBuilt
      exact read_output_of_build (hPath ▸ hText) hDeck hBuilt
    · intro hNone
      have hRules : s.rules = .empty := by
        rw [Settings.rules, hNone]
        rfl
      rw [Browser.compile, Browser.renderHtml, Browser.compileModule, hDeck, hRules]
      exact ⟨rfl, rfl, rfl⟩

/-- A file that is a deck, and one that is not. -/
def deckAndText : Files :=
  ⟨.directory [("deck.yaml", .file "s: ['a`b']".toUTF8), ("text.yaml", .file "a".toUTF8)], []⟩

theorem frontEnds_agree_deckAndText :
    let fs := deckAndText
    let i : Invocation := { quiet := true, command := .validate [] }
    let validate := fun files => ({ i with command := .validate files }.run fs).2
    let render := fun raw file => ({ i with command := .render file raw }.run fs).2
    Settings.load fs ⟨i.settings⟩ = .ok {} ∧ (validate ["deck.yaml"]).exitCode = 0 ∧
      (validate ["deck.yaml", "text.yaml"]).exitCode ≠ 0 ∧
      (run fs ["validate", "deck.yaml"]).2.exitCode = 0 ∧
      ∃ escaped raw, render false "deck.yaml" = ⟨0, escaped ++ "\n", ""⟩ ∧
        render true "deck.yaml" = ⟨0, raw ++ "\n", ""⟩ ∧ escaped = Markup.escape raw ∧
        Browser.compile "s: ['a`b']" = .ok escaped ∧ Browser.renderHtml "s: ['a`b']" = .ok raw := by
  intro fs i validate render
  have hLoad : Settings.load deckAndText ⟨"slidedeck.json"⟩ = .ok {} := by rfl
  have hText : fs.read ⟨"deck.yaml"⟩ = .ok "s: ['a`b']".toUTF8 :=
    Files.read_eq_ok.2 ⟨["deck.yaml"], rfl, rfl⟩
  have hOther : fs.read ⟨"text.yaml"⟩ = .ok "a".toUTF8 :=
    Files.read_eq_ok.2 ⟨["text.yaml"], rfl, rfl⟩
  have hTokens : (Yaml.Token.scan "s: ['a`b']").toOption =
      some (Yaml.listUnder "s" [.scalar "a`b" false]) := by decide +kernel
  have hWritten : Yaml.read "s: ['a`b']" =
      .ok (.mapping [(.string "s", .list [.string "a`b"])]) := Yaml.read_of_scan hTokens rfl
  have hDeck : Deck.read "s: ['a`b']" = .ok ⟨[("s", .flat ⟨[.scalar "a`b"]⟩)]⟩ := by
    rw [Deck.read, hWritten]
    rfl
  have hNoDeck : ¬ HoldsDeck fs "text.yaml" := by
    rintro ⟨text, deck, hRead, hDeck⟩
    have hSame : "a" = text := String.toByteArray_inj.1 (Except.ok.inj (hOther.symm.trans hRead))
    have hTokens : (Yaml.Token.scan "a").toOption = some [.scalar "a" true] := by decide +kernel
    have hWritten : Yaml.read "a" = .ok (.string "a") := Yaml.read_of_scan hTokens rfl
    subst hSame
    rw [Deck.read, hWritten] at hDeck
    cases hDeck
  obtain ⟨hFiles, -, hMarkup, hRun, -⟩ := frontEnds_agree (i := i) hLoad
  have hValid : ∀ file ∈ ["deck.yaml"], HoldsDeck fs file := by
    intro file hFile
    rw [List.mem_singleton.1 hFile]
    exact ⟨_, _, hText, hDeck⟩
  obtain ⟨escaped, raw, hEscaped, hRaw, hSame, -, hBrowser⟩ := hMarkup _ _ _ hText hDeck
  refine ⟨hLoad, (hFiles _).1.2 hValid, ?_, ?_, escaped, raw, hEscaped, hRaw, hSame,
    (hBrowser rfl).1, (hBrowser rfl).2.1⟩
  · intro hZero
    exact hNoDeck ((hFiles _).1.1 hZero _ (by simp))
  · rw [hRun ["deck.yaml"] _ (.inl ⟨rfl, by decide⟩)]
    exact ((frontEnds_agree (i := { command := .validate [] }) hLoad).1 _).1.2 hValid

end CommandLine
end Slideshow
