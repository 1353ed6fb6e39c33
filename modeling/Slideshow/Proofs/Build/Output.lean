import Slideshow.Proofs.Build.Report
import Slideshow.Proofs.Build.Search
import Slideshow.Proofs.Path.Extension

/-! Where modules go. The path of a module is that of the output directory and, behind it, that of
the deck with another extension, so a build writes nothing outside that directory; and two decks
below one directory have the same output if and only if they differ in their extensions only. The
exception is a deck whose name is two dots and an extension: with the extension off, the path of its
module is that of a directory, and it is never built. -/

namespace Slideshow

variable {s : Settings} {fs : Files} {es : List (String × Tree)} {name : String}
  {names above : List String} {decks : List DeckSource} {d : DeckSource} {rules : RuleSet}
  {out : Option Path}

/-! ### Paths of modules -/

/-- The path of a deck as seen from the argument consists of names. -/
theorem findDecks_relative {arguments : List String} (hWell : fs.root.WellFormed)
    (h : findDecks s fs arguments = .ok decks) (hd : d ∈ decks) :
    ∃ above name, (∀ part ∈ above ++ [name], Path.IsName part) ∧
      d.relative = .ofNames (above ++ [name]) := by
  obtain ⟨parts, rfl, hParts⟩ := findDecks_parts hWell h
  obtain ⟨found, hFound, hd⟩ := List.mem_flatten.1 hd
  obtain ⟨argument, -, hDiscovers⟩ := exists_of_mem_right hParts hFound
  cases hDiscovers with
  | @file _ name _ hName =>
    obtain rfl := List.mem_singleton.1 hd
    exact ⟨[], name, by simpa using Path.isName_of_fileName? hName, by simp [Path.ofNames]⟩
  | directory hAt hMem _ =>
    obtain ⟨above, name, hLeads, rfl⟩ := (hMem d).1 hd
    obtain ⟨content, hGet⟩ := hLeads.file
    obtain ⟨place, -, hBelow⟩ := Files.at?_eq_ok.1 hAt
    exact ⟨above, name, (hWell.below hBelow).isName_of_get? hGet, rfl⟩

/-- The steps and the components of the module of a deck below a directory. -/
theorem withExtension_join (base : Path) (hNames : ∀ part ∈ above ++ [name], Path.IsName part) :
    (∃ first, ((base.join (.ofNames (above ++ [name]))).withExtension "js").steps =
        first ++ [Path.stepWith "js" name]) ∧
      ((base.join (.ofNames (above ++ [name]))).withExtension "js").components =
        base.components ++ above.map .name ++ [Path.componentWith "js" name] := by
  have hName := hNames name (by simp)
  obtain ⟨start, hSteps, hAbsolute, hBase⟩ :=
    Path.exists_steps_join (p := base) (Path.isAbsolute_ofNames (by simp) hNames)
  rw [Path.steps_ofNames (by simp) fun part h => (hNames part h).2.2.2, ← List.append_assoc] at hSteps
  have hSlash : '/' ∉ "js".toList := by decide
  obtain ⟨hSteps, hSame⟩ := Path.steps_withExtension hSteps hName hSlash
  have hLast := Path.component?_stepWith hName hSlash
  have hFirst : (above ++ [Path.stepWith "js" name]).head? ≠ some "." := by
    intro h
    obtain hMem | hMem := List.mem_append.1 (List.mem_of_head? h)
    · exact (hNames "." (List.mem_append_left _ hMem)).2.1 rfl
    · rw [← List.mem_singleton.1 hMem] at hLast
      cases hLast
  refine ⟨⟨_, hSteps⟩, ?_⟩
  rw [Path.components, hSame, hAbsolute, hSteps, List.append_assoc, Path.componentsOf_append hFirst,
    ← hBase, List.filterMap_append, List.append_assoc,
    Path.filterMap_component? fun part h => hNames part (List.mem_append_left _ h),
    List.filterMap_cons_some hLast]
  rfl

/-- The module of a dotted deck would be a directory. -/
theorem DeckSource.fileName?_output (hNames : ∀ part ∈ above ++ [name], Path.IsName part)
    (hRelative : d.relative = .ofNames (above ++ [name])) (hDotted : Path.IsDotted name) (out : Path) :
    (d.output (some out)).fileName? = none := by
  obtain ⟨⟨first, hSteps⟩, -⟩ := withExtension_join out hNames
  rw [Path.stepWith, if_pos ((Path.isDotted_iff (hNames name (by simp))).1 hDotted)] at hSteps
  rw [output, hRelative]
  exact Path.fileName?_of_dots hSteps

theorem DeckSource.output_components_iff (hNames : ∀ part ∈ above ++ [name], Path.IsName part)
    (hRelative : d.relative = .ofNames (above ++ [name])) (out : Path) :
    ((d.output (some out)).components = out.components ++
        (above ++ [(Path.splitName name).1 ++ "." ++ "js"]).map .name ↔ ¬ Path.IsDotted name) ∧
      (Path.IsDotted name →
        (d.output (some out)).components = out.components ++ above.map .name ++ [.parent]) := by
  rw [output, hRelative, (withExtension_join out hNames).2, Path.isDotted_iff (hNames name (by simp)),
    Path.componentWith]
  by_cases hStem : (Path.splitName name).1 = "."
  · simp [hStem]
  · simp [hStem]

/-! ### What is written -/

/-- Only what has a file name is built. -/
theorem fileName?_of_built (h : (d, .built) ∈ (buildDecks rules out fs decks).2) :
    ∃ name, (d.output out).fileName? = some name := by
  induction decks generalizing fs with
  | nil => exact absurd h List.not_mem_nil
  | cons e decks ih =>
    rw [buildDecks] at h
    obtain hFirst | h := List.mem_cons.1 h
    · obtain ⟨rfl, hBuilt⟩ := Prod.mk.inj hFirst
      obtain ⟨-, hHolds⟩ := d.build_spec rules out fs
      obtain ⟨text, -, hRead⟩ := hHolds (by rw [← hBuilt]; rfl)
      obtain ⟨names, hResolve, hFile⟩ := Files.read_eq_ok.1 hRead
      obtain ⟨-, name, -, hName, -⟩ := Files.resolve_file hResolve hFile
      exact ⟨name, hName⟩
    · exact ih h

theorem not_isDotted_of_built {out : Path} (hNames : ∀ part ∈ above ++ [name], Path.IsName part)
    (hRelative : d.relative = .ofNames (above ++ [name]))
    (h : (d, .built) ∈ (buildDecks rules (some out) fs decks).2) : ¬ Path.IsDotted name := by
  intro hDotted
  obtain ⟨file, hFile⟩ := fileName?_of_built h
  rw [DeckSource.fileName?_output hNames hRelative hDotted] at hFile
  cases hFile

/-- A module that is built is written below the output directory. -/
theorem placeOf_of_built {out : Path} (hNames : ∀ part ∈ above ++ [name], Path.IsName part)
    (hRelative : d.relative = .ofNames (above ++ [name]))
    (h : (d, .built) ∈ (buildDecks rules (some out) fs decks).2) :
    ∃ below, below ≠ [] ∧ fs.placeOf (d.output (some out)) = fs.placeOf out ++ below := by
  have hPlain := not_isDotted_of_built hNames hRelative h
  have hOutput := (DeckSource.output_components_iff hNames hRelative out).1.2 hPlain
  refine ⟨above ++ [(Path.splitName name).1 ++ "." ++ "js"], by simp, ?_⟩
  rw [Files.placeOf_eq_components, hOutput, List.foldl_append, ← Files.placeOf_eq_components,
    Component.foldl_next]

/-! ### Decks below one directory -/

theorem output_below_eq_iff {names' : List String} (hWell : (Tree.directory es).WellFormed)
    (hNames : names ∈ entryDecks s es) (hNames' : names' ∈ entryDecks s es) (argument : Path)
    (out : Option Path) :
    ((DeckSource.below argument names).output out).components =
        ((DeckSource.below argument names').output out).components ↔
      (Path.ofNames names).parent? = (Path.ofNames names').parent? ∧
        (Path.ofNames names).stem? = (Path.ofNames names').stem? := by
  have hOutput (names : List String) : (DeckSource.below argument names).output out =
      ((out.getD argument).join (.ofNames names)).withExtension "js" := by
    cases out <;> rfl
  obtain ⟨hSome, hPlain, -⟩ := get?_of_mem_entryDecks hWell hNames
  obtain ⟨hSome', hPlain', -⟩ := get?_of_mem_entryDecks hWell hNames'
  obtain rfl | ⟨above, name, rfl⟩ := List.eq_nil_or_concat' names
  · exact absurd rfl hSome
  obtain rfl | ⟨above', name', rfl⟩ := List.eq_nil_or_concat' names'
  · exact absurd rfl hSome'
  have hAbove : ∀ part ∈ above, Path.IsName part := fun part h =>
    hPlain part (List.mem_append_left _ h)
  have hAbove' : ∀ part ∈ above', Path.IsName part := fun part h =>
    hPlain' part (List.mem_append_left _ h)
  rw [hOutput, hOutput, (withExtension_join _ hPlain).2, (withExtension_join _ hPlain').2,
    Path.parent?_ofNames hPlain, Path.parent?_ofNames hPlain', Path.stem?_ofNames hPlain,
    Path.stem?_ofNames hPlain', List.append_assoc, List.append_assoc, List.append_right_inj,
    List.append_singleton_inj, Path.componentWith_inj,
    List.map_inj_right fun _ _ => Component.name.inj, Option.some_inj, Option.some_inj,
    Path.ofNames_inj hAbove hAbove']

/-! ### Decks that are found -/

/-- The path of a module is that of the output directory, and behind it that of the deck, which
consists of names, with the extension of the last one replaced or added, if and only if that name is
not dotted; a dotted one leaves two dots, and is never built. Whatever the arguments are, a build
changes no file outside the output directory; and of two decks below one directory the outputs are
the same if and only if the directories above them and their stems are. -/
theorem findDecks_outputs {arguments : List String} (hWell : fs.root.WellFormed)
    (h : findDecks s fs arguments = .ok decks) :
    (∀ d ∈ decks, ∃ above name module, (∀ part ∈ above ++ [name], Path.IsName part) ∧
      d.relative.components = (above ++ [name]).map .name ∧ Path.Extended "js" name module ∧
      ∀ out : Path,
        ((d.output (some out)).components = out.components ++ (above ++ [module]).map .name ↔
          ¬ Path.IsDotted name) ∧
        (Path.IsDotted name →
          (d.output (some out)).components = out.components ++ above.map .name ++ [.parent] ∧
          ∀ rules, (d, .built) ∉ (buildDecks rules (some out) fs decks).2)) ∧
    (∀ (rules : RuleSet) (out : Path) (names : List String) (content : ByteArray),
      (∀ below, below ≠ [] → names ≠ fs.placeOf out ++ below) →
        ((buildDecks rules (some out) fs decks).1.root.node? names = some (.file content) ↔
          fs.root.node? names = some (.file content))) ∧
    ∀ (argument : String) (found : List DeckSource), fs.isDirectory ⟨argument⟩ = true →
      decksOf s fs argument = .ok found → ∀ d ∈ found, ∀ e ∈ found, ∀ out : Option Path,
        ((d.output out).components = (e.output out).components ↔
          d.relative.parent? = e.relative.parent? ∧ d.relative.stem? = e.relative.stem?) := by
  refine ⟨fun d hd => ?_, fun rules out names content hOutside => ?_,
    fun argument found hDirectory hFound d hd e he out => ?_⟩
  · obtain ⟨above, name, hNames, hRelative⟩ := findDecks_relative hWell h hd
    refine ⟨above, name, _, hNames, ?_, Path.extended_splitName "js" name, fun out => ?_⟩
    · rw [hRelative, Path.components_ofNames hNames]
    · obtain ⟨hPlain, hDots⟩ := DeckSource.output_components_iff hNames hRelative out
      exact ⟨hPlain, fun hDotted => ⟨hDots hDotted, fun rules hBuilt =>
        not_isDotted_of_built hNames hRelative hBuilt hDotted⟩⟩
  · have hUpdate := buildDecks_update_built rules (some out) fs decks
    refine hUpdate.files names ?_ content
    rintro ⟨d, hBuilt, hResolve⟩
    obtain ⟨above, name, hNames, hRelative⟩ :=
      findDecks_relative hWell h (mem_of_mem_report hBuilt)
    obtain ⟨below, hSome, hPlace⟩ := placeOf_of_built hNames hRelative hBuilt
    refine hOutside below hSome ?_
    rw [Files.eq_placeOf_of_resolve hResolve, hUpdate.placeOf, hPlace]
  · rw [decksOf] at hFound
    split at hFound
    · rename_i es hAt
      cases hFound
      obtain ⟨place, -, hGet⟩ := Files.at?_eq_ok.1 hAt
      obtain ⟨names, hNames, rfl⟩ := List.mem_map.1 hd
      obtain ⟨names', hNames', rfl⟩ := List.mem_map.1 he
      exact output_below_eq_iff (hWell.below hGet) hNames hNames' ⟨argument⟩ out
    · rename_i content hAt
      rw [Files.isDirectory, hAt] at hDirectory
      cases hDirectory
    · cases hFound

/-- A deck whose name is two dots and an extension, and two with one stem. -/
def dotted : Files :=
  ⟨.directory [("..yaml", .file "s: []".toUTF8), ("a.b.yaml", .file .empty),
    ("a.b.yml", .file .empty)], []⟩

def dottedDecks : List DeckSource :=
  [⟨⟨"./..yaml"⟩, ⟨"..yaml"⟩⟩, ⟨⟨"./a.b.yaml"⟩, ⟨"a.b.yaml"⟩⟩, ⟨⟨"./a.b.yml"⟩, ⟨"a.b.yml"⟩⟩]

theorem dotted_wellFormed : dotted.root.WellFormed := by
  have hFile (content : ByteArray) : (Tree.file content).WellFormed := Tree.wellFormed_of_isLeaf rfl
  exact Tree.wellFormed_directory.2 ⟨by decide, by simp [hFile, Path.IsName]⟩

theorem decksOf_dotted : decksOf {} dotted "." = .ok dottedDecks := by
  have hDots : Settings.isDeck {} ⟨"..yaml"⟩ = true := by rfl
  have hFirst : Settings.isDeck {} ⟨"a.b.yaml"⟩ = true := by rfl
  have hSecond : Settings.isDeck {} ⟨"a.b.yml"⟩ = true := by rfl
  have hAt : dotted.at? ⟨"."⟩ = .ok dotted.root := by rfl
  rw [decksOf, hAt]
  simp only [dotted, entryDecks, hDots, hFirst, hSecond]
  rfl

theorem findDecks_dotted : findDecks {} dotted ["."] = .ok dottedDecks := by
  rw [findDecks, decksOf_dotted]
  rfl

/-- The output of a deck is not always its path below the output directory with another extension. -/
theorem output_ne_extended : ∃ (fs : Files) (arguments : List String) (decks : List DeckSource)
    (d : DeckSource) (out : Path), fs.root.WellFormed ∧ findDecks {} fs arguments = .ok decks ∧
      d ∈ decks ∧ d.relative.components = [.name "..yaml"] ∧ Path.Extended "js" "..yaml" "..js" ∧
      out.components = [.name "out"] ∧
      (d.output (some out)).components ≠ out.components ++ [.name "..js"] :=
  ⟨dotted, ["."], dottedDecks, _, ⟨"out"⟩, dotted_wellFormed, findDecks_dotted,
    List.mem_cons_self, by decide, @Path.Extended.replaced "js" "." "yaml" (by decide) (by decide),
    by decide, by decide⟩

theorem findDecks_outputs_dotted :
    dotted.root.WellFormed ∧ findDecks {} dotted ["."] = .ok dottedDecks ∧
    (∃ d ∈ dottedDecks, d.relative.components = [.name "..yaml"] ∧
      (d.output (some ⟨"out"⟩)).components = [.name "out", .parent] ∧
      ∀ rules, (d, .built) ∉ (buildDecks rules (some ⟨"out"⟩) dotted dottedDecks).2) ∧
    (∀ rules content, (buildDecks rules (some ⟨"out"⟩) dotted dottedDecks).1.root.node? ["..yaml"] =
      some (.file content) ↔ dotted.root.node? ["..yaml"] = some (.file content)) ∧
    ∃ d ∈ dottedDecks, ∃ e ∈ dottedDecks, d ≠ e ∧
      ∀ out, (d.output out).components = (e.output out).components := by
  obtain ⟨hPaths, hKept, hSame⟩ := findDecks_outputs dotted_wellFormed findDecks_dotted
  refine ⟨dotted_wellFormed, findDecks_dotted, ?_, fun rules content => ?_, ?_⟩
  · obtain ⟨above, name, module, -, hRelative, -, hOutput⟩ := hPaths _ List.mem_cons_self
    have hNames : [] ++ ["..yaml"] = above ++ [name] :=
      (List.map_inj_right fun _ _ => Component.name.inj).1 hRelative
    obtain ⟨rfl, rfl⟩ := List.append_singleton_inj.1 hNames
    obtain ⟨hDots, hNever⟩ := (hOutput ⟨"out"⟩).2 ⟨"yaml", by decide, by decide⟩
    exact ⟨_, List.mem_cons_self, hRelative, hDots, hNever⟩
  · have hPlace : dotted.placeOf ⟨"out"⟩ = ["out"] := by decide
    exact hKept rules ⟨"out"⟩ _ content fun below _ hBelow => by simp [hPlace] at hBelow
  · refine ⟨⟨⟨"./a.b.yaml"⟩, ⟨"a.b.yaml"⟩⟩, by simp [dottedDecks], ⟨⟨"./a.b.yml"⟩, ⟨"a.b.yml"⟩⟩,
      by simp [dottedDecks], by decide, fun out => ?_⟩
    exact (hSame "." _ (by rfl) decksOf_dotted _ (by simp [dottedDecks]) _ (by simp [dottedDecks])
      out).2 ⟨by decide, by decide⟩

end Slideshow
