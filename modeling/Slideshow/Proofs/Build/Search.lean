import Slideshow.Proofs.Build.Discovery
import Slideshow.Proofs.Pairing
import Slideshow.Proofs.Path.Parent
import Slideshow.Proofs.Text.Bytes

/-! What is searched for under arguments, told without the search: the files below a directory that
have the extension of a deck and that no directory on the way hides, each once, in the order of the
bytes of their names. -/

namespace Slideshow

variable {s : Settings} {fs : Files} {es : List (String × Tree)} {argument name : String}
  {names above : List String} {decks : List DeckSource}

/-! ### Names -/

/-- Whether a file name ends in one of the extensions, up to the case of ASCII letters. What is in
front of the last dot must not be empty. -/
def HasExtension (extensions : List String) (name : String) : Prop :=
  ∃ stem extension, name = stem ++ "." ++ extension ∧ stem ≠ "" ∧ '.' ∉ extension.toList ∧
    ∃ x ∈ extensions, extension.toList.map Char.toLower = x.toList.map Char.toLower

/-- Whether a directory below an argument is searched. -/
def IsEntered (directory : String) : Prop :=
  directory.toList.head? ≠ some '.' ∧ directory ≠ "target" ∧ directory ≠ "node_modules"

theorem isDeck_iff_hasExtension (hName : Path.IsName name) :
    s.isDeck ⟨name⟩ = true ↔ HasExtension s.extensions name := by
  rw [Settings.isDeck, Path.extension?_of_fileName? (Path.fileName?_of_isName hName)]
  constructor
  · intro h
    split at h
    · rename_i extension hExtension
      obtain ⟨stem, hText, hStem, hDot⟩ := Path.splitName_snd_eq_some.1 hExtension
      obtain ⟨x, hx, hSame⟩ := List.any_eq_true.1 h
      exact ⟨stem, extension, hText, hStem, hDot, x, hx, beq_iff_eq.1 hSame⟩
    · exact nomatch h
  · rintro ⟨stem, extension, hText, hStem, hDot, x, hx, hSame⟩
    rw [Path.splitName_snd_eq_some.2 ⟨stem, hText, hStem, hDot⟩]
    exact List.any_eq_true.2 ⟨x, hx, beq_iff_eq.2 hSame⟩

theorem isSkippedDirectory_eq_false {directory : String} :
    isSkippedDirectory directory = false ↔ IsEntered directory := by
  simp [isSkippedDirectory, IsEntered, and_assoc]

/-! ### Files below a directory -/

/-- Whether directories that are entered lead to a file with the extension of a deck. -/
structure LeadsToDeck (s : Settings) (es : List (String × Tree)) (above : List String)
    (name : String) : Prop where
  file : ∃ content, (Tree.directory es).get? (above ++ [name]) = some (.file content)
  extension : HasExtension s.extensions name
  entered : ∀ directory ∈ above, IsEntered directory

theorem mem_entryDecks_iff_leadsToDeck (hWell : (Tree.directory es).WellFormed) :
    names ∈ entryDecks s es ↔
      ∃ above name, names = above ++ [name] ∧ LeadsToDeck s es above name := by
  simp only [mem_entryDecks_iff hWell, Tree.node?_eq_file, isSkippedDirectory_eq_false]
  constructor
  · rintro ⟨above, name, content, rfl, hDeck, hEntered, hFile⟩
    have hName := hWell.isName_of_get? hFile name (by simp)
    exact ⟨above, name, rfl, ⟨content, hFile⟩, (isDeck_iff_hasExtension hName).1 hDeck, hEntered⟩
  · rintro ⟨above, name, rfl, ⟨content, hFile⟩, hExtension, hEntered⟩
    have hName := hWell.isName_of_get? hFile name (by simp)
    exact ⟨above, name, content, rfl, (isDeck_iff_hasExtension hName).2 hExtension, hEntered, hFile⟩

/-- The bytes of a path, part by part. -/
def Path.stepBytes (p : Path) : List (List UInt8) := p.steps.map bytes

/-- The decks that an argument stands for. -/
inductive Discovers (s : Settings) (fs : Files) (argument : String) : List DeckSource → Prop
  | file {content : ByteArray} {name : String} : fs.at? ⟨argument⟩ = .ok (.file content) →
      (Path.mk argument).fileName? = some name →
      Discovers s fs argument [⟨⟨argument⟩, ⟨name⟩⟩]
  | directory {es : List (String × Tree)} {decks : List DeckSource} :
      fs.at? ⟨argument⟩ = .ok (.directory es) →
      (∀ d, d ∈ decks ↔ ∃ above name, LeadsToDeck s es above name ∧
        d = ⟨(Path.mk argument).join (.ofNames (above ++ [name])), .ofNames (above ++ [name])⟩) →
      decks.Pairwise (fun d e => d.relative.stepBytes < e.relative.stepBytes) →
      Discovers s fs argument decks

theorem stepBytes_below_lt {names' : List String} (hWell : (Tree.directory es).WellFormed)
    (hNames : names ∈ entryDecks s es) (hNames' : names' ∈ entryDecks s es) (h : names < names') :
    (DeckSource.below ⟨argument⟩ names).relative.stepBytes <
      (DeckSource.below ⟨argument⟩ names').relative.stepBytes := by
  have hSteps {names : List String} (hMem : names ∈ entryDecks s es) :
      (Path.ofNames names).steps = names := by
    obtain ⟨hSome, hName, -⟩ := get?_of_mem_entryDecks hWell hMem
    exact Path.steps_ofNames hSome fun name h => (hName name h).2.2.2
  rw [Path.stepBytes, Path.stepBytes, DeckSource.below, DeckSource.below, hSteps hNames,
    hSteps hNames']
  exact List.map_lt (fun _ _ => bytes_lt) h

theorem decksOf_discovers (hWell : fs.root.WellFormed) (h : decksOf s fs argument = .ok decks) :
    Discovers s fs argument decks := by
  rw [decksOf] at h
  split at h
  · rename_i es hAt
    cases h
    obtain ⟨place, -, hGet⟩ := Files.at?_eq_ok.1 hAt
    have hBelow := hWell.below hGet
    refine .directory hAt (fun d => ?_) ?_
    · simp only [List.mem_map, mem_entryDecks_iff_leadsToDeck hBelow]
      constructor
      · rintro ⟨_, ⟨above, name, rfl, hLeads⟩, rfl⟩
        exact ⟨above, name, hLeads, rfl⟩
      · rintro ⟨above, name, hLeads, rfl⟩
        exact ⟨_, ⟨above, name, rfl, hLeads⟩, rfl⟩
    · exact List.pairwise_map.2 ((entryDecks_sorted hBelow).imp_of_mem (stepBytes_below_lt hBelow))
  · rename_i content hAt
    cases h
    obtain ⟨place, hPlace, hGet⟩ := Files.at?_eq_ok.1 hAt
    obtain ⟨_, name, -, hName, -⟩ := Files.resolve_file hPlace (Tree.node?_eq_file.2 hGet)
    rw [DeckSource.ofFile, hName]
    exact .file hAt hName
  · cases h

theorem Discovers.nodup (h : Discovers s fs argument decks) : decks.Nodup := by
  cases h with
  | file _ _ => exact List.nodup_singleton _
  | directory _ _ hAscending =>
    refine hAscending.imp fun {d e} hLess hSame => ?_
    rw [hSame] at hLess
    exact List.lt_irrefl _ hLess

theorem findDecks_parts {arguments : List String} (hWell : fs.root.WellFormed)
    (h : findDecks s fs arguments = .ok decks) :
    ∃ parts, decks = parts.flatten ∧ List.Forall₂ (Discovers s fs) arguments parts := by
  induction arguments generalizing decks with
  | nil =>
    cases Except.ok.inj h
    exact ⟨[], rfl, .nil⟩
  | cons argument rest ih =>
    obtain ⟨first, others, hFirst, hOthers, rfl⟩ := findDecks_cons_eq_ok.1 h
    obtain ⟨parts, rfl, hParts⟩ := ih hOthers
    exact ⟨first :: parts, rfl, .cons (decksOf_discovers hWell hFirst) hParts⟩

/-- If all arguments are there, what they stand for is found, argument by argument: a file for
itself, and for a directory exactly the deck files below it that no directory on the way hides, each
once, in the order of the bytes of their names. -/
theorem findDecks_discovers {arguments : List String} (hWell : fs.root.WellFormed)
    (hThere : ∀ a ∈ arguments, fs.isFile ⟨a⟩ = true ∨ fs.isDirectory ⟨a⟩ = true) :
    ∃ parts, findDecks s fs arguments = .ok parts.flatten ∧
      List.Forall₂ (Discovers s fs) arguments parts ∧ ∀ decks ∈ parts, decks.Nodup := by
  obtain ⟨decks, hDecks⟩ := exists_findDecks fun a ha => Files.contains_iff.2 (hThere a ha)
  obtain ⟨parts, rfl, hParts⟩ := findDecks_parts hWell hDecks
  refine ⟨parts, hDecks, hParts, fun decks hMem => ?_⟩
  obtain ⟨argument, -, hDiscovers⟩ := exists_of_mem_right hParts hMem
  exact hDiscovers.nodup

/-- Decks and other files, hidden and not, in directories that are searched and in others. -/
def searched : Files :=
  ⟨.directory [
    (".deck.yml", .file .empty),
    (".hidden", .directory [("a.yaml", .file .empty)]),
    ("A.YAML", .file .empty),
    ("notes.txt", .file .empty),
    ("targets", .directory [
      ("b.yml", .file .empty),
      ("target", .directory [("a.yaml", .file .empty)])])], []⟩

theorem searched_wellFormed : searched.root.WellFormed := by
  have hFile : (Tree.file .empty).WellFormed := Tree.wellFormed_of_isLeaf rfl
  have hHidden : (Tree.directory [("a.yaml", .file .empty)]).WellFormed :=
    Tree.wellFormed_directory.2 ⟨by decide, by simp [hFile, Path.IsName]⟩
  have hTargets : (Tree.directory [("b.yml", .file .empty),
      ("target", .directory [("a.yaml", .file .empty)])]).WellFormed :=
    Tree.wellFormed_directory.2 ⟨by decide, by simp [hFile, hHidden, Path.IsName]⟩
  exact Tree.wellFormed_directory.2 ⟨by decide, by simp [hFile, hHidden, hTargets, Path.IsName]⟩

theorem decksOf_searched : decksOf {} searched "." =
    .ok [⟨⟨"./.deck.yml"⟩, ⟨".deck.yml"⟩⟩, ⟨⟨"./A.YAML"⟩, ⟨"A.YAML"⟩⟩,
      ⟨⟨"./targets/b.yml"⟩, ⟨"targets/b.yml"⟩⟩] := by
  have hDeck : Settings.isDeck {} ⟨".deck.yml"⟩ = true := by rfl
  have hUpper : Settings.isDeck {} ⟨"A.YAML"⟩ = true := by rfl
  have hNotes : Settings.isDeck {} ⟨"notes.txt"⟩ = false := by rfl
  have hBelow : Settings.isDeck {} ⟨"b.yml"⟩ = true := by rfl
  have hSkipped : isSkippedDirectory ".hidden" = true := by rfl
  have hTarget : isSkippedDirectory "target" = true := by rfl
  have hEntered : isSkippedDirectory "targets" = false := by rfl
  have hAt : searched.at? ⟨"."⟩ = .ok searched.root := by rfl
  rw [decksOf, hAt]
  simp only [searched, entryDecks, hDeck, hUpper, hNotes, hBelow, hSkipped, hTarget, hEntered]
  rfl

theorem findDecks_discovers_searched :
    searched.root.WellFormed ∧
    findDecks {} searched [".", "notes.txt"] =
      .ok [⟨⟨"./.deck.yml"⟩, ⟨".deck.yml"⟩⟩, ⟨⟨"./A.YAML"⟩, ⟨"A.YAML"⟩⟩,
        ⟨⟨"./targets/b.yml"⟩, ⟨"targets/b.yml"⟩⟩, ⟨⟨"notes.txt"⟩, ⟨"notes.txt"⟩⟩] ∧
    ∃ parts, findDecks {} searched [".", "notes.txt"] = .ok parts.flatten ∧
      List.Forall₂ (Discovers {} searched) [".", "notes.txt"] parts ∧
      ∀ decks ∈ parts, decks.Nodup := by
  refine ⟨searched_wellFormed, ?_, findDecks_discovers searched_wellFormed (by decide)⟩
  rw [findDecks, decksOf_searched]
  rfl

end Slideshow
