import Slideshow.Build.Discovery
import Slideshow.Proofs.Files.Basic

/-! Which deck files arguments stand for: every one that is found is a file that can be read at its
path, and they are found unless an argument is missing. -/

namespace Slideshow

variable {s : Settings} {fs : Files}

/-- The names that lead to a deck file through an entry of a directory. -/
inductive DeckThrough (s : Settings) : String × Tree → List String → Prop
  | file {name : String} {content : ByteArray} : s.isDeck ⟨name⟩ = true →
      DeckThrough s (name, .file content) [name]
  | below {name : String} {es : List (String × Tree)} {names : List String} :
      isSkippedDirectory name = false → names ∈ entryDecks s es →
      DeckThrough s (name, .directory es) (name :: names)

theorem mem_entryDecks {es : List (String × Tree)} {names : List String} :
    names ∈ entryDecks s es ↔ ∃ e ∈ es, DeckThrough s e names := by
  induction es with
  | nil => simp [entryDecks]
  | cons e es ih =>
    have hFirst : names ∈ entryDecks s (e :: es) ↔
        DeckThrough s e names ∨ names ∈ entryDecks s es := by
      obtain ⟨name, content | below⟩ := e
      · rw [entryDecks]
        constructor
        · intro h
          split at h
          · rename_i hDeck
            obtain rfl | h := List.mem_cons.1 h
            · exact .inl (.file hDeck)
            · exact .inr h
          · exact .inr h
        · rintro (h | h)
          · cases h with
            | file hDeck =>
              rw [if_pos hDeck]
              exact List.mem_cons_self
          · split
            · exact List.mem_cons_of_mem _ h
            · exact h
      · rw [entryDecks]
        constructor
        · intro h
          split at h
          · exact .inr h
          · rename_i hKept
            obtain h | h := List.mem_append.1 h
            · obtain ⟨rest, hRest, rfl⟩ := List.mem_map.1 h
              exact .inl (.below (Bool.eq_false_iff.2 hKept) hRest)
            · exact .inr h
        · rintro (h | h)
          · cases h with
            | below hKept hRest =>
              rw [if_neg (Bool.eq_false_iff.1 hKept)]
              exact List.mem_append_left _ (List.mem_map_of_mem hRest)
          · split
            · exact h
            · exact List.mem_append_right _ h
    simp only [hFirst, ih, List.mem_cons, exists_eq_or_imp]

/-- The deck files below a directory are the files in it with the extension of a deck that no
directory on the way is passed over for. -/
theorem mem_entryDecks_iff {es : List (String × Tree)} {names : List String}
    (hWell : (Tree.directory es).WellFormed) : names ∈ entryDecks s es ↔
      ∃ above name content, names = above ++ [name] ∧ s.isDeck ⟨name⟩ = true ∧
        (∀ directory ∈ above, isSkippedDirectory directory = false) ∧
        (Tree.directory es).node? names = some (.file content) := by
  -- On the names, not on the tree: each one is an entry of the directory that is reached so far.
  induction names generalizing es with
  | nil =>
    refine ⟨fun h => ?_, fun ⟨_, _, _, h, _⟩ => absurd h (by simp)⟩
    obtain ⟨e, -, hThrough⟩ := mem_entryDecks.1 h
    cases hThrough
  | cons name names ih =>
    rw [mem_entryDecks]
    constructor
    · rintro ⟨e, hMem, hThrough⟩
      have hChild := hWell.child?_of_mem hMem
      cases hThrough with
      | @file _ content hDeck =>
        refine ⟨[], name, content, rfl, hDeck, fun d hd => absurd hd List.not_mem_nil, ?_⟩
        rw [Tree.node?_cons, hChild]
        rfl
      | @below _ below _ hKept hRest =>
        have hBelow := ((Tree.wellFormed_directory.1 hWell).2 _ hMem).2
        obtain ⟨above, last, content, rfl, hDeck, hAbove, hNode⟩ := (ih hBelow).1 hRest
        refine ⟨name :: above, last, content, rfl, hDeck, List.forall_mem_cons.2 ⟨hKept, hAbove⟩, ?_⟩
        rw [Tree.node?_cons, hChild]
        exact hNode
    · rintro ⟨above, last, content, hNames, hDeck, hAbove, hNode⟩
      rw [Tree.node?_cons, Option.bind_eq_some_iff] at hNode
      obtain ⟨child, hChild, hNode⟩ := hNode
      refine ⟨(name, child), Dictionary.mem_of_lookup hChild, ?_⟩
      cases above with
      | nil =>
        cases hNames
        cases child with
        | file content => exact .file hDeck
        | directory es => exact nomatch hNode
      | cons first above =>
        cases hNames
        have ⟨hKept, hAbove⟩ := List.forall_mem_cons.1 hAbove
        have hRoot : child.node? [] = some .directory :=
          Tree.directory_of_node?_append hNode (by simp)
        cases child with
        | file content => exact nomatch hRoot
        | directory below =>
          have hBelow := ((Tree.wellFormed_directory.1 hWell).2 _ (Dictionary.mem_of_lookup hChild)).2
          exact .below hKept ((ih hBelow).2 ⟨above, last, content, rfl, hDeck, hAbove, hNode⟩)

theorem lt_of_mem_entryDecks {es : List (String × Tree)} {name : String}
    {rest names : List String} (hLess : ∀ e ∈ es, name < e.1) (h : names ∈ entryDecks s es) :
    name :: rest < names := by
  obtain ⟨e, hMem, hThrough⟩ := mem_entryDecks.1 h
  have hFirst := hLess e hMem
  cases hThrough with
  | file _ => exact List.cons_lt_cons_iff.2 (.inl hFirst)
  | below _ _ => exact List.cons_lt_cons_iff.2 (.inl hFirst)

/-- The names of deck files are in ascending order, no two of them the same. -/
theorem entryDecks_sorted {es : List (String × Tree)} (hWell : (Tree.directory es).WellFormed) :
    (entryDecks s es).Pairwise (· < ·) := by
  rw [Tree.wellFormed_directory] at hWell
  fun_induction entryDecks s es with
  | case1 => exact .nil
  | case2 name content es hDeck ih =>
    have ⟨hHead, hTail⟩ := List.pairwise_cons.1 hWell.1
    refine List.pairwise_cons.2 ⟨fun names => lt_of_mem_entryDecks hHead, ih ⟨hTail, ?_⟩⟩
    exact (List.forall_mem_cons.1 hWell.2).2
  | case3 name content es hDeck ih =>
    exact ih ⟨(List.pairwise_cons.1 hWell.1).2, (List.forall_mem_cons.1 hWell.2).2⟩
  | case4 name below es hSkipped ih =>
    exact ih ⟨(List.pairwise_cons.1 hWell.1).2, (List.forall_mem_cons.1 hWell.2).2⟩
  | case5 name below es hKept ihBelow ih =>
    have ⟨hHead, hTail⟩ := List.pairwise_cons.1 hWell.1
    have ⟨⟨_, hBelow⟩, hRest⟩ := List.forall_mem_cons.1 hWell.2
    have hFirst := ihBelow (Tree.wellFormed_directory.1 hBelow)
    refine List.pairwise_append.2 ⟨List.pairwise_map.2 (hFirst.imp ?_), ih ⟨hTail, hRest⟩, ?_⟩
    · exact fun hLess => List.cons_lt_cons_self.2 hLess
    · intro _ hNames names' hNames'
      obtain ⟨names, -, rfl⟩ := List.mem_map.1 hNames
      exact lt_of_mem_entryDecks hHead hNames'

/-- The names of a deck file lead to it, and all of them can stand in a path. -/
theorem get?_of_mem_entryDecks {es : List (String × Tree)} {names : List String}
    (hWell : (Tree.directory es).WellFormed) (h : names ∈ entryDecks s es) :
    names ≠ [] ∧ (∀ name ∈ names, Path.IsName name) ∧
      ∃ content, (Tree.directory es).get? names = some (.file content) := by
  obtain ⟨above, name, content, rfl, -, -, hNode⟩ := (mem_entryDecks_iff hWell).1 h
  have hGet := Tree.node?_eq_file.1 hNode
  exact ⟨by simp, hWell.isName_of_get? hGet, content, hGet⟩

/-- Every deck that an argument stands for is a file. -/
theorem decksOf_read {argument : String} {decks : List DeckSource} {d : DeckSource}
    (hWell : fs.root.WellFormed) (h : decksOf s fs argument = .ok decks) (hd : d ∈ decks) :
    ∃ content, fs.read d.path = .ok content := by
  rw [decksOf] at h
  split at h
  · rename_i es hAt
    cases h
    obtain ⟨names, hMem, rfl⟩ := List.mem_map.1 hd
    obtain ⟨place, hPlace, hDirectory⟩ := Files.at?_eq_ok.1 hAt
    obtain ⟨hSome, hNames, content, hGet⟩ := get?_of_mem_entryDecks (hWell.below hDirectory) hMem
    have hNode : fs.root.node? (place ++ names) = some (.file content) := by
      rw [Tree.node?_append hDirectory, Tree.node?_eq_file.2 hGet]
    exact ⟨content, Files.read_eq_ok.2 ⟨_, Files.resolve_join hPlace hSome hNames
      (by rw [hNode]; rfl), hNode⟩⟩
  · rename_i content hAt
    cases h
    obtain rfl := List.mem_singleton.1 hd
    obtain ⟨place, hPlace, hFile⟩ := Files.at?_eq_ok.1 hAt
    exact ⟨content, Files.read_eq_ok.2 ⟨place, hPlace, Tree.node?_eq_file.2 hFile⟩⟩
  · exact nomatch h

theorem findDecks_cons_eq_ok {argument : String} {rest : List String} {decks : List DeckSource} :
    findDecks s fs (argument :: rest) = .ok decks ↔ ∃ first others,
      decksOf s fs argument = .ok first ∧ findDecks s fs rest = .ok others ∧
        decks = first ++ others := by
  rw [findDecks]
  simp only [bind_eq_ok]
  constructor
  · rintro ⟨first, hFirst, others, hOthers, h⟩
    exact ⟨first, others, hFirst, hOthers, (Except.ok.inj h).symm⟩
  · rintro ⟨first, others, hFirst, hOthers, rfl⟩
    exact ⟨first, hFirst, others, hOthers, rfl⟩

/-- Every deck that is found is a file. -/
theorem findDecks_read {arguments : List String} {decks : List DeckSource} {d : DeckSource}
    (hWell : fs.root.WellFormed) (h : findDecks s fs arguments = .ok decks) (hd : d ∈ decks) :
    ∃ content, fs.read d.path = .ok content := by
  induction arguments generalizing decks with
  | nil =>
    cases Except.ok.inj h
    exact absurd hd List.not_mem_nil
  | cons argument rest ih =>
    obtain ⟨first, others, hFirst, hOthers, rfl⟩ := findDecks_cons_eq_ok.1 h
    obtain hd | hd := List.mem_append.1 hd
    · exact decksOf_read hWell hFirst hd
    · exact ih hOthers hd

/-! ### Missing arguments -/

theorem failure?_decksOf (s : Settings) (fs : Files) (argument : String) :
    failure? (decksOf s fs argument) =
      if fs.contains ⟨argument⟩ then none else some ⟨argument⟩ := by
  rw [decksOf, Files.contains]
  cases fs.at? ⟨argument⟩ with
  | error e => rfl
  | ok t => cases t <;> rfl

/-- The decks of arguments can be found unless an argument is missing; the first one is reported. -/
theorem failure?_findDecks (s : Settings) (fs : Files) (arguments : List String) :
    failure? (findDecks s fs arguments) =
      (arguments.find? fun a => !fs.contains ⟨a⟩).map MissingArgument.mk := by
  induction arguments with
  | nil => rfl
  | cons argument rest ih =>
    have hRest (first : List DeckSource) : failure? (do
        return first ++ (← findDecks s fs rest)) = failure? (findDecks s fs rest) := failure?_map
    rw [findDecks, failure?_bind fun first _ => hRest first, ih, failure?_decksOf, List.find?_cons]
    cases fs.contains ⟨argument⟩ <;> rfl

theorem exists_findDecks {arguments : List String} (h : ∀ a ∈ arguments, fs.contains ⟨a⟩ = true) :
    ∃ decks, findDecks s fs arguments = .ok decks := by
  rw [← failure?_eq_none, failure?_findDecks, Option.map_eq_none_iff, List.find?_eq_none]
  simpa using h

theorem findDecks_missing {arguments : List String}
    (h : ∃ a ∈ arguments, fs.contains ⟨a⟩ = false) :
    ∃ a ∈ arguments, fs.contains ⟨a⟩ = false ∧ findDecks s fs arguments = .error ⟨a⟩ := by
  obtain ⟨a, ha, hMissing⟩ := h
  cases hFirst : arguments.find? fun a => !fs.contains ⟨a⟩ with
  | none =>
    have hThere := List.find?_eq_none.1 hFirst a ha
    simp [hMissing] at hThere
  | some first =>
    refine ⟨first, List.mem_of_find?_eq_some hFirst, by simpa using List.find?_some hFirst, ?_⟩
    rw [← failure?_eq_some, failure?_findDecks, hFirst]
    rfl

/-! ### What stays -/

/-- The deck files depend on nothing but the files with the extension of a deck. -/
theorem entryDecks_congr {es es' : List (String × Tree)} (hWell : (Tree.directory es).WellFormed)
    (hWell' : (Tree.directory es').WellFormed)
    (h : ∀ above name content, s.isDeck ⟨name⟩ = true →
      ((Tree.directory es).node? (above ++ [name]) = some (.file content) ↔
        (Tree.directory es').node? (above ++ [name]) = some (.file content))) :
    entryDecks s es = entryDecks s es' := by
  refine (entryDecks_sorted hWell).eq_of_mem_iff (entryDecks_sorted hWell') fun names => ?_
  rw [mem_entryDecks_iff hWell, mem_entryDecks_iff hWell']
  refine exists_congr fun above => exists_congr fun name => exists_congr fun content => ?_
  refine and_congr_right fun hNames => and_congr_right fun hDeck => and_congr_right fun _ => ?_
  rw [hNames]
  exact h above name content hDeck

section Update

variable {made written : List String → Prop} {fs' : Files}

/-- Writing files that do not have the extension of a deck changes no argument's decks. -/
theorem decksOf_update {argument : String} {decks : List DeckSource} (hWell : fs.root.WellFormed)
    (hUpdate : Files.Update made written fs fs')
    (hFile : ∀ names, written names → ∃ content, fs'.root.node? names = some (.file content))
    (hDeck : ∀ above name, written (above ++ [name]) → s.isDeck ⟨name⟩ = false)
    (h : decksOf s fs argument = .ok decks) : decksOf s fs' argument = .ok decks := by
  rw [decksOf] at h
  split at h
  · rename_i es hAt
    obtain ⟨place, hPlace, hGet⟩ := Files.at?_eq_ok.1 hAt
    obtain ⟨es', hGet'⟩ := Tree.node?_eq_directory.1
      (hUpdate.directories place (Tree.node?_eq_directory.2 ⟨es, hGet⟩))
    have hAt' : fs'.at? ⟨argument⟩ = .ok (.directory es') :=
      Files.at?_eq_ok.2 ⟨place, hUpdate.resolve hPlace, hGet'⟩
    have hEs := hWell.below hGet
    have hEs' := (hUpdate.wellFormed hWell).below hGet'
    have hSame : entryDecks s es' = entryDecks s es := by
      refine entryDecks_congr hEs' hEs fun above name content hIsDeck => ?_
      rw [← Tree.node?_append hGet', ← Tree.node?_append hGet, hUpdate.files]
      rw [← List.append_assoc]
      intro hWritten
      rw [hDeck _ _ hWritten] at hIsDeck
      exact nomatch hIsDeck
    rw [decksOf, hAt', ← h]
    simp only [hSame]
  · rename_i content hAt
    obtain ⟨place, hPlace, hGet⟩ := Files.at?_eq_ok.1 hAt
    have hThere : ∃ content', fs'.root.node? place = some (.file content') := by
      by_cases hWritten : written place
      · exact hFile place hWritten
      · exact ⟨content, (hUpdate.files place hWritten content).2 (Tree.node?_eq_file.2 hGet)⟩
    obtain ⟨content', hNode⟩ := hThere
    have hAt' : fs'.at? ⟨argument⟩ = .ok (.file content') :=
      Files.at?_eq_ok.2 ⟨place, hUpdate.resolve hPlace, Tree.node?_eq_file.1 hNode⟩
    rw [decksOf, hAt', ← h]
  · exact nomatch h

/-- Writing files that do not have the extension of a deck changes no decks that are found. -/
theorem findDecks_update {arguments : List String} {decks : List DeckSource}
    (hWell : fs.root.WellFormed) (hUpdate : Files.Update made written fs fs')
    (hFile : ∀ names, written names → ∃ content, fs'.root.node? names = some (.file content))
    (hDeck : ∀ above name, written (above ++ [name]) → s.isDeck ⟨name⟩ = false)
    (h : findDecks s fs arguments = .ok decks) : findDecks s fs' arguments = .ok decks := by
  induction arguments generalizing decks with
  | nil => exact h
  | cons argument rest ih =>
    rw [findDecks_cons_eq_ok] at h ⊢
    obtain ⟨first, others, hFirst, hOthers, hDecks⟩ := h
    exact ⟨first, others, decksOf_update hWell hUpdate hFile hDeck hFirst, ih hOthers, hDecks⟩

end Update

/-- The same arguments in another order stand for the same decks in another order. -/
theorem findDecks_perm {arguments arguments' : List String} {decks : List DeckSource}
    (hPerm : arguments.Perm arguments') (h : findDecks s fs arguments = .ok decks) :
    ∃ decks', findDecks s fs arguments' = .ok decks' ∧ decks.Perm decks' := by
  induction hPerm generalizing decks with
  | nil => exact ⟨decks, h, .refl decks⟩
  | cons argument _ ih =>
    obtain ⟨first, others, hFirst, hOthers, rfl⟩ := findDecks_cons_eq_ok.1 h
    obtain ⟨others', hOthers', hPerm⟩ := ih hOthers
    exact ⟨first ++ others', findDecks_cons_eq_ok.2 ⟨first, others', hFirst, hOthers', rfl⟩,
      hPerm.append_left first⟩
  | swap argument next rest =>
    obtain ⟨first, _, hFirst, hRest, rfl⟩ := findDecks_cons_eq_ok.1 h
    obtain ⟨second, others, hSecond, hOthers, rfl⟩ := findDecks_cons_eq_ok.1 hRest
    have hFront := findDecks_cons_eq_ok.2 ⟨first, others, hFirst, hOthers, rfl⟩
    refine ⟨second ++ (first ++ others),
      findDecks_cons_eq_ok.2 ⟨second, _, hSecond, hFront, rfl⟩, ?_⟩
    · simp only [← List.append_assoc]
      exact List.perm_append_comm.append_right others
  | trans _ _ ih ih' =>
    obtain ⟨middle, hMiddle, hPerm⟩ := ih h
    obtain ⟨decks', hDecks', hPerm'⟩ := ih' hMiddle
    exact ⟨decks', hDecks', hPerm.trans hPerm'⟩

end Slideshow
