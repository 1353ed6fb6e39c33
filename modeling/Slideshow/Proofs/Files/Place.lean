import Slideshow.Files.Basic
import Slideshow.Proofs.Files.Tree
import Slideshow.Proofs.Path.Parent
import Slideshow.Proofs.Success

/-! The places that paths lead to. A path that leads anywhere leads to the same place in all trees, and
it leads there if and only if what is above it is a directory. -/

namespace Slideshow.Files

/-! ### Steps -/

/-- The place that one step leads to. -/
def stepFrom (place : List String) (step : String) : List String :=
  if step = "" ∨ step = "." then place
  else if step = ".." then place.dropLast
  else place ++ [step]

theorem follow_cons_eq_ok {root : Tree} {place names : List String} {step : String}
    {steps : List String} : follow root place (step :: steps) = .ok names ↔
      root.node? place = some .directory ∧ follow root (stepFrom place step) steps = .ok names := by
  rw [follow, Tree.node?_eq_directory]
  split
  · rename_i hGet
    simp [hGet]
  · rename_i hGet
    simp [hGet]
  · rename_i es hGet
    rw [and_iff_right ⟨es, hGet⟩, stepFrom]
    split
    · rfl
    · split <;> rfl

theorem follow_append {root : Tree} {place names : List String} {first rest : List String} :
    follow root place (first ++ rest) = .ok names ↔
      ∃ middle, follow root place first = .ok middle ∧ follow root middle rest = .ok names := by
  induction first generalizing place with
  | nil => simp [follow]
  | cons step first ih =>
    simp only [List.cons_append, follow_cons_eq_ok, ih, and_assoc, exists_and_left]

theorem follow_mono {before after : Tree} {place names steps : List String}
    (hKept : ∀ names, before.node? names = some .directory → after.node? names = some .directory)
    (h : follow before place steps = .ok names) : follow after place steps = .ok names := by
  induction steps generalizing place with
  | nil => exact h
  | cons step steps ih =>
    rw [follow_cons_eq_ok] at h ⊢
    exact ⟨hKept place h.1, ih h.2⟩

theorem stepFrom_blank {place : List String} {step : String} (h : step = "" ∨ step = ".") :
    stepFrom place step = place := if_pos h

/-- Where steps lead to does not depend on the tree. -/
theorem eq_foldl_of_follow {root : Tree} {place names steps : List String}
    (h : follow root place steps = .ok names) : names = steps.foldl stepFrom place := by
  induction steps generalizing place with
  | nil => exact (Except.ok.inj h).symm
  | cons step steps ih => exact ih (follow_cons_eq_ok.1 h).2

/-- Steps lead to a directory, or to a name in one. -/
theorem follow_parent {root : Tree} {place names steps : List String}
    (h : follow root place steps = .ok names) (hSteps : steps ≠ []) :
    root.node? names = some .directory ∨
      ∃ parent first name, names = parent ++ [name] ∧ steps = first ++ [name] ∧
        ¬ (name = "" ∨ name = ".") ∧ name ≠ ".." ∧ root.node? parent = some .directory := by
  induction steps generalizing place with
  | nil => exact absurd rfl hSteps
  | cons step steps ih =>
    rw [follow_cons_eq_ok] at h
    obtain ⟨hPlace, h⟩ := h
    cases steps with
    | cons next steps =>
      refine (ih h (List.cons_ne_nil _ _)).imp_right ?_
      rintro ⟨parent, first, name, hNames, hSteps, hRest⟩
      exact ⟨parent, step :: first, name, hNames, by rw [hSteps, List.cons_append], hRest⟩
    | nil =>
      cases Except.ok.inj h
      rw [stepFrom]
      split
      · exact .inl hPlace
      · rename_i hBlank
        split
        · exact .inl (Tree.directory_dropLast hPlace)
        · rename_i hDots
          exact .inr ⟨place, [], step, rfl, rfl, hBlank, hDots, hPlace⟩

/-- Steps lead from a place to a directory. -/
def Reaches (root : Tree) (place steps names : List String) : Prop :=
  follow root place steps = .ok names ∧ root.node? names = some .directory

theorem reaches_blank (root : Tree) (place steps : List String) {step : String}
    (h : step = "" ∨ step = ".") : Reaches root place (steps ++ [step]) = Reaches root place steps := by
  funext names
  simp only [Reaches, follow_append, follow_cons_eq_ok, stepFrom_blank h, eq_iff_iff]
  constructor
  · rintro ⟨⟨middle, hMiddle, hDirectory, hEq⟩, -⟩
    cases hEq
    exact ⟨hMiddle, hDirectory⟩
  · rintro ⟨hMiddle, hDirectory⟩
    exact ⟨⟨names, hMiddle, hDirectory, rfl⟩, hDirectory⟩

/-! ### Paths -/

variable {fs : Files} {p q : Path} {names : List String}

/-- Where the steps of a path start. -/
def start (fs : Files) (p : Path) : List String := if p.isAbsolute then [] else fs.here

/-- The place that a path leads to, if it leads anywhere. -/
def placeOf (fs : Files) (p : Path) : List String := p.steps.foldl stepFrom (fs.start p)

/-- Whether names are the place of a path above another. -/
def IsAbove (fs : Files) (p : Path) (names : List String) : Prop :=
  ∃ q, Path.IsAbove q p ∧ names = fs.placeOf q

theorem IsAbove.of_parent (hParent : p.parent? = some q)
    (h : names = fs.placeOf q ∨ fs.IsAbove q names) : fs.IsAbove p names := by
  obtain rfl | ⟨r, hr, rfl⟩ := h
  · exact ⟨q, .parent hParent, rfl⟩
  · exact ⟨r, .above hParent hr, rfl⟩

/-- A path leads to a directory; the empty path, to that which paths start from. -/
def Enters (fs : Files) (p : Path) : Prop :=
  Reaches fs.root (fs.start p) p.steps (fs.placeOf p)

theorem resolve_eq_ok : fs.resolve p = .ok names ↔
    p.text.isEmpty = false ∧ follow fs.root (fs.start p) p.steps = .ok names := by
  rw [resolve, start]
  cases p.text.isEmpty <;> simp

theorem eq_placeOf_of_resolve (h : fs.resolve p = .ok names) : names = fs.placeOf p :=
  eq_foldl_of_follow (resolve_eq_ok.1 h).2

theorem enters_of_resolve (h : fs.resolve p = .ok names)
    (hNames : fs.root.node? names = some .directory) : fs.Enters p := by
  cases eq_placeOf_of_resolve h
  exact ⟨(resolve_eq_ok.1 h).2, hNames⟩

theorem Enters.resolve (h : fs.Enters p) (hText : p.text.isEmpty = false) :
    fs.resolve p = .ok (fs.placeOf p) := resolve_eq_ok.2 ⟨hText, h.1⟩

/-- A well-formed tree, and a directory in it that paths start from. -/
structure WellFormed (fs : Files) : Prop where
  root : fs.root.WellFormed
  here : fs.root.node? fs.here = some .directory

/-- Well-formed files with the same at every place are the same. -/
theorem WellFormed.ext {fs' : Files} (h : fs.WellFormed) (h' : fs'.WellFormed)
    (hHere : fs.here = fs'.here) (hNode : ∀ names, fs.root.node? names = fs'.root.node? names) :
    fs = fs' := by
  obtain ⟨root, here⟩ := fs
  obtain ⟨root', here'⟩ := fs'
  cases hHere
  cases h.root.ext h'.root hNode
  rfl

theorem enters_empty (hHere : fs.root.node? fs.here = some .directory) (h : p.text = "") :
    fs.Enters p := by
  obtain ⟨_⟩ := p
  subst h
  exact ⟨follow_cons_eq_ok.2 ⟨hHere, rfl⟩, hHere⟩

/-- What does not lead to a directory ends in a name and leads to that name in one. -/
theorem resolve_name (h : fs.resolve p = .ok names)
    (hNames : fs.root.node? names ≠ some .directory) :
    ∃ parent name, names = parent ++ [name] ∧ fs.root.node? parent = some .directory ∧
      p.fileName? = some name ∧ p.endsInName = true := by
  obtain ⟨parent, first, name, rfl, hSteps, hBlank, hDots, hParent⟩ :=
    (follow_parent (resolve_eq_ok.1 h).2 p.steps_ne_nil).resolve_left hNames
  have ⟨hEmpty, hDot⟩ := not_or.1 hBlank
  exact ⟨parent, name, rfl, hParent, Path.fileName?_of_steps hSteps hEmpty hDot hDots⟩

theorem resolve_file {content : ByteArray} (h : fs.resolve p = .ok names)
    (hFile : fs.root.node? names = some (.file content)) :
    ∃ parent name, names = parent ++ [name] ∧ p.fileName? = some name ∧ p.endsInName = true := by
  obtain ⟨parent, name, hNames, -, hName⟩ := resolve_name h (by rw [hFile]; simp)
  exact ⟨parent, name, hNames, hName⟩

/-- A path that ends in a part leads somewhere if and only if the path above it leads to a
directory. -/
theorem resolve_iff_parent (hEnd : p.endsInName = true) (hParent : p.parent? = some q) :
    fs.resolve p = .ok names ↔ fs.Enters q ∧ names = fs.placeOf p := by
  obtain ⟨first, part, hSteps, hAbsolute, hBlank⟩ := Path.steps_parent hEnd hParent
  have hStart : fs.start q = fs.start p := by rw [start, start, hAbsolute]
  have hPlace : fs.placeOf q = first.foldl stepFrom (fs.start p) := by
    rw [placeOf, hStart]
    refine hBlank fun steps step hStep => ?_
    rw [List.foldl_append]
    exact stepFrom_blank hStep
  have hLast : fs.placeOf p = stepFrom (fs.placeOf q) part := by
    rw [hPlace, placeOf, hSteps, List.foldl_append]
    rfl
  -- Blank steps before the last one change neither the place nor that it must be a directory.
  have hAbove : Reaches fs.root (fs.start q) q.steps = Reaches fs.root (fs.start p) first := by
    rw [hStart]
    exact hBlank fun steps step hStep => reaches_blank _ _ steps hStep
  rw [resolve_eq_ok, and_iff_right (Path.isEmpty_of_parent? hParent), hSteps, follow_append, Enters,
    hAbove]
  constructor
  · rintro ⟨middle, hMiddle, hEq⟩
    obtain ⟨hDirectory, hEq⟩ := follow_cons_eq_ok.1 hEq
    cases hEq
    cases (eq_foldl_of_follow hMiddle).trans hPlace.symm
    exact ⟨⟨hMiddle, hDirectory⟩, hLast.symm⟩
  · rintro ⟨⟨hMiddle, hDirectory⟩, rfl⟩
    exact ⟨_, hMiddle, follow_cons_eq_ok.2 ⟨hDirectory, by rw [hLast]; rfl⟩⟩

/-- All paths above one that leads somewhere lead to directories. -/
theorem enters_of_isAbove (hAbove : Path.IsAbove q p) (hEnd : p.endsInName = true)
    (h : fs.resolve p = .ok names) : fs.Enters q := by
  induction hAbove generalizing names with
  | parent hParent => exact ((resolve_iff_parent hEnd hParent).1 h).1
  | above hParent hAbove ih =>
    have hEnters := ((resolve_iff_parent hEnd hParent).1 h).1
    exact ih (Path.endsInName_parent hParent) (hEnters.resolve hAbove.isEmpty)

/-- Names lead below a directory one after another. -/
theorem follow_names {root : Tree} {place names : List String}
    (hNames : ∀ name ∈ names, Path.IsName name) (hThere : (root.node? (place ++ names)).isSome) :
    follow root place names = .ok (place ++ names) := by
  induction names generalizing place with
  | nil => rw [follow, List.append_nil]
  | cons name names ih =>
    obtain ⟨n, hn⟩ := Option.isSome_iff_exists.1 hThere
    have ⟨⟨hEmpty, hDot, hDots, _⟩, hRest⟩ := List.forall_mem_cons.1 hNames
    have hStep : stepFrom place name = place ++ [name] := by
      rw [stepFrom, if_neg (by simp [hEmpty, hDot]), if_neg hDots]
    have hSplit : place ++ name :: names = place ++ [name] ++ names := by simp
    rw [follow_cons_eq_ok, hStep, hSplit]
    exact ⟨Tree.directory_of_node?_append hn (List.cons_ne_nil _ _), ih hRest (hSplit ▸ hThere)⟩

/-- What is below a directory is found by its names behind the path of the directory. -/
theorem resolve_join {place : List String}
    (hPlace : fs.resolve p = .ok place) (hSome : names ≠ [])
    (hNames : ∀ name ∈ names, Path.IsName name) (hThere : (fs.root.node? (place ++ names)).isSome) :
    fs.resolve (p.join (.ofNames names)) = .ok (place ++ names) := by
  rw [resolve_eq_ok] at hPlace ⊢
  obtain ⟨hText, hPlace⟩ := hPlace
  have hSteps := Path.steps_ofNames hSome fun name hName => (hNames name hName).2.2.2
  have hRelative := Path.isAbsolute_ofNames hSome hNames
  obtain ⟨above, hJoin, hAbove⟩ := Path.steps_join hText hRelative
  rw [start, Path.isAbsolute_join hText hRelative, hJoin, hSteps, follow_append]
  have hBelow := follow_names hNames hThere
  refine ⟨Path.isEmpty_join hText hRelative, place, ?_, hBelow⟩
  obtain h | h := hAbove
  · rwa [h] at hPlace
  · rw [h, follow_append] at hPlace
    obtain ⟨middle, hMiddle, hLast⟩ := hPlace
    cases (follow_cons_eq_ok.1 hLast).2
    exact hMiddle

end Slideshow.Files
