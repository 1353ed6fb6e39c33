import Slideshow.Proofs.Files.Basic

/-! Files on the way to others. A path that leads to a directory in the files to be reached can be
made one on the way, and nothing that is made or written there is in the way of the rest. -/

namespace Slideshow.Files

/-- Files on the way to `target`: every directory is one of `target`, and every file stands where
`target` has a file. -/
structure Within (fs target : Files) : Prop where
  here : target.here = fs.here
  directories : ∀ names, fs.root.node? names = some .directory →
    target.root.node? names = some .directory
  files : ∀ names content, fs.root.node? names = some (.file content) →
    ∃ content', target.root.node? names = some (.file content')

variable {made written : List String → Prop} {fs fs' target : Files} {p : Path}
  {names : List String}

theorem Within.start (h : fs.Within target) (p : Path) : target.start p = fs.start p := by
  rw [Files.start, Files.start, h.here]

theorem Within.placeOf (h : fs.Within target) (p : Path) : target.placeOf p = fs.placeOf p := by
  rw [Files.placeOf, Files.placeOf, h.start]

/-- An update that makes and writes only what is in `target` stays on the way to it. -/
theorem Within.update (h : fs.Within target) (hUpdate : Update made written fs fs')
    (hMade : ∀ names, made names → target.root.node? names = some .directory)
    (hWritten : ∀ names, written names →
      ∃ content, target.root.node? names = some (.file content)) : fs'.Within target := by
  refine ⟨h.here.trans hUpdate.here.symm, fun names hNew => ?_, fun names content hFile => ?_⟩
  · exact (hUpdate.new names hNew).elim (h.directories names) (hMade names)
  · by_cases hNames : written names
    · exact hWritten names hNames
    · exact h.files names content ((hUpdate.files names hNames content).1 hFile)

/-- Steps through `target` lead to the same place on the way to it, or what they pass is not there
yet. -/
theorem Within.follow (h : fs.Within target) {place steps : List String}
    (hTarget : Files.follow target.root place steps = .ok names) :
    Files.follow fs.root place steps = .ok names ∨
      Files.follow fs.root place steps = .error .notFound := by
  induction steps generalizing place with
  | nil => exact .inl hTarget
  | cons step steps ih =>
    obtain ⟨hPlace, hRest⟩ := follow_cons_eq_ok.1 hTarget
    cases hNode : fs.root.node? place with
    | none =>
      rw [Files.follow, Tree.node?_eq_none.1 hNode]
      exact .inr rfl
    | some node =>
      cases node with
      | file content =>
        -- `target` would have a file here too, not the directory that the steps pass.
        obtain ⟨content', hFile⟩ := h.files place content hNode
        rw [hPlace] at hFile
        cases hFile
      | directory =>
        have hStep : Files.follow fs.root place (step :: steps) =
            Files.follow fs.root (stepFrom place step) steps := by
          obtain ⟨es, hGet⟩ := Tree.node?_eq_directory.1 hNode
          rw [Files.follow, hGet, stepFrom]
          simp only
          split
          · rfl
          · split <;> rfl
        rw [hStep]
        exact ih hRest

theorem Within.resolve (h : fs.Within target) (hTarget : target.resolve p = .ok names) :
    fs.resolve p = .ok names ∨ fs.resolve p = .error .notFound := by
  obtain ⟨hText, hTarget⟩ := resolve_eq_ok.1 hTarget
  rw [h.start] at hTarget
  rw [Files.resolve, hText, if_neg Bool.false_ne_true]
  exact h.follow hTarget

/-- On the way to files in which a path leads to a directory, the directory is there or can be made,
unless the path leads nowhere yet. -/
theorem Within.ensureDirectory (h : fs.Within target) (hTarget : target.Enters p)
    (hText : p.text.isEmpty = false) :
    (∃ fs', fs.ensureDirectory p = .ok fs' ∧ fs'.Within target ∧ fs'.Enters p) ∨
      (fs.ensureDirectory p = .error .notFound ∧ fs.resolve p = .error .notFound) := by
  have hPlace := hTarget.resolve hText
  obtain hResolve | hResolve := h.resolve hPlace
  · refine .inl ?_
    cases hNode : fs.root.node? (target.placeOf p) with
    | none =>
      have hMade : fs.makeDirectory p = .ok
          { fs with root := fs.root.put (target.placeOf p) (.directory []) } := by
        rw [makeDirectory, hResolve]
        simp only [bind, Except.bind, Tree.node?_eq_none.1 hNode]
        rfl
      obtain ⟨names, hNames, hThere, hUpdate⟩ := makeDirectory_eq_ok (fun _ => False) hMade
      cases hResolve.symm.trans hNames
      refine ⟨_, by rw [Files.ensureDirectory, hMade], h.update hUpdate ?_ ?_, ?_⟩
      · rintro _ rfl
        exact hTarget.2
      · exact fun _ hNever => hNever.elim
      · exact enters_of_resolve (hUpdate.resolve hResolve) hThere
    | some node =>
      cases node with
      | file content =>
        obtain ⟨content', hFile⟩ := h.files _ content hNode
        rw [hTarget.2] at hFile
        cases hFile
      | directory =>
        obtain ⟨es, hGet⟩ := Tree.node?_eq_directory.1 hNode
        have hOccupied : fs.makeDirectory p = .error .occupied := by
          rw [makeDirectory, hResolve]
          simp only [bind, Except.bind, hGet]
          rfl
        have hThere : fs.isDirectory p = true := by
          rw [isDirectory, at?_eq_ok.2 ⟨_, hResolve, hGet⟩]
          rfl
        refine ⟨fs, ?_, h, enters_of_resolve hResolve hNode⟩
        rw [Files.ensureDirectory, hOccupied]
        simp only [hThere, if_true]
  · refine .inr ⟨?_, hResolve⟩
    have hMissing : fs.makeDirectory p = .error .notFound := by
      rw [makeDirectory, hResolve]
      rfl
    have hNone : fs.isDirectory p = false := by
      rw [isDirectory, at?, hResolve]
      rfl
    rw [Files.ensureDirectory, hMissing]
    simp only [hNone, Bool.false_eq_true, if_false]

theorem enters_root (hHere : fs.root.node? fs.here = some .directory) (h : p.text = "/") :
    fs.Enters p := by
  obtain ⟨_⟩ := p
  subst h
  have hRoot : fs.root.node? [] = some .directory := by
    cases hNames : fs.here with
    | nil => rwa [hNames] at hHere
    | cons name names =>
      rw [hNames] at hHere
      exact Tree.directory_of_node?_append (List.nil_append (name :: names) ▸ hHere)
        (List.cons_ne_nil _ _)
  exact ⟨follow_cons_eq_ok.2 ⟨hRoot, follow_cons_eq_ok.2 ⟨hRoot, rfl⟩⟩, hRoot⟩

/-- On the way to files in which a path leads to a directory, it can be made with those above it. -/
theorem Within.createDirectories (h : fs.Within target)
    (hHere : fs.root.node? fs.here = some .directory) (hTarget : target.Enters p)
    (hEnd : p.endsInName = true) :
    ∃ fs', fs.createDirectories p = (fs', .ok ()) ∧ fs'.Within target ∧ fs'.Enters p := by
  have hAbove {p above : Path} (hNonempty : ¬ p.text.isEmpty) (hEnd : p.endsInName = true)
      (hParent : p.parent? = some above) (hTarget : target.Enters p) : target.Enters above :=
    ((resolve_iff_parent hEnd hParent).1 (hTarget.resolve (Bool.eq_false_iff.2 hNonempty))).1
  fun_induction Files.createDirectories fs p with
  | case1 p hEmpty => exact ⟨fs, rfl, h, enters_empty hHere (String.isEmpty_iff.1 hEmpty)⟩
  | case2 p hNonempty made hMade =>
    obtain ⟨fs', hOk, hDone⟩ | ⟨hError, -⟩ :=
      h.ensureDirectory hTarget (Bool.eq_false_iff.2 hNonempty)
    · cases hMade.symm.trans hOk
      exact ⟨made, rfl, hDone⟩
    · cases hMade.symm.trans hError
  | case3 p hNonempty above hParent hLess reached e hReached hMade ih =>
    obtain ⟨fs', hOk, -⟩ := ih (hAbove hNonempty hEnd hParent hTarget)
      (Path.endsInName_parent hParent)
    cases hReached.symm.trans hOk
  | case4 p hNonempty above hParent hLess reached hReached made hAgain hMade ih =>
    obtain ⟨fs', hOk, hWithin, -⟩ := ih (hAbove hNonempty hEnd hParent hTarget)
      (Path.endsInName_parent hParent)
    cases hReached.symm.trans hOk
    obtain ⟨fs', hOk, hDone⟩ | ⟨hError, -⟩ :=
      hWithin.ensureDirectory hTarget (Bool.eq_false_iff.2 hNonempty)
    · cases hAgain.symm.trans hOk
      exact ⟨made, rfl, hDone⟩
    · cases hAgain.symm.trans hError
  | case5 p hNonempty above hParent hLess reached hReached e hAgain hMade ih =>
    obtain ⟨fs', hOk, hWithin, hEnters⟩ := ih (hAbove hNonempty hEnd hParent hTarget)
      (Path.endsInName_parent hParent)
    cases hReached.symm.trans hOk
    obtain ⟨fs', hOk, -⟩ | ⟨-, hNowhere⟩ :=
      hWithin.ensureDirectory hTarget (Bool.eq_false_iff.2 hNonempty)
    · cases hAgain.symm.trans hOk
    · -- The directory above is there, so the path leads somewhere.
      have hResolve := (resolve_iff_parent hEnd hParent).2 ⟨hEnters, rfl⟩
      cases hNowhere.symm.trans hResolve
  | case6 p hNonempty e hMade hOther =>
    obtain ⟨fs', hOk, -⟩ | ⟨hError, hNowhere⟩ :=
      h.ensureDirectory hTarget (Bool.eq_false_iff.2 hNonempty)
    · cases hMade.symm.trans hOk
    · -- The root, which alone is above nothing, is always there.
      cases hMade.symm.trans hError
      have hNone : p.parent? = none :=
        Option.eq_none_iff_forall_ne_some.2 fun above => hOther above rfl
      obtain hEmpty | hRoot := Path.parent?_eq_none hEnd hNone
      · exact absurd (String.isEmpty_iff.2 hEmpty) hNonempty
      · have hResolve := (enters_root hHere hRoot).resolve (Bool.eq_false_iff.2 hNonempty)
        cases hNowhere.symm.trans hResolve

end Slideshow.Files
