import Slideshow.Proofs.Files.Place

/-! What the operations on files find and change. Paths lead to the same places as long as directories
stay, and every operation is a frame: it keeps the directories, and all files but the one that it
writes. The directories that it makes are those at the path that it is given, or above it. -/

namespace Slideshow

theorem fromUTF8?_eq_some {bytes : ByteArray} {text : String} :
    String.fromUTF8? bytes = some text ↔ bytes = text.toUTF8 := by
  rw [String.fromUTF8?]
  constructor
  · intro h
    split at h
    · rw [← Option.some.inj h]
      rfl
    · exact nomatch h
  · rintro rfl
    rw [String.toUTF8_eq_toByteArray, dif_pos text.isValidUTF8]
    rfl

namespace Files

/-! ### Frames -/

/-- The files `after` have the directories of those `before`, and the same files but for the places
that may be written. -/
structure Frame (written : List String → Prop) (before after : Files) : Prop where
  here : after.here = before.here
  directories : ∀ names, before.root.node? names = some .directory →
    after.root.node? names = some .directory
  files : ∀ names, ¬ written names → ∀ content,
    after.root.node? names = some (.file content) ↔ before.root.node? names = some (.file content)

variable {written : List String → Prop} {before after fs fs' : Files} {p : Path}
  {names : List String} {content : ByteArray}

theorem Frame.refl (fs : Files) : Frame written fs fs :=
  ⟨rfl, fun _ h => h, fun _ _ _ => Iff.rfl⟩

theorem Frame.trans {middle : Files} (h1 : Frame written before middle)
    (h2 : Frame written middle after) : Frame written before after :=
  ⟨h2.here.trans h1.here, fun names h => h2.directories names (h1.directories names h),
    fun names hNames content => (h2.files names hNames content).trans (h1.files names hNames content)⟩

theorem Frame.mono {written' : List String → Prop} (h : Frame written before after)
    (hMore : ∀ names, written names → written' names) : Frame written' before after :=
  ⟨h.here, h.directories, fun names hNames => h.files names (mt (hMore names) hNames)⟩

theorem Frame.start (h : Frame written before after) (p : Path) : after.start p = before.start p := by
  rw [Files.start, Files.start, h.here]

theorem Frame.placeOf (h : Frame written before after) (p : Path) :
    after.placeOf p = before.placeOf p := by
  rw [Files.placeOf, Files.placeOf, h.start]

theorem Frame.isAbove (h : Frame written before after) :
    after.IsAbove p names ↔ before.IsAbove p names := by
  simp only [Files.IsAbove, h.placeOf]

/-- A frame that keeps trees well-formed and in which no directory is new but those that may be
made. -/
structure Update (made written : List String → Prop) (before after : Files) : Prop
    extends Frame written before after where
  new : ∀ names, after.root.node? names = some .directory →
    before.root.node? names = some .directory ∨ made names
  wellFormed : before.root.WellFormed → after.root.WellFormed

variable {made : List String → Prop}

theorem Update.refl (fs : Files) : Update made written fs fs :=
  ⟨.refl fs, fun _ => .inl, id⟩

theorem Update.trans {middle : Files} (h1 : Update made written before middle)
    (h2 : Update made written middle after) : Update made written before after :=
  ⟨h1.toFrame.trans h2.toFrame, fun names h => (h2.new names h).elim (h1.new names) .inr,
    fun h => h2.wellFormed (h1.wellFormed h)⟩

theorem Update.mono {made' written' : List String → Prop} (h : Update made written before after)
    (hMade : ∀ names, made names → made' names)
    (hWritten : ∀ names, written names → written' names) : Update made' written' before after :=
  ⟨h.toFrame.mono hWritten, fun names hNew => (h.new names hNew).imp_right (hMade names),
    h.wellFormed⟩

theorem Frame.resolve (hFrame : Frame written before after) (h : before.resolve p = .ok names) :
    after.resolve p = .ok names := by
  rw [resolve_eq_ok] at h ⊢
  rw [hFrame.start]
  exact ⟨h.1, follow_mono hFrame.directories h.2⟩

/-! ### Reading -/

theorem at?_eq_ok {t : Tree} :
    fs.at? p = .ok t ↔ ∃ names, fs.resolve p = .ok names ∧ fs.root.get? names = some t := by
  rw [at?, bind_eq_ok]
  refine exists_congr fun names => and_congr_right fun _ => ?_
  cases fs.root.get? names with
  | some found =>
    exact Iff.intro (fun h => congrArg some (Except.ok.inj h))
      (fun h => congrArg Except.ok (Option.some.inj h))
  | none => exact Iff.intro (fun h => nomatch h) (fun h => nomatch h)

theorem contains_eq (fs : Files) (p : Path) :
    fs.contains p = (fs.isFile p || fs.isDirectory p) := by
  rw [contains, isFile, isDirectory]
  cases fs.at? p with
  | error e => rfl
  | ok t => cases t <;> rfl

theorem contains_iff : fs.contains p = true ↔ fs.isFile p = true ∨ fs.isDirectory p = true := by
  rw [contains_eq, Bool.or_eq_true]

theorem contains_eq_false :
    fs.contains p = false ↔ fs.isFile p = false ∧ fs.isDirectory p = false := by
  rw [contains_eq, Bool.or_eq_false_iff]

theorem read_eq_ok : fs.read p = .ok content ↔
    ∃ names, fs.resolve p = .ok names ∧ fs.root.node? names = some (.file content) := by
  simp only [read, bind_eq_ok, at?_eq_ok, Tree.node?_eq_file]
  constructor
  · rintro ⟨t, ⟨names, hNames, hGet⟩, h⟩
    cases t with
    | file found =>
      cases h
      exact ⟨names, hNames, hGet⟩
    | directory es => exact nomatch h
  · rintro ⟨names, hNames, hGet⟩
    exact ⟨.file content, ⟨names, hNames, hGet⟩, rfl⟩

theorem readText_eq_ok {text : String} : fs.readText p = .ok text ↔ fs.read p = .ok text.toUTF8 := by
  rw [readText, bind_eq_ok]
  constructor
  · rintro ⟨bytes, hRead, h⟩
    split at h
    · rename_i found hFound
      cases h
      rw [hRead, fromUTF8?_eq_some.1 hFound]
    · exact nomatch h
  · intro h
    exact ⟨text.toUTF8, h, by rw [fromUTF8?_eq_some.2 rfl]; rfl⟩

/-- A file at a place that is not written is read as before. -/
theorem Frame.read (hFrame : Frame written before after) (hResolve : before.resolve p = .ok names)
    (hNames : ¬ written names) (h : before.read p = .ok content) : after.read p = .ok content := by
  obtain ⟨names', hResolve', hNode⟩ := read_eq_ok.1 h
  cases hResolve.symm.trans hResolve'
  exact read_eq_ok.2 ⟨names, hFrame.resolve hResolve, (hFrame.files names hNames content).2 hNode⟩

/-! ### Writing -/

/-- A leaf that is put where a path leads, and no directory stands, changes that one place. -/
theorem node?_put_resolve (new : Tree) (h : fs.resolve p = .ok names)
    (hNames : fs.root.node? names ≠ some .directory) (hNew : new.isLeaf = true) :
    (∀ other, (fs.root.put names new).node? other =
      if other = names then some new.node else fs.root.node? other) ∧
    (fs.root.WellFormed → (fs.root.put names new).WellFormed) := by
  obtain ⟨parent, name, rfl, hParent, hName, -⟩ := resolve_name h hNames
  exact ⟨Tree.node?_put hParent hNames hNew,
    fun hWell => hWell.put hParent (Path.isName_of_fileName? hName) hNew⟩

/-- Writing puts the file in its place and changes nothing else. -/
theorem write_eq_ok (h : fs.write p content = .ok fs') :
    ∃ names, fs.resolve p = .ok names ∧ fs'.root.node? names = some (.file content) ∧
      Update (fun _ => False) (· = names) fs fs' := by
  rw [write, bind_eq_ok] at h
  obtain ⟨names, hResolve, h⟩ := h
  have hNames : fs.root.node? names ≠ some .directory := by
    intro hNode
    obtain ⟨es, hGet⟩ := Tree.node?_eq_directory.1 hNode
    rw [hGet] at h
    exact nomatch h
  have hRoot : fs' = { fs with root := fs.root.put names (.file content) } := by
    split at h
    · exact nomatch h
    · exact (Except.ok.inj h).symm
  subst hRoot
  obtain ⟨hNode, hWell⟩ := node?_put_resolve (.file content) hResolve hNames rfl
  refine ⟨names, hResolve, by rw [hNode, if_pos rfl]; rfl, ⟨rfl, ?_, ?_⟩, ?_, hWell⟩
  · intro other hOther
    have hne : other ≠ names := fun hEq => hNames (hEq ▸ hOther)
    rw [hNode, if_neg hne, hOther]
  · intro other hOther content
    rw [hNode, if_neg hOther]
  · intro other hOther
    rw [hNode] at hOther
    split at hOther
    · exact nomatch hOther
    · exact .inl hOther

/-- Where a path leads, a file can be written unless a directory stands there. -/
theorem exists_write (h : fs.resolve p = .ok names)
    (hNames : fs.root.node? names ≠ some .directory) (content : ByteArray) :
    ∃ fs', fs.write p content = .ok fs' := by
  rw [write, h]
  simp only [bind, Except.bind]
  split
  · rename_i es hGet
    exact absurd (Tree.node?_eq_directory.2 ⟨es, hGet⟩) hNames
  · exact ⟨_, rfl⟩

/-- Making a directory puts it in its place and changes nothing else. -/
theorem makeDirectory_eq_ok (written : List String → Prop) (h : fs.makeDirectory p = .ok fs') :
    ∃ names, fs.resolve p = .ok names ∧ fs'.root.node? names = some .directory ∧
      Update (· = names) written fs fs' := by
  rw [makeDirectory, bind_eq_ok] at h
  obtain ⟨names, hResolve, h⟩ := h
  split at h
  · exact nomatch h
  rename_i hGet
  have hNone : fs.root.node? names = none := Tree.node?_eq_none.2 hGet
  cases Except.ok.inj h
  obtain ⟨hNode, hWell⟩ :=
    node?_put_resolve (.directory []) hResolve (by rw [hNone]; simp) rfl
  refine ⟨names, hResolve, by rw [hNode, if_pos rfl]; rfl, ⟨rfl, ?_, ?_⟩, ?_, hWell⟩
  · intro other hOther
    rw [hNode]
    split
    · rfl
    · exact hOther
  · intro other _ content
    rw [hNode]
    split
    · rename_i hEq
      rw [hEq, hNone]
      exact ⟨fun hFile => (nomatch hFile), fun hFile => (nomatch hFile)⟩
    · rfl
  · intro other hOther
    rw [hNode] at hOther
    split at hOther
    · rename_i hEq
      exact .inr hEq
    · exact .inl hOther

theorem ensureDirectory_update (written : List String → Prop)
    (h : fs.ensureDirectory p = .ok fs') : Update (· = fs.placeOf p) written fs fs' := by
  rw [ensureDirectory] at h
  split at h
  · rename_i made hMade
    cases h
    obtain ⟨names, hResolve, -, hUpdate⟩ := makeDirectory_eq_ok written hMade
    rwa [eq_placeOf_of_resolve hResolve] at hUpdate
  · split at h
    · cases h
      exact .refl fs
    · cases h

/-- Creating directories makes them at the path and above it and writes no file, whether it succeeds
or not. -/
theorem createDirectories_update (written : List String → Prop) (fs : Files) (p : Path) :
    Update (fun names => names = fs.placeOf p ∨ fs.IsAbove p names) written fs
      (fs.createDirectories p).1 := by
  have hEnsure {fs fs' : Files} {p : Path} (h : fs.ensureDirectory p = .ok fs') :
      Update (fun names => names = fs.placeOf p ∨ fs.IsAbove p names) written fs fs' :=
    (ensureDirectory_update written h).mono (fun _ => .inl) fun _ => id
  have hAbove {fs fs' : Files} {p above : Path} (hParent : p.parent? = some above)
      (h : Update (fun names => names = fs.placeOf above ∨ fs.IsAbove above names) written fs fs') :
      Update (fun names => names = fs.placeOf p ∨ fs.IsAbove p names) written fs fs' :=
    h.mono (fun _ hNames => .inr (.of_parent hParent hNames)) fun _ => id
  fun_induction createDirectories fs p with
  | case1 => exact .refl fs
  | case2 p hNonempty made hMade => exact hEnsure hMade
  | case3 p hNonempty above hParent hLess reached e hReached hMade ih =>
    rw [hReached] at ih
    exact hAbove hParent ih
  | case4 p hNonempty above hParent hLess reached hReached made hAgain hMade ih =>
    rw [hReached] at ih
    have hLast := hEnsure hAgain
    simp only [ih.isAbove, ih.placeOf] at hLast
    exact (hAbove hParent ih).trans hLast
  | case5 p hNonempty above hParent hLess reached hReached e hAgain hMade ih =>
    rw [hReached] at ih
    exact hAbove hParent ih
  | case6 => exact .refl fs

end Files

end Slideshow
