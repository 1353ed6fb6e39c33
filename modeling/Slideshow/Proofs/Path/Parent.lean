import Slideshow.Proofs.Path

/-! The last part of a path and the path above it. Slashes and single dots after the last part do not
count, so a path that ends in a name is the path above it, a slash and the name. -/

namespace Slideshow.Path

theorem splitSlashes_append (before after : List Char) :
    splitSlashes (before ++ '/' :: after) = splitSlashes before ++ splitSlashes after := by
  simp only [splitSlashes_eq_splitOn, List.splitOn_append_cons_self]

theorem splitSlashes_plain {cs : List Char} (h : '/' ∉ cs) : splitSlashes cs = [cs] := by
  rw [splitSlashes_eq_splitOn, List.splitOn_eq_singleton h]

/-- A text without a slash, or one with what follows its last slash. -/
theorem exists_lastSlash (cs : List Char) :
    '/' ∉ cs ∨ ∃ before last, cs = before ++ '/' :: last ∧ '/' ∉ last := by
  by_cases h : '/' ∈ cs
  · obtain ⟨after, before, hSplit, hLast⟩ := List.eq_append_cons_of_mem (List.mem_reverse.2 h)
    refine .inr ⟨before.reverse, after.reverse, ?_, by simpa using hLast⟩
    rw [← List.reverse_reverse cs, hSplit]
    simp
  · exact .inl h

/-! ### What does not count at the end -/

theorem dropTail_suffix (cs : List Char) : dropTail cs <:+ cs := by
  fun_induction dropTail cs with
  | case1 rest ih => exact ih.trans (List.suffix_cons _ _)
  | case2 c rest ih => exact ih.trans (List.suffix_cons _ _)
  | case3 => exact List.suffix_rfl

theorem dropTail_dropTail (cs : List Char) : dropTail (dropTail cs) = dropTail cs := by
  fun_induction dropTail cs with
  | case1 rest ih => exact ih
  | case2 c rest ih => exact ih
  | case3 rest h1 h2 =>
    rw [dropTail]
    · exact h1
    · exact h2

theorem dropTail_ne_nil {cs : List Char} (h : cs ≠ []) : dropTail cs ≠ [] := by
  fun_induction dropTail cs with
  | case1 rest ih => exact ih (List.cons_ne_nil _ _)
  | case2 c rest ih => exact ih (List.cons_ne_nil _ _)
  | case3 => exact h

/-- Nothing is cut off behind a part that is neither empty nor a single dot. -/
theorem dropTail_of_part {part rest : List Char} (hSlash : '/' ∉ part) (hEmpty : part ≠ [])
    (hDot : part ≠ ['.']) : dropTail (part ++ rest) = part ++ rest := by
  obtain ⟨c, cs, rfl⟩ := List.exists_cons_of_ne_nil hEmpty
  have hc : c ≠ '/' := by
    rintro rfl
    simp at hSlash
  rw [dropTail]
  · rintro after h
    cases cs with
    | nil => simp_all
    | cons c' cs => simp_all
  · rintro c' after h
    simp_all

/-! ### The last part -/

variable {p q : Path}

/-- A path is its last part, or what stands before its last slash and that part. -/
theorem exists_part (p : Path) : ∃ (part rest : List Char) (first : List String), '/' ∉ part ∧
    p.text.toList.reverse = part.reverse ++ rest ∧ p.steps = first ++ [String.ofList part] ∧
    ((rest = [] ∧ first = []) ∨
      ∃ before, rest = '/' :: before ∧
        first = (splitSlashes before.reverse).map String.ofList) := by
  obtain h | ⟨before, part, hText, hPart⟩ := exists_lastSlash p.text.toList
  · refine ⟨p.text.toList, [], [], h, (List.append_nil _).symm, ?_, .inl ⟨rfl, rfl⟩⟩
    rw [steps, splitSlashes_plain h]
    rfl
  · refine ⟨part, '/' :: before.reverse, (splitSlashes before).map String.ofList, hPart, ?_, ?_,
      .inr ⟨before.reverse, rfl, by rw [List.reverse_reverse]⟩⟩
    · rw [hText, List.reverse_append, List.reverse_cons, List.append_assoc, List.singleton_append]
    · rw [steps, hText, splitSlashes_append, splitSlashes_plain hPart, List.map_append]
      rfl

theorem splitLast_eq {part rest : List Char} (hText : dropTail p.text.toList.reverse = part ++ rest)
    (hSlash : '/' ∉ part) (hRest : rest = [] ∨ ∃ before, rest = '/' :: before) :
    p.splitLast = (part, rest) := by
  have hPart : ∀ c ∈ part, decide (c ≠ '/') = true := by
    intro c hc
    have hne : c ≠ '/' := fun h => hSlash (h ▸ hc)
    simpa using hne
  rw [splitLast, hText, List.takeWhile_append_of_pos hPart, List.dropWhile_append_of_pos hPart]
  obtain rfl | ⟨before, rfl⟩ := hRest <;> simp

/-- The last part of a path is split off whole, unless it is empty or a single dot. -/
theorem splitLast_of_part {part rest : List Char}
    (hText : p.text.toList.reverse = part.reverse ++ rest) (hSlash : '/' ∉ part)
    (hRest : rest = [] ∨ ∃ before, rest = '/' :: before) (hEmpty : part ≠ [])
    (hDot : part ≠ ['.']) : p.splitLast = (part.reverse, rest) ∧ p.endsInName = true := by
  have hEnd : dropTail p.text.toList.reverse = p.text.toList.reverse := by
    rw [hText]
    refine dropTail_of_part (by simpa using hSlash) (by simpa using hEmpty) (fun h => hDot ?_)
    rw [← List.reverse_reverse part, h]
    rfl
  exact ⟨splitLast_eq (hEnd.trans hText) (by simpa using hSlash) hRest, beq_iff_eq.2 hEnd⟩

/-- The last step of a path is split off whole, and what is before it are the steps before it. -/
theorem splitLast_of_steps {first : List String} {last : String} (hSteps : p.steps = first ++ [last])
    (hEmpty : last ≠ "") (hDot : last ≠ ".") :
    ∃ rest, p.text.toList = rest.reverse ++ last.toList ∧ '/' ∉ last.toList ∧
      p.splitLast = (last.toList.reverse, rest) ∧ p.endsInName = true ∧
      ((rest = [] ∧ first = []) ∨
        ∃ before, rest = '/' :: before ∧
          first = (splitSlashes before.reverse).map String.ofList) := by
  obtain ⟨part, rest, first', hPlain, hText, hSteps', hRest⟩ := exists_part p
  rw [hSteps'] at hSteps
  obtain ⟨rfl, hPart⟩ := List.append_inj' hSteps rfl
  obtain rfl : String.ofList part = last := List.singleton_inj.1 hPart
  have ⟨hSplit, hEnd⟩ := splitLast_of_part hText hPlain
    (hRest.imp And.left fun ⟨before, h, _⟩ => ⟨before, h⟩)
    (fun h => hEmpty (by rw [h])) (fun h => hDot (by rw [h]))
  rw [String.toList_ofList]
  refine ⟨rest, ?_, hPlain, hSplit, hEnd, hRest⟩
  rw [← List.reverse_reverse p.text.toList, hText, List.reverse_append, List.reverse_reverse]

/-- A path whose last step is a name ends in it. -/
theorem fileName?_of_steps {first : List String} {name : String}
    (hSteps : p.steps = first ++ [name]) (hEmpty : name ≠ "") (hDot : name ≠ ".")
    (hDots : name ≠ "..") : p.fileName? = some name ∧ p.endsInName = true := by
  obtain ⟨rest, -, -, hSplit, hEnd, -⟩ := splitLast_of_steps hSteps hEmpty hDot
  rw [fileName?, hSplit, List.reverse_reverse, String.ofList_toList,
    if_neg (by simp [hEmpty, hDot, hDots])]
  exact ⟨rfl, hEnd⟩

/-- Two dots are no file name. -/
theorem fileName?_of_dots {first : List String} (hSteps : p.steps = first ++ [".."]) :
    p.fileName? = none := by
  obtain ⟨rest, -, -, hSplit, -, -⟩ := splitLast_of_steps hSteps (by decide) (by decide)
  rw [fileName?, hSplit]
  rfl

theorem isName_of_fileName? {name : String} (h : p.fileName? = some name) : IsName name := by
  rw [fileName?, Option.ite_none_left_eq_some, Option.some_inj] at h
  obtain ⟨hOther, rfl⟩ := h
  simp only [not_or] at hOther
  refine ⟨hOther.1, hOther.2.1, hOther.2.2, ?_⟩
  rw [String.toList_ofList, List.mem_reverse]
  intro hMem
  have hne := List.all_eq_true.1 (List.all_takeWhile (p := fun c => decide (c ≠ '/'))) _ hMem
  simp at hne

theorem parent?_isSome {name : String} (h : p.fileName? = some name) :
    ∃ q, p.parent? = some q := by
  have hName := (isName_of_fileName? h).1
  rw [fileName?, Option.ite_none_left_eq_some, Option.some_inj] at h
  rw [parent?, if_neg]
  · exact ⟨_, rfl⟩
  · intro hNil
    rw [List.isEmpty_iff] at hNil
    rw [hNil] at h
    exact hName h.2.symm

theorem endsInName_parent (h : p.parent? = some q) : q.endsInName = true := by
  rw [parent?, Option.ite_none_left_eq_some, Option.some_inj] at h
  rw [endsInName, beq_iff_eq, ← h.2, String.toList_ofList, List.reverse_reverse, dropTail_dropTail]

/-- Whatever does not depend on blank steps at the end is the same of the steps of a path and of those
without what does not count at its end. -/
theorem steps_dropTail {α : Type} {f : List String → α}
    (hBlank : ∀ steps step, step = "" ∨ step = "." → f (steps ++ [step]) = f steps)
    (cs : List Char) : f ((splitSlashes (dropTail cs).reverse).map String.ofList) =
      f ((splitSlashes cs.reverse).map String.ofList) := by
  fun_induction dropTail cs with
  | case1 rest ih =>
    rw [ih, List.reverse_cons, splitSlashes_append, List.map_append]
    rw [List.reverse_cons, List.reverse_cons, List.append_assoc, List.singleton_append,
      splitSlashes_append, List.map_append]
    exact (hBlank _ "" (.inl rfl)).trans (hBlank _ "." (.inr rfl)).symm
  | case2 c rest ih =>
    rw [ih, List.reverse_cons (a := '/'), splitSlashes_append, List.map_append]
    exact (hBlank _ "" (.inl rfl)).symm
  | case3 => rfl

/-- The steps of a path that ends in a part are those of the path above it and that part, but for
blank steps between them. -/
theorem steps_parent (hEnd : p.endsInName = true) (hParent : p.parent? = some q) :
    ∃ (first : List String) (part : String), p.steps = first ++ [part] ∧
      q.isAbsolute = p.isAbsolute ∧ ∀ {α : Type} {f : List String → α},
        (∀ steps step, step = "" ∨ step = "." → f (steps ++ [step]) = f steps) →
        f q.steps = f first := by
  obtain ⟨part, rest, first, hPlain, hText, hSteps, hRest⟩ := exists_part p
  rw [endsInName, beq_iff_eq, hText] at hEnd
  have hSplit : p.splitLast = (part.reverse, rest) :=
    splitLast_eq (hText ▸ hEnd) (by simpa using hPlain)
      (hRest.imp And.left fun ⟨before, h, _⟩ => ⟨before, h⟩)
  rw [parent?, hSplit, Option.ite_none_left_eq_some, Option.some_inj] at hParent
  have hAbove : q.text.toList = (dropTail rest).reverse := by
    rw [← hParent.2, String.toList_ofList]
  refine ⟨first, String.ofList part, hSteps, ?_⟩
  rw [isAbsolute, isAbsolute, steps, hAbove, ← List.reverse_reverse p.text.toList, hText]
  obtain ⟨rfl, rfl⟩ | ⟨before, rfl, rfl⟩ := hRest
  · refine ⟨?_, fun hBlank => hBlank [] "" (.inl rfl)⟩
    have hHead : (part.head? == some '/') = false :=
      beq_eq_false_iff_ne.2 fun h => hPlain (List.mem_of_head? h)
    rw [List.append_nil, List.reverse_reverse, hHead]
    rfl
  · refine ⟨?_, fun hBlank => ?_⟩
    · -- The first character of both is the last one of the reversed start.
      have hSome := dropTail_ne_nil (List.cons_ne_nil '/' before)
      have hLast := (dropTail_suffix ('/' :: before)).getLast hSome
      rw [List.head?_reverse, List.head?_reverse, List.getLast?_append,
        List.getLast?_eq_some_getLast hSome, List.getLast?_eq_some_getLast (List.cons_ne_nil _ _),
        hLast, Option.some_or]
    · rw [steps_dropTail hBlank, List.reverse_cons, splitSlashes_append, List.map_append]
      exact hBlank _ "" (.inl rfl)

/-- Only the root and the empty path are above nothing. -/
theorem parent?_eq_none (hEnd : p.endsInName = true) (hParent : p.parent? = none) :
    p.text = "" ∨ p.text = "/" := by
  obtain ⟨part, rest, first, hPlain, hText, -, hRest⟩ := exists_part p
  rw [endsInName, beq_iff_eq, hText] at hEnd
  have hSplit : p.splitLast = (part.reverse, rest) :=
    splitLast_eq (hText ▸ hEnd) (by simpa using hPlain)
      (hRest.imp And.left fun ⟨before, h, _⟩ => ⟨before, h⟩)
  rw [parent?, hSplit] at hParent
  have hPart : part = [] := by simpa using hParent
  subst hPart
  obtain ⟨rfl, -⟩ | ⟨before, rfl, -⟩ := hRest
  · exact .inl (by simpa using hText)
  · cases before with
    | nil => exact .inr (String.toList_inj.1 (List.reverse_inj.1 hText))
    | cons c before =>
      -- A slash before another character would be cut off.
      have hLength := length_dropTail_le (c :: before)
      rw [List.reverse_nil, List.nil_append, dropTail] at hEnd
      rw [hEnd] at hLength
      exact absurd hLength (by simp)

theorem isEmpty_of_parent? (h : p.parent? = some q) : p.text.isEmpty = false := by
  have hLength := length_parent_lt h
  rw [Bool.eq_false_iff, ne_eq, String.isEmpty_iff]
  intro hEmpty
  rw [hEmpty] at hLength
  exact absurd hLength (Nat.not_lt_zero _)

/-- A path is the one above another, or above that. -/
inductive IsAbove (q : Path) : Path → Prop
  | parent {p : Path} : p.parent? = some q → IsAbove q p
  | above {p r : Path} : p.parent? = some r → IsAbove q r → IsAbove q p

theorem IsAbove.isEmpty (h : IsAbove q p) : p.text.isEmpty = false := by
  cases h with
  | parent hParent => exact isEmpty_of_parent? hParent
  | above hParent _ => exact isEmpty_of_parent? hParent

/-! ### Extensions -/

theorem splitLast_start (p : Path) : p.splitLast.2 = [] ∨ ∃ before, p.splitLast.2 = '/' :: before := by
  rw [splitLast]
  cases h : (dropTail p.text.toList.reverse).dropWhile (· ≠ '/') with
  | nil => exact .inl rfl
  | cons c before =>
    have hc : c = '/' := by
      have hNot := List.head?_dropWhile_not (· ≠ '/') (dropTail p.text.toList.reverse)
      rw [h] at hNot
      simpa using hNot
    exact .inr ⟨before, by rw [hc]⟩

/-- The part of a name before its extension is not empty. -/
theorem splitName_fst_ne_empty {name : String} (h : name ≠ "") : (splitName name).1 ≠ "" := by
  rw [splitName]
  split
  · intro hEmpty
    have hLength := congrArg String.length hEmpty
    simp at hLength
  · exact h

theorem mem_splitName {name : String} {c : Char} (h : c ∈ (splitName name).1.toList) :
    c ∈ name.toList := by
  rw [splitName] at h
  split at h
  · rename_i dot last stem hStem
    rw [String.toList_ofList, List.mem_reverse] at h
    have hDrop : c ∈ name.toList.reverse.dropWhile (· ≠ '.') := by
      rw [hStem]
      exact List.mem_cons_of_mem _ h
    exact List.mem_reverse.1 ((List.dropWhile_sublist _).mem hDrop)
  · exact h

theorem splitName_append {stem extension : String} (hStem : stem ≠ "")
    (hDot : '.' ∉ extension.toList) :
    splitName (stem ++ "." ++ extension) = (stem, some extension) := by
  have hExtension : ∀ c ∈ extension.toList.reverse, decide (c ≠ '.') = true := by
    intro c hc
    have hne : c ≠ '.' := fun h => hDot (h ▸ List.mem_reverse.1 hc)
    simpa using hne
  have hText : (stem ++ "." ++ extension).toList.reverse =
      extension.toList.reverse ++ '.' :: stem.toList.reverse := by
    simp
  obtain ⟨c, cs, hCons⟩ : ∃ c cs, stem.toList.reverse = c :: cs :=
    List.exists_cons_of_ne_nil (by simpa using hStem)
  have hBack : String.ofList (c :: cs).reverse = stem := by
    rw [← hCons, List.reverse_reverse, String.ofList_toList]
  rw [splitName, hText, List.dropWhile_append_of_pos hExtension,
    List.takeWhile_append_of_pos hExtension, hCons]
  simp [-List.reverse_cons, hBack]

/-- The extension of a name is what follows its last dot, unless nothing is in front of that. -/
theorem splitName_snd_eq_some {name extension : String} :
    (splitName name).2 = some extension ↔
      ∃ stem, name = stem ++ "." ++ extension ∧ stem ≠ "" ∧ '.' ∉ extension.toList := by
  constructor
  · intro h
    rw [splitName] at h
    split at h
    · rename_i dot c stem hDrop
      cases Option.some.inj h
      have hSplit := List.takeWhile_append_dropWhile (p := (· ≠ '.')) (l := name.toList.reverse)
      have hPlain : '.' ∉ name.toList.reverse.takeWhile (· ≠ '.') := fun hMem => by
        simpa using List.all_eq_true.1 List.all_takeWhile _ hMem
      have hDot : dot = '.' := by
        have hNot := List.head?_dropWhile_not (· ≠ '.') name.toList.reverse
        rw [hDrop] at hNot
        simpa using hNot
      rw [hDrop, hDot] at hSplit
      generalize name.toList.reverse.takeWhile (· ≠ '.') = last at hSplit hPlain ⊢
      refine ⟨String.ofList (c :: stem).reverse, ?_, by simp, by simpa using hPlain⟩
      rw [← String.toList_inj, ← List.reverse_inj, ← hSplit]
      simp
    · exact nomatch h
  · rintro ⟨stem, rfl, hStem, hDot⟩
    rw [splitName_append hStem hDot]

/-- The file name of a path with a new extension, if it has one, has that extension. -/
theorem fileName?_withExtension {extension name : String}
    (hDot : '.' ∉ extension.toList) (hSlash : '/' ∉ extension.toList)
    (h : (p.withExtension extension).fileName? = some name) :
    (splitName name).2 = some extension := by
  rw [withExtension] at h
  split at h
  · rename_i old hOld
    have hOldName := isName_of_fileName? hOld
    dsimp only at h
    split at h
    · -- Two dots at the end are no file name.
      have hText : (String.ofList p.splitLast.2.reverse ++ "..").toList.reverse =
          ['.', '.'].reverse ++ p.splitLast.2 := by
        simp
      obtain ⟨hSplit, -⟩ := splitLast_of_part (p := ⟨_⟩) hText (by decide) (splitLast_start p)
        (by decide) (by decide)
      rw [fileName?, hSplit] at h
      exact nomatch h
    · have hStem := splitName_fst_ne_empty hOldName.1
      have hPart : '/' ∉ ((splitName old).1 ++ "." ++ extension).toList := by
        simpa [hSlash] using fun hMem => hOldName.2.2.2 (mem_splitName hMem)
      have hLong : ((splitName old).1 ++ "." ++ extension).toList ≠ ['.'] := by
        intro hEq
        have hLength := congrArg List.length hEq
        have hPos := List.length_pos_iff.2 (mt String.toList_eq_nil_iff.1 hStem)
        simp at hLength hPos
        omega
      have hText : (String.ofList p.splitLast.2.reverse ++ (splitName old).1 ++ "." ++
          extension).toList.reverse =
            ((splitName old).1 ++ "." ++ extension).toList.reverse ++ p.splitLast.2 := by
        simp
      obtain ⟨hSplit, -⟩ := splitLast_of_part (p := ⟨_⟩) hText hPart (splitLast_start p)
        (by simp) hLong
      rw [fileName?, hSplit, Option.ite_none_left_eq_some, Option.some_inj] at h
      rw [← h.2, List.reverse_reverse, String.ofList_toList, splitName_append hStem hDot]
  · rename_i hNone
    rw [hNone] at h
    exact nomatch h

theorem extension?_of_fileName? {name : String} (h : p.fileName? = some name) :
    p.extension? = (splitName name).2 := by
  rw [extension?, h]
  rfl

/-- A name alone is a path with that file name. -/
theorem fileName?_of_isName {name : String} (h : IsName name) : fileName? ⟨name⟩ = some name := by
  have hSteps : steps ⟨name⟩ = [] ++ [name] := by
    rw [steps, splitSlashes_plain h.2.2.2, List.map_singleton, String.ofList_toList]
    rfl
  exact (fileName?_of_steps hSteps h.1 h.2.1 h.2.2.1).1

end Slideshow.Path
