import Slideshow.Proofs.Path.Component

/-! Extensions put on file names. A new extension changes the last component of a path only, and the
names with one stem are those that it makes the same. -/

namespace Slideshow.Path

variable {name extension : String}

/-! ### Names -/

/-- A name with an extension put in the place of what follows its last dot, or behind it where no dot
is left that something stands in front of. -/
inductive Extended (extension : String) : String → String → Prop
  | replaced {stem old : String} : stem ≠ "" → '.' ∉ old.toList →
      Extended extension (stem ++ "." ++ old) (stem ++ "." ++ extension)
  | added {name : String} :
      (∀ stem old, name = stem ++ "." ++ old → '.' ∉ old.toList → stem = "") →
      Extended extension name (name ++ "." ++ extension)

/-- Two dots in front of a text without any. -/
def IsDotted (name : String) : Prop := ∃ rest, name = ".." ++ rest ∧ '.' ∉ rest.toList

/-- The file name of a path without its extension. -/
def stem? (p : Path) : Option String := p.fileName?.map fun name => (splitName name).1

theorem splitName_of_snd_none (h : (splitName name).2 = none) : (splitName name).1 = name := by
  rw [splitName] at h ⊢
  split
  · rename_i hDrop
    rw [hDrop] at h
    cases h
  · rfl

theorem extended_splitName (extension name : String) :
    Extended extension name ((splitName name).1 ++ "." ++ extension) := by
  cases h : (splitName name).2 with
  | some old =>
    obtain ⟨stem, rfl, hStem, hDot⟩ := splitName_snd_eq_some.1 h
    rw [splitName_append hStem hDot]
    exact .replaced hStem hDot
  | none =>
    rw [splitName_of_snd_none h]
    refine .added fun stem old hName hDot => ?_
    by_contra hStem
    rw [splitName_snd_eq_some.2 ⟨stem, hName, hStem, hDot⟩] at h
    cases h

theorem isDotted_iff (hName : IsName name) : IsDotted name ↔ (splitName name).1 = "." := by
  constructor
  · rintro ⟨rest, rfl, hDot⟩
    exact congrArg Prod.fst (@splitName_append "." rest (by decide) hDot)
  · intro hStem
    cases h : (splitName name).2 with
    | some old =>
      obtain ⟨stem, rfl, hSome, hDot⟩ := splitName_snd_eq_some.1 h
      rw [splitName_append hSome hDot] at hStem
      cases hStem
      exact ⟨old, rfl, hDot⟩
    | none =>
      rw [splitName_of_snd_none h] at hStem
      exact absurd hStem hName.2.1

/-! ### Paths -/

theorem stem?_ofNames {above : List String} (hNames : ∀ part ∈ above ++ [name], IsName part) :
    (ofNames (above ++ [name])).stem? = some (splitName name).1 := by
  have ⟨hEmpty, hDot, hDots, _⟩ := hNames name (by simp)
  have hSteps := steps_ofNames (by simp) fun part h => (hNames part h).2.2.2
  rw [stem?, (fileName?_of_steps hSteps hEmpty hDot hDots).1]
  rfl

/-- What stands in the place of a name after an extension is put on it. -/
def stepWith (extension name : String) : String :=
  if (splitName name).1 = "." then ".." else (splitName name).1 ++ "." ++ extension

theorem isName_extended (hName : IsName name) (hStem : (splitName name).1 ≠ ".")
    (hSlash : '/' ∉ extension.toList) : IsName ((splitName name).1 ++ "." ++ extension) := by
  have hPlain : '/' ∉ (splitName name).1.toList := fun h => hName.2.2.2 (mem_splitName h)
  obtain ⟨c, cs, hCons⟩ := List.exists_cons_of_ne_nil
    (mt String.toList_eq_nil_iff.1 (splitName_fst_ne_empty hName.1))
  have hText : ((splitName name).1 ++ "." ++ extension).toList =
      c :: (cs ++ '.' :: extension.toList) := by
    simp [hCons]
  refine ⟨?_, ?_, ?_, ?_⟩
  · intro h
    simp [h] at hText
  · intro h
    simp [h] at hText
  · intro h
    -- Only a stem of one dot leaves two of them.
    cases cs with
    | nil =>
      obtain ⟨rfl, -⟩ : '.' = c ∧ extension = "" := by simpa [h] using hText
      exact hStem (String.toList_inj.1 hCons)
    | cons c' cs => simp [h] at hText
  · simp [hPlain, hSlash]

theorem slash_not_mem_stepWith (hName : IsName name) (hSlash : '/' ∉ extension.toList) :
    '/' ∉ (stepWith extension name).toList := by
  rw [stepWith]
  split
  · decide
  · rename_i hStem
    exact (isName_extended hName hStem hSlash).2.2.2

/-- A new extension changes the last step only. -/
theorem steps_withExtension {p : Path} {first : List String} (hSteps : p.steps = first ++ [name])
    (hName : IsName name) (hSlash : '/' ∉ extension.toList) :
    (p.withExtension extension).steps = first ++ [stepWith extension name] ∧
      (p.withExtension extension).isAbsolute = p.isAbsolute := by
  obtain ⟨hFile, hEnd⟩ := fileName?_of_steps hSteps hName.1 hName.2.1 hName.2.2.1
  obtain ⟨rest, hText, hPlain, hSplit, -, hRest⟩ := splitLast_of_steps hSteps hName.1 hName.2.1
  have hNew : p.withExtension extension = ⟨String.ofList rest.reverse ++ stepWith extension name⟩ := by
    simp only [withExtension, hFile, hSplit, hEnd, stepWith]
    split <;> simp_all [String.append_assoc]
  have hStep := slash_not_mem_stepWith hName hSlash
  rw [hNew, steps, isAbsolute, isAbsolute, hText, String.toList_append, String.toList_ofList]
  obtain ⟨rfl, rfl⟩ | ⟨before, rfl, rfl⟩ := hRest
  · have hHead {cs : List Char} (h : '/' ∉ cs) : (cs.head? == some '/') = false :=
      beq_eq_false_iff_ne.2 fun hEq => h (List.mem_of_head? hEq)
    simp [splitSlashes_plain hStep, hHead hStep, hHead hPlain]
  · rw [List.reverse_cons, List.append_assoc, List.append_assoc, List.singleton_append,
      List.singleton_append, splitSlashes_append, splitSlashes_plain hStep, List.map_append]
    refine ⟨by simp, ?_⟩
    cases before.reverse <;> rfl

/-- The component that stands in the place of a name after an extension is put on it. -/
def componentWith (extension name : String) : Component :=
  if (splitName name).1 = "." then .parent else .name ((splitName name).1 ++ "." ++ extension)

theorem component?_stepWith (hName : IsName name) (hSlash : '/' ∉ extension.toList) :
    component? (stepWith extension name) = some (componentWith extension name) := by
  rw [stepWith, componentWith]
  split
  · rfl
  · rename_i hStem
    exact component?_name (isName_extended hName hStem hSlash)

theorem componentWith_inj {name' : String} :
    componentWith extension name = componentWith extension name' ↔
      (splitName name).1 = (splitName name').1 := by
  rw [componentWith, componentWith]
  constructor
  · intro h
    split at h
    · rename_i hStem
      split at h
      · rename_i hStem'
        rw [hStem, hStem']
      · cases h
    · split at h
      · cases h
      · simpa using h
  · intro h
    rw [h]

end Slideshow.Path
