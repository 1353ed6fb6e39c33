import Slideshow.Path

/-! The parts of path names: splitting at slashes undoes joining with them, and joining two paths
sets their parts behind one another. -/

namespace Slideshow.Path

/-- Whether a text can be the name of a file or directory. -/
def IsName (name : String) : Prop :=
  name ≠ "" ∧ name ≠ "." ∧ name ≠ ".." ∧ '/' ∉ name.toList

theorem splitSlashes_eq_splitOn (cs : List Char) : splitSlashes cs = cs.splitOn '/' := by
  induction cs with
  | nil => rfl
  | cons c cs ih =>
    rw [splitSlashes, List.splitOn_cons_eq_if_modifyHead, ih]
    by_cases hSlash : c = '/'
    · rw [if_pos hSlash, if_pos (beq_iff_eq.2 hSlash)]
    · rw [if_neg hSlash, if_neg (by simpa using hSlash)]
      cases hSplit : cs.splitOn '/' with
      | nil => exact absurd hSplit (List.splitOn_ne_nil _ _)
      | cons part parts => rfl

theorem steps_ne_nil (p : Path) : p.steps ≠ [] := by
  rw [steps, splitSlashes_eq_splitOn, ne_eq, List.map_eq_nil_iff]
  exact List.splitOn_ne_nil _ _

theorem steps_ofNames {names : List String} (hNames : names ≠ [])
    (hPlain : ∀ name ∈ names, '/' ∉ name.toList) : (ofNames names).steps = names := by
  have hSplit : (['/'].intercalate (names.map String.toList)).splitOn '/' =
      names.map String.toList :=
    List.splitOn_intercalate '/' (by simpa using hPlain) (by simpa using hNames)
  have hSlash : "/".toList = ['/'] := by decide
  rw [steps, splitSlashes_eq_splitOn, ofNames, String.toList_intercalate, hSlash, hSplit,
    List.map_map]
  exact (List.map_congr_left fun name _ => String.ofList_toList).trans (List.map_id names)

theorem isAbsolute_ofNames {names : List String} (hNames : names ≠ [])
    (hName : ∀ name ∈ names, IsName name) : (ofNames names).isAbsolute = false := by
  have hSteps := steps_ofNames hNames fun name h => (hName name h).2.2.2
  rw [isAbsolute, beq_eq_false_iff_ne]
  intro hHead
  obtain ⟨rest, hRest⟩ := List.head?_eq_some_iff.1 hHead
  rw [steps, hRest, splitSlashes, if_pos rfl, List.map_cons] at hSteps
  refine (hName "" ?_).1 rfl
  rw [← hSteps]
  exact List.mem_cons_self

/-- Joining sets the second path behind the first and one slash. -/
theorem toList_join {p q : Path} (hp : p.text.isEmpty = false) (hq : q.isAbsolute = false) :
    ∃ start, (p.join q).text.toList = start ++ '/' :: q.text.toList ∧
      (p.text.toList = start ∨ p.text.toList = start ++ ['/']) := by
  rw [join, hq, hp, if_neg (by decide)]
  have hSlash : "/".toList = ['/'] := by decide
  split
  · rename_i hLast
    obtain ⟨start, hStart⟩ := List.getLast?_eq_some_iff.1 hLast
    refine ⟨start, ?_, .inr hStart⟩
    rw [String.toList_append, hStart, List.append_assoc, List.singleton_append]
  · refine ⟨p.text.toList, ?_, .inl rfl⟩
    rw [String.toList_append, String.toList_append, hSlash, List.append_assoc,
      List.singleton_append]

theorem isEmpty_join {p q : Path} (hp : p.text.isEmpty = false) (hq : q.isAbsolute = false) :
    (p.join q).text.isEmpty = false := by
  obtain ⟨start, hJoin, -⟩ := toList_join hp hq
  rw [Bool.eq_false_iff, ne_eq, String.isEmpty_iff]
  intro hEmpty
  rw [hEmpty] at hJoin
  simp at hJoin

theorem isAbsolute_join {p q : Path} (hp : p.text.isEmpty = false) (hq : q.isAbsolute = false) :
    (p.join q).isAbsolute = p.isAbsolute := by
  obtain ⟨start, hJoin, hStart⟩ := toList_join hp hq
  rw [isAbsolute, hJoin, isAbsolute]
  cases start with
  | cons c start => obtain h | h := hStart <;> rw [h] <;> rfl
  | nil =>
    obtain h | h := hStart
    · have hEmpty : p.text = "" := String.toList_inj.1 h
      rw [hEmpty] at hp
      exact nomatch hp
    · rw [h]
      rfl

/-- The parts of two joined paths, but for the empty part after a slash at the end of the first. -/
theorem steps_join {p q : Path} (hp : p.text.isEmpty = false) (hq : q.isAbsolute = false) :
    ∃ start, (p.join q).steps = start ++ q.steps ∧
      (p.steps = start ∨ p.steps = start ++ [""]) := by
  obtain ⟨start, hJoin, hStart⟩ := toList_join hp hq
  refine ⟨(start.splitOn '/').map String.ofList, ?_, ?_⟩
  · rw [steps, splitSlashes_eq_splitOn, hJoin, List.splitOn_append_cons_self, List.map_append,
      steps, splitSlashes_eq_splitOn]
  · rw [steps, splitSlashes_eq_splitOn]
    refine hStart.imp (fun h => by rw [h]) (fun h => ?_)
    rw [h, List.splitOn_append_cons_self, List.map_append]
    rfl

end Slideshow.Path
