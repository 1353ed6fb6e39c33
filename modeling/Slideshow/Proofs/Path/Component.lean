import Slideshow.Proofs.Files.Place

/-! The components of path names: the root or a single dot in front, pairs of dots, and names. Two
paths with the same components lead to the same place, and joining sets the components of two paths
behind one another. -/

namespace Slideshow

inductive Component
  | root
  | current
  | parent
  | name (text : String)
  deriving DecidableEq, Repr

namespace Path

/-- The component that the text between two slashes stands for. -/
def component? (step : String) : Option Component :=
  if step = "" ∨ step = "." then none else if step = ".." then some .parent else some (.name step)

/-- The components of steps. A single dot counts if it comes first in a path without a root. -/
def componentsOf (absolute : Bool) (steps : List String) : List Component :=
  (if absolute then [.root] else if steps.head? = some "." then [.current] else []) ++
    steps.filterMap component?

def components (p : Path) : List Component := componentsOf p.isAbsolute p.steps

theorem component?_name {name : String} (h : IsName name) : component? name = some (.name name) := by
  rw [component?, if_neg (by simp [h.1, h.2.1]), if_neg h.2.2.1]

theorem filterMap_component? {names : List String} (h : ∀ name ∈ names, IsName name) :
    names.filterMap component? = names.map .name := by
  rw [← List.filterMap_eq_map]
  exact List.filterMap_congr fun name hName => component?_name (h name hName)

theorem componentsOf_append {absolute : Bool} {first rest : List String}
    (h : rest.head? ≠ some ".") : componentsOf absolute (first ++ rest) =
      componentsOf absolute first ++ rest.filterMap component? := by
  rw [componentsOf, componentsOf, List.filterMap_append, ← List.append_assoc]
  cases first with
  | nil => simp [h]
  | cons step first => rfl

theorem components_ofNames {names : List String} (hNames : ∀ name ∈ names, IsName name) :
    (ofNames names).components = names.map .name := by
  cases names with
  | nil => rfl
  | cons first rest =>
    have hFirst : (first :: rest).head? ≠ some "." := by
      simpa using (hNames first List.mem_cons_self).2.1
    rw [components, isAbsolute_ofNames (List.cons_ne_nil _ _) hNames,
      steps_ofNames (List.cons_ne_nil _ _) fun name h => (hNames name h).2.2.2,
      ← List.nil_append (first :: rest), componentsOf_append hFirst, filterMap_component? hNames]
    rfl

theorem ofNames_inj {names names' : List String} (hNames : ∀ name ∈ names, IsName name)
    (hNames' : ∀ name ∈ names', IsName name) : ofNames names = ofNames names' ↔ names = names' := by
  refine ⟨fun h => ?_, congrArg ofNames⟩
  have hSame := congrArg components h
  rw [components_ofNames hNames, components_ofNames hNames'] at hSame
  exact (List.map_inj_right fun _ _ => Component.name.inj).1 hSame

/-- Setting slashes between the steps of a path gives the path back. -/
theorem ofNames_steps (p : Path) : ofNames p.steps = p := by
  obtain ⟨text⟩ := p
  have hSlash : "/".toList = ['/'] := by decide
  rw [ofNames, mk.injEq, ← String.toList_inj, String.toList_intercalate, hSlash, steps,
    splitSlashes_eq_splitOn, List.map_map]
  simp [Function.comp_def]

/-- Nothing but the slash between them is cut off in front of a name above another. -/
theorem dropTail_above {above : Path} (hNames : ∀ name ∈ above.steps, IsName name) :
    dropTail ('/' :: above.text.toList.reverse) = above.text.toList.reverse := by
  obtain ⟨part, rest, first, hPlain, hText, hSteps, -⟩ := exists_part above
  have hName : IsName (String.ofList part) := hNames _ (by rw [hSteps]; simp)
  have hEmpty : part ≠ [] := fun h => hName.1 (by rw [h])
  obtain ⟨c, cs, hCons⟩ := List.exists_cons_of_ne_nil (mt List.reverse_eq_nil_iff.1 hEmpty)
  rw [hText, hCons, List.cons_append, dropTail, ← List.cons_append, ← hCons]
  refine dropTail_of_part (by simpa using hPlain) (by simpa using hEmpty) fun h => hName.2.1 ?_
  rw [← List.reverse_reverse part, h]
  rfl

/-- Above a path of names is that of all but the last. -/
theorem parent?_ofNames {above : List String} {name : String}
    (hNames : ∀ part ∈ above ++ [name], IsName part) :
    (ofNames (above ++ [name])).parent? = some (ofNames above) := by
  have ⟨hEmpty, hDot, _, _⟩ := hNames name (by simp)
  have hSteps := steps_ofNames (by simp) fun part h => (hNames part h).2.2.2
  obtain ⟨rest, -, -, hSplit, -, hRest⟩ := splitLast_of_steps hSteps hEmpty hDot
  rw [parent?, hSplit, if_neg (by simpa using hEmpty)]
  obtain ⟨rfl, rfl⟩ | ⟨before, rfl, hFirst⟩ := hRest
  · rfl
  · have hAbove : above = steps ⟨String.ofList before.reverse⟩ := by
      rw [hFirst, steps, String.toList_ofList]
    have hTail := @dropTail_above ⟨String.ofList before.reverse⟩ fun step h =>
      hNames step (List.mem_append_left _ (hAbove ▸ h))
    rw [String.toList_ofList, List.reverse_reverse] at hTail
    rw [hTail, hAbove, ofNames_steps]

/-! ### Joining -/

/-- Steps that make up the components of the first path stand in front of those of the second. -/
theorem exists_steps_join {p q : Path} (hq : q.isAbsolute = false) :
    ∃ start, (p.join q).steps = start ++ q.steps ∧ (p.join q).isAbsolute = p.isAbsolute ∧
      p.components = componentsOf p.isAbsolute start := by
  cases hp : p.text.isEmpty with
  | true =>
    obtain ⟨_⟩ := p
    cases String.isEmpty_iff.1 hp
    have hJoin : (Path.mk "").join q = q := by simp [join]
    rw [hJoin]
    exact ⟨[], rfl, hq, rfl⟩
  | false =>
    obtain ⟨start, hSteps, hStart⟩ := steps_join hp hq
    refine ⟨start, hSteps, isAbsolute_join hp hq, ?_⟩
    rw [components]
    obtain h | h := hStart
    · rw [h]
    · rw [h, componentsOf_append (by decide)]
      exact List.append_nil _

end Path

/-! ### Places -/

/-- The place that a component leads to. -/
def Component.next (place : List String) : Component → List String
  | root => []
  | current => place
  | parent => place.dropLast
  | name text => place ++ [text]

theorem Component.foldl_next (place names : List String) :
    (names.map name).foldl next place = place ++ names := by
  induction names generalizing place with
  | nil => exact (List.append_nil place).symm
  | cons part names ih => rw [List.map_cons, List.foldl_cons, ih, next, List.append_assoc]; rfl

/-- A path leads to where its components lead. -/
theorem Files.placeOf_eq_components (fs : Files) (p : Path) :
    fs.placeOf p = p.components.foldl Component.next fs.here := by
  have hStep (place : List String) (step : String) :
      stepFrom place step = ((Path.component? step).map (·.next place)).getD place := by
    rw [stepFrom, Path.component?]
    split
    · rfl
    · split <;> rfl
  have hStart : fs.start p = (if p.isAbsolute then [Component.root]
      else if p.steps.head? = some "." then [.current] else []).foldl Component.next fs.here := by
    rw [start]
    split
    · rfl
    · split <;> rfl
  rw [placeOf, Path.components, Path.componentsOf, List.foldl_append, ← hStart, List.foldl_filterMap]
  congr 1
  funext place step
  rw [hStep]
  cases Path.component? step <;> rfl

end Slideshow
