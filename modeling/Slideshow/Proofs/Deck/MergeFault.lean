import Slideshow.Proofs.Deck.MergeFree

/-! Values whose merge keys cannot be expanded. The merge keys of a value stand in the order in which
they are expanded, each with the names on the way to it. The first that does not hold mappings is
what expansion fails at, and its names are the place that is reported. -/

namespace Slideshow

open Yaml (Value Mapping Shape)

variable {place : String} {names : List String} {v w : Value} {vs : List Value} {es : Mapping}

/-! ### Sources -/

/-- What must be a mapping under a merge key: the items of a list, or the value itself. -/
def sourceShapes : Value → List Shape
  | .list vs => vs.map .ofValue
  | v => [.ofValue v]

/-- What is there instead of the first mapping that is missing. -/
def misfit? (v : Value) : Option Shape := (sourceShapes v).find? (· ≠ .mapping)

theorem failure?_mappingsOf? :
    failure? (mappingsOf? place vs) =
      (misfit? (.list vs)).map fun shape => .malformed place ⟨.mergeSources, shape⟩ := by
  induction vs with
  | nil => rfl
  | cons v vs ih =>
    cases v with
    | mapping es => rw [mappingsOf?, failure?_map, ih]; rfl
    | _ => rfl

theorem failure?_mergeSources :
    failure? (mergeSources place v) =
      (misfit? v).map fun shape => .malformed place ⟨.mergeSources, shape⟩ := by
  cases v with
  | list vs => exact failure?_mappingsOf?
  | _ => rfl

theorem misfit?_eq_none : misfit? v = none ↔ ∃ sources, Sources v sources := by
  have h := failure?_eq_none (x := mergeSources "" v)
  simpa only [failure?_mergeSources, Option.map_eq_none_iff, mergeSources_eq_ok] using h

theorem shape_expanded (h : expandMerges place v = .ok w) : Shape.ofValue w = Shape.ofValue v := by
  cases v with
  | list vs =>
    obtain ⟨ws, -, rfl⟩ := expandMerges_list.1 h
    rfl
  | mapping es =>
    obtain ⟨cs, -, rfl⟩ := expandMerges_mapping.1 h
    rfl
  | _ => cases Except.ok.inj h; rfl

/-- Expansion makes no mapping of what is none, and it leaves the mappings. -/
theorem misfit?_expanded (h : expandMerges place v = .ok w) : misfit? w = misfit? v := by
  cases v with
  | list vs =>
    obtain ⟨ws, hws, rfl⟩ := expandMerges_list.1 h
    have hShapes : vs.map Shape.ofValue = ws.map Shape.ofValue := by
      rw [← List.forall₂_eq_eq_eq, List.forall₂_map_left_iff, List.forall₂_map_right_iff]
      exact hws.imp fun _ _ h => (shape_expanded h).symm
    rw [misfit?, misfit?, sourceShapes, sourceShapes, hShapes]
  | mapping es =>
    obtain ⟨cs, -, rfl⟩ := expandMerges_mapping.1 h
    rfl
  | _ => cases Except.ok.inj h; rfl

/-! ### Places -/

/-- The names on the way to what stands under a key: a scalar key's text comes last. -/
def namesUnder (names : List String) (key : Value) : List String :=
  names ++ key.scalarText?.toList

/-- The place at the end of a way. -/
def placeOfNames : List String → String
  | [] => rootName
  | names => ".".intercalate names

/-- The name of the document holds no dot, so that only a single name could be taken for it. -/
theorem placeOfNames_eq_rootName (hNames : rootName ∉ names) :
    placeOfNames names = rootName ↔ names = [] := by
  match names with
  | [] => simp [placeOfNames]
  | [name] => simpa [placeOfNames, eq_comm] using hNames
  | name :: name' :: names =>
    simp only [placeOfNames, reduceCtorEq, iff_false]
    intro h
    have hDot : '.' ∈ rootName.toList := by
      rw [← h, String.intercalate_cons_cons]
      simp
    exact absurd hDot (by decide)

theorem placeUnder_placeOfNames {key : Value} (hNames : rootName ∉ names) :
    placeUnder (placeOfNames names) key = placeOfNames (namesUnder names key) := by
  rw [placeUnder, namesUnder]
  cases key.scalarText? with
  | none => rw [Option.toList_none, List.append_nil]
  | some name =>
    simp only [placeOfNames_eq_rootName hNames, Option.toList_some]
    cases names with
    | nil => simp [placeOfNames]
    | cons first names =>
      rw [if_neg (List.cons_ne_nil _ _)]
      exact (String.intercalate_append_of_ne_nil (List.cons_ne_nil _ _)
        (List.cons_ne_nil name [])).symm

/-! ### Merge keys -/

/-- A merge key: the names on the way to the mapping that it stands in, and the value it holds. -/
structure MergeKey where
  names : List String
  value : Value

mutual

/-- The merge keys of a value in the order of their expansion: entry by entry, those inside of an
entry's value before the entry itself. -/
def mergeKeys (names : List String) : Value → List MergeKey
  | .mapping es => entryMergeKeys names es
  | .list vs => itemMergeKeys names vs
  | _ => []

def itemMergeKeys (names : List String) : List Value → List MergeKey
  | [] => []
  | v :: vs => mergeKeys names v ++ itemMergeKeys names vs

def entryMergeKeys (names : List String) : List (Value × Value) → List MergeKey
  | [] => []
  | (key, v) :: es =>
    mergeKeys (namesUnder names key) v ++ (if isMergeKey key then [⟨names, v⟩] else []) ++
      entryMergeKeys names es

end

/-- What expansion fails with at a merge key. -/
def MergeKey.fault? (k : MergeKey) : Option LoadError :=
  (misfit? k.value).map fun shape => .malformed (placeOfNames k.names) ⟨.mergeSources, shape⟩

theorem MergeKey.fault?_eq_none (k : MergeKey) :
    k.fault? = none ↔ ∃ sources, Sources k.value sources := by
  rw [MergeKey.fault?, Option.map_eq_none_iff, misfit?_eq_none]

theorem MergeKey.fault?_eq_some (k : MergeKey) {err : LoadError} :
    k.fault? = some err ↔ ∃ shape, misfit? k.value = some shape ∧
      err = .malformed (placeOfNames k.names) ⟨.mergeSources, shape⟩ := by
  simp only [MergeKey.fault?, Option.map_eq_some_iff, eq_comm (a := err)]

/-! ### The first fault -/

/-- No entry of a mapping has the name of the document for its key. -/
def NoRootKey (m : Mapping) : Prop := ∀ e ∈ m, e.1.scalarText? ≠ some rootName

theorem failure?_expandItems
    (h : ∀ v ∈ vs, failure? (expandMerges place v) = (mergeKeys names v).findSome? MergeKey.fault?) :
    failure? (expandItems place vs) = (itemMergeKeys names vs).findSome? MergeKey.fault? := by
  induction vs with
  | nil => rfl
  | cons v vs ih =>
    have ⟨hHead, hTail⟩ := List.forall_mem_cons.1 h
    rw [expandItems, itemMergeKeys, List.findSome?_append, ← hHead]
    refine failure?_bind fun w _ => ?_
    rw [← ih hTail]
    exact failure?_map

/-- Entries fail at the first fault whatever the ones before them have come to. -/
theorem failure?_expandEntries (done : Mapping)
    (h : ∀ e ∈ es, failure? (expandMerges (placeUnder (placeOfNames names) e.1) e.2) =
      (mergeKeys (namesUnder names e.1) e.2).findSome? MergeKey.fault?) :
    failure? (expandEntries (placeOfNames names) done es) =
      (entryMergeKeys names es).findSome? MergeKey.fault? := by
  induction es generalizing done with
  | nil => rfl
  | cons e es ih =>
    have ⟨hHead, hTail⟩ := List.forall_mem_cons.1 h
    rw [expandEntries, entryMergeKeys, List.append_assoc, List.findSome?_append, ← hHead]
    refine failure?_bind fun w hw => ?_
    by_cases hKey : isMergeKey e.1 = true
    · rw [if_pos hKey, if_pos hKey, List.findSome?_append, List.findSome?_singleton,
        MergeKey.fault?, ← misfit?_expanded hw, ← failure?_mergeSources]
      exact failure?_bind fun sources _ => ih _ hTail
    · rw [if_neg hKey, if_neg hKey, List.nil_append]
      exact ih _ hTail

theorem failure?_expandMerges (hv : EveryMapping NoRootKey v) (hNames : rootName ∉ names) :
    failure? (expandMerges (placeOfNames names) v) =
      (mergeKeys names v).findSome? MergeKey.fault? := by
  induction v generalizing names with
  | list vs ih =>
    have hItems := everyMapping_list.1 hv
    rw [expandMerges, failure?_map, mergeKeys]
    exact failure?_expandItems fun v hv => ih v hv (hItems v hv) hNames
  | mapping es ih =>
    obtain ⟨hHere, hBelow⟩ := everyMapping_mapping.1 hv
    rw [expandMerges, failure?_map, mergeKeys]
    refine failure?_expandEntries [] fun e he => ?_
    rw [placeUnder_placeOfNames hNames]
    refine (ih e he).2 (hBelow e he) ?_
    simpa [namesUnder, hNames, eq_comm] using hHere e he
  | _ => rfl

/-! ### Which values fail -/

theorem mergeKeys_list : mergeKeys names (.list vs) = vs.flatMap (mergeKeys names) := by
  rw [mergeKeys]
  induction vs with
  | nil => rfl
  | cons v vs ih => rw [itemMergeKeys, ih, List.flatMap_cons]

theorem mergeKeys_mapping :
    mergeKeys names (.mapping es) = es.flatMap fun e =>
      mergeKeys (namesUnder names e.1) e.2 ++ if isMergeKey e.1 then [⟨names, e.2⟩] else [] := by
  rw [mergeKeys]
  induction es with
  | nil => rfl
  | cons e es ih => rw [entryMergeKeys, ih, List.flatMap_cons]

/-- The merge keys of a value are those of the mappings that are reached in it. -/
theorem forall_mergeKeys {P : Value → Prop} :
    (∀ k ∈ mergeKeys names v, P k.value) ↔
      EveryMapping (fun m => ∀ e ∈ m, isMergeKey e.1 = true → P e.2) v := by
  induction v generalizing names with
  | list vs ih =>
    rw [mergeKeys_list, everyMapping_list, List.forall_mem_flatMap]
    exact forall₂_congr fun v hv => ih v hv
  | mapping es ih =>
    rw [mergeKeys_mapping, everyMapping_mapping, List.forall_mem_flatMap, ← forall₂_and]
    refine forall₂_congr fun e he => ?_
    rw [List.forall_mem_append, (ih e he).2, and_comm]
    by_cases hKey : isMergeKey e.1 = true <;> simp [hKey]
  | _ => exact iff_of_true nofun nofun

theorem not_everyMapping {P : Mapping → Prop} (place : String) :
    ¬ EveryMapping P v ↔ ∃ inner m, MappingAt place v inner m ∧ ¬ P m := by
  constructor
  · intro h
    simp only [EveryMapping, not_forall] at h
    obtain ⟨place', inner', m, hm, hP⟩ := h
    obtain ⟨inner, hm⟩ := hm.move place
    exact ⟨inner, m, hm, hP⟩
  · rintro ⟨inner, m, hm, hP⟩ h
    exact hP (h place inner m hm)

/-- Every merge key of a mapping holds mappings. -/
def MergesMappings (m : Mapping) : Prop :=
  ∀ e ∈ m, isMergeKey e.1 = true → ∃ sources, Sources e.2 sources

theorem expandMerges_ok_iff (hv : EveryMapping NoRootKey v) :
    (∃ w, expandMerges rootName v = .ok w) ↔ EveryMapping MergesMappings v := by
  have hFailure := failure?_expandMerges hv (List.not_mem_nil (a := rootName))
  rw [← failure?_eq_none]
  refine (hFailure ▸ List.findSome?_eq_none_iff).trans ?_
  refine (forall₂_congr fun k _ => k.fault?_eq_none).trans ?_
  exact forall_mergeKeys (P := fun v => ∃ sources, Sources v sources)

/-- Expansion of a document fails exactly when some mapping that is reached in it has a merge key that
does not hold mappings. It fails at the first such merge key, and what it reports is the place of the
mapping with that key and what stands there instead of a mapping. -/
theorem expandMerges_fails_iff (hv : EveryMapping NoRootKey v) :
    ((∃ err, expandMerges rootName v = .error err) ↔
      ∃ inner m e, MappingAt rootName v inner m ∧ e ∈ m ∧ isMergeKey e.1 = true ∧
        ∀ sources, ¬ Sources e.2 sources) ∧
    ∀ err, expandMerges rootName v = .error err ↔
      ∃ before k after shape, mergeKeys [] v = before ++ k :: after ∧
        (∀ k' ∈ before, ∃ sources, Sources k'.value sources) ∧ misfit? k.value = some shape ∧
        err = .malformed (placeOfNames k.names) ⟨.mergeSources, shape⟩ := by
  constructor
  · rw [exists_error_iff, expandMerges_ok_iff hv, not_everyMapping rootName]
    simp only [MergesMappings, not_forall, not_exists, exists_prop, exists_and_left]
  · intro err
    have hFailure := failure?_expandMerges hv (List.not_mem_nil (a := rootName))
    rw [← failure?_eq_some]
    refine (hFailure ▸ List.findSome?_eq_some_iff).trans ?_
    simp only [MergeKey.fault?_eq_none, MergeKey.fault?_eq_some]
    constructor
    · rintro ⟨before, k, after, hSplit, ⟨shape, hShape, rfl⟩, hBefore⟩
      exact ⟨before, k, after, shape, hSplit, hBefore, hShape, rfl⟩
    · rintro ⟨before, k, after, shape, hSplit, hBefore, hShape, rfl⟩
      exact ⟨before, k, after, hSplit, ⟨shape, hShape, rfl⟩, hBefore⟩

/-- A document with two faults, the first of them in the value of its first entry. -/
def faulty : Value :=
  .mapping [
    (.string "a", .list [.mapping [
      (.tagged "t" (.string "<<"), .mapping [(.string "x", .null)]),
      (.bool true, .mapping [(.string "<<", .list [.mapping [], .bool false, .null])])]]),
    (.string "<<", .string "b")]

theorem expandMerges_fails_iff_faulty :
    EveryMapping NoRootKey faulty ∧
    expandMerges rootName faulty = .error (.malformed "a.true" ⟨.mergeSources, .boolean⟩) ∧
    ∃ inner m e, MappingAt rootName faulty inner m ∧ e ∈ m ∧ isMergeKey e.1 = true ∧
      ∀ sources, ¬ Sources e.2 sources := by
  have hNull : EveryMapping NoRootKey .null := nofun
  have hBool : EveryMapping NoRootKey (.bool false) := nofun
  have hString : EveryMapping NoRootKey (.string "b") := nofun
  have hNames : EveryMapping NoRootKey faulty := by
    simp [faulty, everyMapping_mapping, everyMapping_list, NoRootKey, rootName, Value.scalarText?,
      hNull, hBool, hString]
  obtain ⟨hFails, hFirst⟩ := expandMerges_fails_iff hNames
  have hError :
      expandMerges rootName faulty = .error (.malformed "a.true" ⟨.mergeSources, .boolean⟩) := by
    refine (hFirst _).2 ⟨[⟨["a"], .mapping [(.string "x", .null)]⟩],
      ⟨["a", "true"], .list [.mapping [], .bool false, .null]⟩, [⟨[], .string "b"⟩], .boolean,
      rfl, ?_, rfl, rfl⟩
    exact List.forall_mem_singleton.2 ⟨_, .mapping _⟩
  exact ⟨hNames, hError, hFails.1 ⟨_, hError⟩⟩

end Slideshow
