import Slideshow.Proofs.Deck.Items
import Slideshow.Proofs.Deck.Merge
import Slideshow.Proofs.Dictionary
import Slideshow.Proofs.Yaml.Document
import Slideshow.Proofs.Yaml.ScalarText

/-! Which sections and subsections are found by their names. The keys of a document are all different,
but keys of different kinds can have the same text: the first of those that have is found, and the
others are out of reach. -/

namespace Slideshow

open Yaml (Value Mapping)

/-! ### Search by name -/

variable {α : Type} {named : List (String × α)}

/-- The search for the name of each entry finds that entry. -/
def Reached (named : List (String × α)) : Prop :=
  ∀ i entry, named[i]? = some entry → named.findIdx? (·.1 == entry.1) = some i

/-- What is found under a name is what stands where the search ends. -/
theorem lookup_eq_findIdx? (named : List (String × α)) (name : String) :
    named.lookup name =
      (named.findIdx? (·.1 == name)).bind fun i => named[i]?.map (·.2) := by
  induction named with
  | nil => rfl
  | cons entry named ih =>
    obtain ⟨other, value⟩ := entry
    rw [Dictionary.lookup_cons, List.findIdx?_cons]
    by_cases h : name = other
    · simp [h]
    · rw [if_neg h, if_neg (by simpa using Ne.symm h), ih, Option.bind_map]
      rfl

theorem Reached.lookup {i : Nat} {name : String} {value : α} (h : Reached named)
    (hi : named[i]? = some (name, value)) : named.lookup name = some value := by
  rw [lookup_eq_findIdx?, h i _ hi, Option.bind_some, hi, Option.map_some]

/-- Everything is found if and only if no name comes twice. -/
theorem reached_iff_nodup : Reached named ↔ (named.map (·.1)).Nodup := by
  constructor
  · intro h
    rw [List.nodup_iff_getElem?_ne_getElem?]
    intro i j hij hj hSame
    rw [List.length_map] at hj
    have hi : i < named.length := hij.trans hj
    rw [List.getElem?_map, List.getElem?_map, List.getElem?_eq_getElem hi,
      List.getElem?_eq_getElem hj, Option.map_some, Option.map_some, Option.some.injEq] at hSame
    have hFirst := h i _ (List.getElem?_eq_getElem hi)
    have hSecond := h j _ (List.getElem?_eq_getElem hj)
    rw [hSame, hSecond, Option.some.injEq] at hFirst
    omega
  · intro h i entry hi
    obtain ⟨hLength, rfl⟩ := List.getElem?_eq_some_iff.1 hi
    rw [List.findIdx?_eq_some_iff_getElem]
    refine ⟨hLength, beq_self_eq_true _, fun j hj hSame => ?_⟩
    have hEarlier : j < named.length := hj.trans hLength
    have hNames : (named.map (·.1))[j]? = (named.map (·.1))[i]? := by
      rw [List.getElem?_map, List.getElem?_map, List.getElem?_eq_getElem hEarlier,
        List.getElem?_eq_getElem hLength]
      exact congrArg some (beq_iff_eq.1 hSame)
    have hPlace := (List.getElem?_inj (by rwa [List.length_map]) h).1 hNames
    omega

/-! ### Names from keys -/

/-- No two keys give the same name although they are of different kinds. -/
def NoneCollide (keys : List Value) : Prop := ∀ a ∈ keys, ∀ b ∈ keys, ¬ a.Collides b

/-- The names of keys that are all different are all different if no two keys collide. -/
theorem nodup_names_iff {keys : List Value} {names : List String}
    (hDistinct : keys.Pairwise fun a b => a.same b = false)
    (hNames : List.Forall₂ (fun key name => key.scalarText? = some name) keys names) :
    names.Nodup ↔ NoneCollide keys := by
  constructor
  · intro h a ha b hb hCollides
    obtain ⟨i, hi⟩ := List.mem_iff_getElem?.1 ha
    obtain ⟨j, hj⟩ := List.mem_iff_getElem?.1 hb
    obtain ⟨name, hName, hText⟩ := exists_getElem?_right hNames hi
    obtain ⟨other, hOther, hOtherText⟩ := exists_getElem?_right hNames hj
    have hSame : name = other :=
      Option.some.inj (hText.symm.trans (hCollides.text_eq.trans hOtherText))
    have hPlace : i = j := by
      obtain ⟨hLength, -⟩ := List.getElem?_eq_some_iff.1 hName
      exact (List.getElem?_inj hLength h).1 (hName.trans (hSame ▸ hOther.symm))
    rw [hPlace, hj, Option.some.injEq] at hi
    exact hCollides.ne hi.symm
  · intro h
    induction hNames with
    | nil => exact List.nodup_nil
    | @cons key name keys names hName hNames ih =>
      obtain ⟨hHead, hTail⟩ := List.pairwise_cons.1 hDistinct
      have hRest : NoneCollide keys := fun a ha b hb =>
        h a (List.mem_cons_of_mem _ ha) b (List.mem_cons_of_mem _ hb)
      refine List.nodup_cons.2 ⟨fun hMem => ?_, ih hTail hRest⟩
      obtain ⟨other, hOther, hText⟩ := exists_of_mem_right hNames hMem
      -- The same name again would be that of an equal key, or of one that collides.
      obtain hSame | hCollides | hCollides := Value.same_or_collides hName hText
      · rw [hHead other hOther] at hSame
        exact nomatch hSame
      · exact h key List.mem_cons_self other (List.mem_cons_of_mem _ hOther) hCollides
      · exact h other (List.mem_cons_of_mem _ hOther) key List.mem_cons_self hCollides

/-- What is named by the keys of a mapping is found by name if no two of the keys collide. -/
theorem reached_iff_noneCollide {es : Mapping} {parts : List (String × α)} (hDistinct : es.Distinct)
    (hNames : List.Forall₂ (fun e part => e.1.scalarText? = some part.1) es parts) :
    Reached parts ↔ NoneCollide es.keys := by
  rw [reached_iff_nodup]
  refine nodup_names_iff (Mapping.distinct_iff.1 hDistinct) ?_
  rw [Mapping.keys, List.forall₂_map_left_iff, List.forall₂_map_right_iff]
  exact hNames

/-- The keys of a divided section but `config`, which name its subsections. -/
def partKeys (m : Mapping) : List Value :=
  Mapping.keys (m.filter fun e => e.1.scalarText? ≠ some configName)

theorem GivesSection.name {e : Value × Value} {part : String × Section} (h : GivesSection e part) :
    e.1.scalarText? = some part.1 := (givesSection_iff.1 h).1

/-- The subsections of a divided section are found by name if no two of its keys collide. -/
theorem GivesSection.reached {e : Value × Value} {name : String} {decoration : Option Decoration}
    {parts : List (String × Subsection)} (h : GivesSection e (name, .divided decoration parts))
    (hWell : e.2.isWellFormed = true) :
    ∃ m, e.2 = .mapping m ∧ (Reached parts ↔ NoneCollide (partKeys m)) := by
  cases h with
  | @divided key _ m _ hName hParts =>
    refine ⟨m, rfl, reached_iff_noneCollide ?_ ?_⟩
    · exact (Value.isWellFormed_mapping.1 hWell).1.filter _
    · exact hParts.imp fun _ _ hPart => hPart.1

/-- Each section of a loaded deck is found by its name if and only if no two keys of the document, its
merge keys expanded, collide; and so are the subsections of a divided section, by the keys of that. -/
theorem Deck.reached_iff_of_read {text : String} {d : Deck} (h : Deck.read text = .ok d) :
    ∃ written v, Yaml.read text = .ok written ∧ expandMerges rootName written = .ok v ∧
      Deck.ofValue v = .ok d ∧ (Reached d.sections ↔ NoneCollide (entriesOf v).keys) ∧
      (Reached d.sections → ∀ (i : Nat) (name : String) (body : Section),
        d.sections[i]? = some (name, body) → d.section? name = some body) ∧
      ∀ (i : Nat) (name : String) (decoration : Option Decoration)
        (parts : List (String × Subsection)),
        d.sections[i]? = some (name, .divided decoration parts) →
          ∃ (key : Value) (m : Mapping), (entriesOf v)[i]? = some (key, .mapping m) ∧
            key.scalarText? = some name ∧ (Reached parts ↔ NoneCollide (partKeys m)) := by
  obtain ⟨written, v, hWritten, hv, hd⟩ := Deck.read_eq_ok h
  have hWell := expandMerges_isWellFormed (Yaml.isWellFormed_of_read hWritten) hv
  refine ⟨written, v, hWritten, hv, hd, ?_, fun hReached i name body hi => hReached.lookup hi, ?_⟩
  -- A document without a value has no sections; otherwise they are named by the keys in order.
  · cases Deck.ofValue_eq_ok.1 hd with
    | null => exact reached_iff_noneCollide List.Pairwise.nil .nil
    | mapping hSections =>
      exact reached_iff_noneCollide (Value.isWellFormed_mapping.1 hWell).1
        (hSections.imp fun _ _ => GivesSection.name)
  · intro i name decoration parts hi
    cases Deck.ofValue_eq_ok.1 hd with
    | null => exact nomatch hi
    | @mapping es _ hSections =>
      obtain ⟨⟨key, w⟩, hEntry, hGives⟩ := exists_getElem?_right hSections.flip hi
      have hMem : (key, w) ∈ es := List.mem_of_getElem? hEntry
      obtain ⟨m, rfl, hParts⟩ :=
        hGives.reached ((Value.isWellFormed_mapping.1 hWell).2 _ hMem).2
      exact ⟨key, m, hEntry, hGives.name, hParts⟩

/-- Two sections named `true`: the key of the first one is a truth value, that of the second one a
string. -/
def sameNames : Deck := ⟨[("true", .flat ⟨[]⟩), ("true", .flat ⟨[.scalar "a"]⟩)]⟩

theorem read_sameNames : Deck.read "\x7btrue: [], \"true\": [a]\x7d" = .ok sameNames := by
  have hTokens : (Yaml.Token.scan "\x7btrue: [], \"true\": [a]\x7d").toOption =
      some [.flowMappingStart, .key, .scalar "true" true, .value, .flowListStart, .flowListEnd,
        .flowEntry, .key, .scalar "true" false, .value, .flowListStart, .scalar "a" true,
        .flowListEnd, .flowMappingEnd] := by decide +kernel
  have hWritten : Yaml.read "\x7btrue: [], \"true\": [a]\x7d" =
      .ok (.mapping [(.bool true, .list []), (.string "true", .list [.string "a"])]) :=
    Yaml.read_of_scan hTokens rfl
  rw [Deck.read, hWritten]
  rfl

/-- A section that was read can be out of reach. -/
theorem Deck.read_hides_section : ∃ (text : String) (d : Deck) (i : Nat) (name : String)
    (body : Section), Deck.read text = .ok d ∧ d.sections[i]? = some (name, body) ∧
      d.section? name ≠ some body ∧ ¬ Reached d.sections := by
  have hSecond : sameNames.sections[1]? = some ("true", .flat ⟨[.scalar "a"]⟩) := rfl
  have hHidden : sameNames.section? "true" ≠ some (.flat ⟨[.scalar "a"]⟩) := by
    intro h
    cases h
  exact ⟨_, sameNames, 1, "true", _, read_sameNames, hSecond, hHidden,
    fun h => hHidden (h.lookup hSecond)⟩

theorem Deck.reached_iff_of_read_sameNames :
    Deck.read "\x7btrue: [], \"true\": [a]\x7d" = .ok sameNames ∧
      ∃ v, Deck.ofValue v = .ok sameNames ∧
        (Reached sameNames.sections ↔ NoneCollide (entriesOf v).keys) ∧
          ¬ NoneCollide (entriesOf v).keys := by
  obtain ⟨written, v, -, -, hd, hIff, hFound, -⟩ := Deck.reached_iff_of_read read_sameNames
  refine ⟨read_sameNames, v, hd, hIff, fun hNone => ?_⟩
  have hSecond := hFound (hIff.2 hNone) 1 "true" (.flat ⟨[.scalar "a"]⟩) rfl
  cases hSecond

end Slideshow
