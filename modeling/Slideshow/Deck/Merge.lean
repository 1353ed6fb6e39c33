import Slideshow.Deck.Error

/-! Merge keys: an entry with the key `<<` stands for the entries of the mappings it holds. They
come in at its place, except those whose key is in the mapping already; an entry that follows with the
same key replaces the value and keeps the place. -/

namespace Slideshow

open Yaml (Value Mapping Shape)

/-- Whether a key is the merge key, under any tags. -/
def isMergeKey (key : Value) : Bool :=
  match key.untag with
  | .string s => s == "<<"
  | _ => false

/-- The place of the value under `key` in a mapping at `place`. -/
def placeUnder (place : String) (key : Value) : String :=
  match key.scalarText? with
  | some name => if place = rootName then name else place ++ "." ++ name
  | none => place

/-- The mappings of a merge key's list, which must hold nothing else. -/
def mappingsOf? (place : String) : List Value → Except LoadError (List Mapping)
  | [] => .ok []
  | .mapping es :: rest => (mappingsOf? place rest).map (es :: ·)
  | v :: _ => .error (.malformed place ⟨.mergeSources, .ofValue v⟩)

/-- The mappings that a merge key brings in, in order of precedence. -/
def mergeSources (place : String) : Value → Except LoadError (List Mapping)
  | .mapping es => .ok [es]
  | .list vs => mappingsOf? place vs
  | v => .error (.malformed place ⟨.mergeSources, .ofValue v⟩)

/-- A mapping with the entries of `sources` added at its end, those with a known key left out. -/
def mergeInto (done : Mapping) (sources : List Mapping) : Mapping :=
  sources.foldl (fun m source => source.foldl (fun m e => m.insertNew e.1 e.2) m) done

mutual

/-- A value with every merge key expanded in its mappings and, through lists and the values of
mappings, in those below. Keys and tagged values are left as they are. -/
def expandMerges (place : String) : Value → Except LoadError Value
  | .mapping es => (expandEntries place [] es).map .mapping
  | .list vs => (expandItems place vs).map .list
  | v => .ok v

def expandItems (place : String) : List Value → Except LoadError (List Value)
  | [] => .ok []
  | v :: vs => do
    let v ← expandMerges place v
    let vs ← expandItems place vs
    return v :: vs

/-- Adds entries to the expanded ones; the inside of an entry is expanded before the entry. -/
def expandEntries (place : String) (done : Mapping) :
    List (Value × Value) → Except LoadError Mapping
  | [] => .ok done
  | (key, v) :: es => do
    let v ← expandMerges (placeUnder place key) v
    if isMergeKey key then
      let sources ← mergeSources place v
      expandEntries place (mergeInto done sources) es
    else
      expandEntries place (done.insert key v) es

end

end Slideshow
