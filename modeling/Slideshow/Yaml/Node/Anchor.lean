import Slideshow.Yaml.Error
import Slideshow.Yaml.Node.Basic

/-! Anchors by number instead of by name. An anchor gets the number of names that are known before
it, so a name that is given again shares its number with the next new name. -/

namespace Slideshow.Yaml

/-- The numbers that names of anchors stand for at a point of the document. -/
abbrev AnchorNumbers := List (String × Nat)

/-- The numbers after a name has got a number. -/
def AnchorNumbers.assign (known : AnchorNumbers) (name : String) (number : Nat) :
    AnchorNumbers :=
  match known with
  | [] => [(name, number)]
  | (s, n) :: rest =>
    if s = name then (name, number) :: rest else (s, n) :: assign rest name number

/-- Properties with their anchor by number. -/
def Properties.numbered (p : Properties String) (known : AnchorNumbers) :
    Properties Nat × AnchorNumbers :=
  match p.anchor with
  | some name => (⟨some known.length, p.tag⟩, known.assign name known.length)
  | none => (⟨none, p.tag⟩, known)

namespace Node

mutual

/-- A node with anchors and aliases by number, and the numbers known after it. An alias refers to
the last anchor of its name that starts before it. -/
def numbered (known : AnchorNumbers) : Node String → Except Error (Node Nat × AnchorNumbers)
  | reference name =>
    match known.lookup name with
    | some n => .ok (reference n, known)
    | none => .error .unknownAnchor
  | scalar p text plain => .ok (scalar (p.numbered known).1 text plain, (p.numbered known).2)
  | list p items => do
    let (items, after) ← itemsNumbered (p.numbered known).2 items
    return (list (p.numbered known).1 items, after)
  | mapping p entries => do
    let (entries, after) ← entriesNumbered (p.numbered known).2 entries
    return (mapping (p.numbered known).1 entries, after)

def itemsNumbered (known : AnchorNumbers) :
    List (Node String) → Except Error (List (Node Nat) × AnchorNumbers)
  | [] => .ok ([], known)
  | n :: ns => do
    let (n, known) ← n.numbered known
    let (ns, known) ← itemsNumbered known ns
    return (n :: ns, known)

def entriesNumbered (known : AnchorNumbers) :
    List (Node String × Node String) → Except Error (List (Node Nat × Node Nat) × AnchorNumbers)
  | [] => .ok ([], known)
  | (k, v) :: es => do
    let (k, known) ← k.numbered known
    let (v, known) ← v.numbered known
    let (es, known) ← entriesNumbered known es
    return ((k, v) :: es, known)

end

end Node

end Slideshow.Yaml
