import Slideshow.Yaml.Tag

/-! The tree of a document, in which anchors, aliases and tags are still as they were written. -/

namespace Slideshow.Yaml

/-- The anchor and the tag of a node. -/
structure Properties (ρ : Type) where
  anchor : Option ρ := none
  tag : Option Tag := none
  deriving DecidableEq, Repr

/-- A node. A reference is an alias; it gives its target by a `ρ`, as the target's anchor does. A
scalar is plain if it has no quotes and is no block. -/
inductive Node (ρ : Type)
  | reference (target : ρ)
  | scalar (properties : Properties ρ) (text : String) (plain : Bool)
  | list (properties : Properties ρ) (items : List (Node ρ))
  | mapping (properties : Properties ρ) (entries : List (Node ρ × Node ρ))

namespace Node

variable {ρ : Type}

/-- The node where nothing is written. -/
def empty : Node ρ := scalar {} "" true

mutual

/-- The number of events that write a node: one for a scalar or an alias, two around the contents of
a list or a mapping. -/
def events : Node ρ → Nat
  | reference _ | scalar _ _ _ => 1
  | list _ items => itemEvents items + 2
  | mapping _ entries => entryEvents entries + 2

def itemEvents : List (Node ρ) → Nat
  | [] => 0
  | n :: ns => n.events + itemEvents ns

def entryEvents : List (Node ρ × Node ρ) → Nat
  | [] => 0
  | (k, v) :: es => k.events + v.events + entryEvents es

end

mutual

/-- The nodes with an anchor, in the order in which they start. -/
def anchored : Node ρ → List (ρ × Node ρ)
  | reference _ => []
  | scalar p text plain => (p.anchor.map fun a => (a, scalar p text plain)).toList
  | list p items => (p.anchor.map fun a => (a, list p items)).toList ++ itemsAnchored items
  | mapping p entries =>
    (p.anchor.map fun a => (a, mapping p entries)).toList ++ entriesAnchored entries

def itemsAnchored : List (Node ρ) → List (ρ × Node ρ)
  | [] => []
  | n :: ns => n.anchored ++ itemsAnchored ns

def entriesAnchored : List (Node ρ × Node ρ) → List (ρ × Node ρ)
  | [] => []
  | (k, v) :: es => k.anchored ++ v.anchored ++ entriesAnchored es

end

end Node

end Slideshow.Yaml
