import Slideshow.Yaml.Node.Anchor
import Slideshow.Yaml.Node.Grammar
import Slideshow.Yaml.Scalar.Core
import Slideshow.Yaml.Token.Scanner

/-! The value of the one document in a text: the text is read as tokens, the tokens as a node, and
the node is loaded as a value. Loading replaces aliases by the nodes they refer to, applies tags, and
checks mappings for equal keys. Depth and the number of replacements are bounded, so that an anchor
around its own alias is an error. -/

namespace Slideshow.Yaml

/-- Loading counts the aliases that it has followed. -/
abbrev Load := StateT Nat (Except Error)

/-- The nodes that aliases refer to, and how many aliases may be followed. -/
structure Targets where
  nodes : List (Nat × Node Nat)
  limit : Nat

namespace Targets

/-- The targets of a document: of the anchors with one number, the last counts. -/
def ofRoot (root : Node Nat) : Targets := ⟨root.anchored.reverse, 100 * root.events⟩

/-- The node that an alias refers to. -/
def follow (targets : Targets) (number : Nat) : Load (Node Nat) := do
  let followed ← get
  if targets.limit ≤ followed then throw .tooManyAliases
  set (followed + 1)
  match targets.nodes.lookup number with
  | some n => return n
  | none => throw .unknownAnchor

end Targets

namespace Node

/-- Loads a value and puts the named tag around it, if it has one; any other tag is left to
`content`. -/
def underTag (tag : Option Tag) (content : Option Tag → Load Value) : Load Value :=
  match tag with
  | some (.named (some name)) => return .tagged (tagName name) (← content none)
  | _ => content tag

/-- Loads the entries of a mapping one after another. -/
def loadEntries (load : Node Nat → Load Value) (done : Mapping) :
    List (Node Nat × Node Nat) → Load Mapping
  | [] => return done
  | (k, v) :: es => do
    let key ← load k
    if done.contains key then throw .duplicateKey
    let value ← load v
    loadEntries load (done ++ [(key, value)]) es

/-- Loads a node; `inside` loads the contents of lists and mappings, and is missing where they are
too deep. -/
def loadContent (inside : Option (Node Nat → Load Value)) : Node Nat → Load Value
  | reference _ => throw .unknownAnchor
  | scalar p text plain =>
    underTag p.tag fun tag =>
      match Core.scalar tag plain text with
      | .ok v => return v
      | .error e => throw e
  | list p items =>
    underTag p.tag fun _ =>
      match inside with
      | some load => return .list (← items.mapM load)
      | none => throw .tooDeep
  | mapping p entries =>
    underTag p.tag fun _ =>
      match inside with
      | some load => return .mapping (← loadEntries load [] entries)
      | none => throw .tooDeep

/-- Loads a node or the node that an alias refers to. -/
def loadWith (targets : Targets) (inside : Option (Node Nat → Load Value)) :
    Node Nat → Load Value
  | reference number => do loadContent inside (← targets.follow number)
  | n => loadContent inside n

/-- Loads a node in which lists and mappings are at most `depth` deep. -/
def load (targets : Targets) : (depth : Nat) → Node Nat → Load Value
  | 0 => loadWith targets none
  | depth + 1 => loadWith targets (some (load targets depth))

/-- The depth to which lists and mappings may be nested. -/
def maxDepth : Nat := 128

/-- The value of a document. -/
def toValue (root : Node Nat) : Except Error Value :=
  ((root.load (.ofRoot root) maxDepth).run 0).map (·.1)

end Node

/-- The value that a text writes. -/
def read (text : String) : Except Error Value := do
  let tokens ← Token.scan text
  let root ← Grammar.document tokens
  let (root, _) ← root.numbered []
  root.toValue

end Slideshow.Yaml
