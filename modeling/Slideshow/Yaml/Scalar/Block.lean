import Slideshow.Yaml.Error
import Slideshow.Yaml.Scalar.Gap

/-! Scalars that are indented blocks of lines. A literal block keeps its line breaks; in a folded
one a line break between two lines that do not start with blanks becomes a space. -/

namespace Slideshow.Yaml.Block

/-- What happens to the line breaks at the end: only the first is kept, none or all. -/
inductive Chomping
  | clip
  | strip
  | keep
  deriving DecidableEq, Repr

/-- What the first line of a block says: the chomping, and the indentation below the parent's, zero
if it is to be found out. -/
structure Header where
  chomping : Chomping
  increment : Nat
  deriving DecidableEq, Repr

def chomping? : Char → Option Chomping
  | '+' => some .keep
  | '-' => some .strip
  | _ => none

/-- The digit of an indentation, which is not zero. -/
def increment? (c : Char) : Option Nat :=
  if '1' ≤ c ∧ c ≤ '9' then some (c.toNat - '0'.toNat) else none

/-- The indicators after the sign of a block, in either order, and how many there are. -/
def readHeader (cs : List Char) : Header × Nat :=
  match cs with
  | [] => (⟨.clip, 0⟩, 0)
  | a :: rest =>
    let second := rest.head?
    match chomping? a, increment? a with
    | some chomping, _ =>
      match second.bind increment? with
      | some n => (⟨chomping, n⟩, 2)
      | none => (⟨chomping, 0⟩, 1)
    | none, some n =>
      match second.bind chomping? with
      | some chomping => (⟨chomping, n⟩, 2)
      | none => (⟨.clip, n⟩, 1)
    | none, none => (⟨.clip, 0⟩, 0)

/-- A block that is being read. All texts are reversed. `indent` is zero until it is known, `widest`
is the longest indentation met until then, `ending` the line break after the last line and `empty`
those of the empty lines after it. -/
structure State where
  indent : Nat
  widest : Nat := 0
  text : List Char := []
  ending : List Char := []
  empty : List Char := []
  afterBlank : Bool := false
  inLine : Bool := false

/-- A line that starts with the character `c`: the line breaks in front of it are settled. -/
def State.startLine (s : State) (literal : Bool) (c : Char) : State :=
  let folds := !literal && s.ending == ['\n'] && !s.afterBlank && !isBlank c
  let kept := if folds then if s.empty.isEmpty then [' '] else [] else s.ending
  { s with
    text := c :: (s.empty ++ kept ++ s.text)
    ending := []
    empty := []
    afterBlank := isBlank c
    inLine := true }

def State.endLine (s : State) (column : Nat) (c : Char) : State :=
  if s.inLine then { s with ending := [breakText c], inLine := false }
  else { s with empty := breakText c :: s.empty, widest := max s.widest column }

/-- The block with its indentation settled by a line whose text starts at a column. -/
def State.settle (s : State) (parent : Int) (column : Nat) : State :=
  if s.indent = 0 then { s with indent := max (max s.widest column) (max 1 (parent + 1).toNat) }
  else s

/-- Reads on in a block whose parent is indented by `parent`. -/
def read (literal : Bool) (parent : Int) : List Char → Position → State →
    Except Error (State × Cursor)
  | [], p, s => .ok (s, ⟨[], p⟩)
  | '\r' :: '\n' :: rest, p, s => read literal parent rest p.nextLine (s.endLine p.column '\n')
  | c :: rest, p, s =>
    if isBreak c then read literal parent rest p.nextLine (s.endLine p.column c)
    else if s.inLine then read literal parent rest (p.past c) { s with text := c :: s.text }
    else if isBlank c && (s.indent == 0 || p.column < s.indent) then
      if c == '\t' then .error .tabInIndentation
      else read literal parent rest (p.past c) s
    else
      let settled := s.settle parent p.column
      if p.column = settled.indent then
        read literal parent rest (p.past c) (settled.startLine literal c)
      else .ok (settled, ⟨c :: rest, p⟩)

/-- The text of a block that has ended. -/
def State.result (s : State) (chomping : Chomping) : List Char :=
  let tail := match chomping with
    | .strip => []
    | .clip => s.ending
    | .keep => s.empty ++ s.ending
  (tail ++ s.text).reverse

/-- The block after its sign. -/
def readBlock (literal : Bool) (parent : Int) (c : Cursor) :
    Except Error (List Char × Cursor) := do
  let (header, n) := readHeader c.rest
  match (c.advance n).endLine? with
  | none => .error .badBlockHeader
  | some c =>
    let indent := if header.increment = 0 then 0 else (max parent 0).toNat + header.increment
    let (s, c) ← read literal parent c.rest c.position { indent }
    return (s.result header.chomping, c)

end Slideshow.Yaml.Block
