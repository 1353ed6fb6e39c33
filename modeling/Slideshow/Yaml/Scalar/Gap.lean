import Slideshow.Yaml.Cursor

/-! The white space between two words of a scalar, which lines are folded in: a single line break
becomes a space, and of several all but the first stay. -/

namespace Slideshow.Yaml

/-- White space met after a word. The texts are reversed. After a line break blanks do not count; an
escaped line break leaves no first break. -/
inductive Gap
  | blanks (text : List Char)
  | lines (first : Option Char) (more : List Char)

namespace Gap

def none : Gap := blanks []

def isNone : Gap → Bool
  | blanks [] => true
  | _ => false

/-- Whether the white space holds a line break. -/
def isLines : Gap → Bool
  | blanks _ => false
  | lines _ _ => true

def addBlank (c : Char) : Gap → Gap
  | blanks text => blanks (c :: text)
  | lines first more => lines first more

def addBreak (c : Char) : Gap → Gap
  | blanks _ => lines (some (breakText c)) []
  | lines first more => lines first (breakText c :: more)

/-- The text that white space stands for, reversed. -/
def reversed : Gap → List Char
  | blanks text => text
  | lines (some '\n') [] => [' ']
  | lines (some '\n') more => more
  | lines first more => more ++ first.toList

end Gap

end Slideshow.Yaml
