/-! The characters of a document, and a place in its text. -/

namespace Slideshow.Yaml

/-- A space or a tab. -/
def isBlank (c : Char) : Bool := c == ' ' || c == '\t'

/-- A character that ends a line. -/
def isBreak (c : Char) : Bool :=
  c == '\r' || c == '\n' || c == '\x85' || c == '\u2028' || c == '\u2029'

/-- How a line break is kept in a scalar. -/
def breakText (c : Char) : Char := if c == '\u2028' || c == '\u2029' then c else '\n'

/-- Whether what comes next is white space or the end of the text. -/
def endsWord (next : Option Char) : Bool := next.all fun c => isBlank c || isBreak c

/-- The characters of anchors and of the handles of tags. -/
def isWordChar (c : Char) : Bool := c.isAlphanum || c == '_' || c == '-'

/-- The characters that brackets and commas take from plain text inside them. -/
def isFlowMark (c : Char) : Bool :=
  c == ',' || c == '[' || c == ']' || c == '\x7b' || c == '\x7d'

/-- The characters that a document may hold. -/
def isAllowed (c : Char) : Bool :=
  let n := c.toNat
  n == 0x09 || n == 0x0A || n == 0x0D || (0x20 ≤ n && n ≤ 0x7E) || n == 0x85 ||
    (0xA0 ≤ n && n ≤ 0xFFFD) || 0x10000 ≤ n

/-- A place in a text: the lines before it, and the characters and the octets of UTF-8 before it in
its line. -/
structure Position where
  line : Nat := 0
  column : Nat := 0
  octets : Nat := 0
  deriving DecidableEq, Repr

namespace Position

/-- The place after a character that ends no line. -/
def past (p : Position) (c : Char) : Position :=
  { p with column := p.column + 1, octets := p.octets + c.utf8Size }

/-- The place after characters that end no line. -/
def advance (p : Position) (cs : List Char) : Position := cs.foldl past p

/-- The start of the next line. -/
def nextLine (p : Position) : Position := { line := p.line + 1 }

end Position

/-- The rest of a text, and its place in it. -/
structure Cursor where
  rest : List Char
  position : Position := {}

namespace Cursor

/-- Past the next `n` characters, which are all on one line. -/
def advance (c : Cursor) (n : Nat) : Cursor :=
  ⟨c.rest.drop n, c.position.advance (c.rest.take n)⟩

/-- Past the characters of one line that satisfy a test, with the text of those. -/
def takeWhile (c : Cursor) (p : Char → Bool) : List Char × Cursor :=
  let run := c.rest.takeWhile p
  (run, c.advance run.length)

def skipWhile (c : Cursor) (p : Char → Bool) : Cursor := (c.takeWhile p).2

/-- Past a line break, if one comes next. -/
def skipBreak (c : Cursor) : Cursor :=
  match c.rest with
  | '\r' :: '\n' :: rest => ⟨rest, c.position.nextLine⟩
  | b :: rest => if isBreak b then ⟨rest, c.position.nextLine⟩ else c
  | [] => c

/-- Past blanks and a comment to the end of the line, or nothing if something else stands there. -/
def endLine? (c : Cursor) : Option Cursor :=
  let c := c.skipWhile isBlank
  let c := if c.rest.head? = some '#' then c.skipWhile (!isBreak ·) else c
  if c.rest.head?.all isBreak then some c.skipBreak else none

end Cursor

/-- Whether a text starts with three times the given character and the end of a word, as the marks
around documents do. -/
def isDocumentMark (mark : Char) : List Char → Bool
  | a :: b :: c :: rest => a == mark && b == mark && c == mark && endsWord rest.head?
  | _ => false

/-- Whether one of the marks around documents stands at a place. -/
def atDocumentMark (p : Position) (rest : List Char) : Bool :=
  p.column == 0 && (isDocumentMark '-' rest || isDocumentMark '.' rest)

end Slideshow.Yaml
