import Slideshow.Yaml.Scalar.Block
import Slideshow.Yaml.Scalar.Plain
import Slideshow.Yaml.Scalar.Quoted
import Slideshow.Yaml.Token.Directive

/-! Tokens from characters. Outside brackets, indentation opens and closes lists and mappings. A key
without a question mark is known as such only at its colon; until then its place is kept as a
candidate, which must end on its line within 1024 octets. -/

namespace Slideshow.Yaml

/-- A place where a key may have started: the number of tokens before it, and whether a colon must
follow because its indentation is that of a mapping. -/
structure Candidate where
  before : Nat
  required : Bool
  start : Position

/-- The state between two tokens. `indent` is that of the innermost open block, `indents` those of
the ones around it. There is a candidate, or none, for every open bracket and one more; the
innermost comes first. The tokens found are reversed, and `count` is their number. -/
structure Scanner where
  cursor : Cursor
  keyAllowed : Bool := true
  indent : Int := -1
  indents : List Int := []
  candidates : List (Option Candidate) := [none]
  tokens : List Token := []
  count : Nat := 0

namespace Scanner

def position (s : Scanner) : Position := s.cursor.position

/-- Whether a bracket is open. -/
def inFlow (s : Scanner) : Bool := !s.candidates.tail.isEmpty

def emit (s : Scanner) (t : Token) : Scanner :=
  { s with tokens := t :: s.tokens, count := s.count + 1 }

/-- Past `n` characters of a line, which the token stands for. -/
def take (s : Scanner) (n : Nat) (t : Token) : Scanner :=
  { s.emit t with cursor := s.cursor.advance n }

/-- A token put in behind the first `before` ones. -/
def emitAfter (s : Scanner) (before : Nat) (t : Token) : Scanner :=
  let later := s.count - before
  { s with tokens := s.tokens.take later ++ t :: s.tokens.drop later, count := s.count + 1 }

/-- Past spaces, comments and line breaks. Tabs count as spaces inside brackets and where no key may
start; a new line lets a key start outside brackets. A byte order mark may start a line, and is a
character of it. -/
def skipBlank (flow : Bool) : List Char → Position → Bool → Bool → Cursor × Bool
  | [], p, keyAllowed, _ => (⟨[], p⟩, keyAllowed)
  | '\r' :: '\n' :: rest, p, keyAllowed, _ =>
    skipBlank flow rest p.nextLine (keyAllowed || !flow) false
  | c :: rest, p, keyAllowed, comment =>
    if isBreak c then skipBlank flow rest p.nextLine (keyAllowed || !flow) false
    else if comment || c == ' ' || c == '\t' && (flow || !keyAllowed) ||
        c == '\ufeff' && p.column == 0 then
      skipBlank flow rest (p.past c) keyAllowed comment
    else if c == '#' then skipBlank flow rest (p.past c) keyAllowed true
    else (⟨c :: rest, p⟩, keyAllowed)

/-- Whether a candidate can no longer be a key. -/
def isStale (p : Position) (k : Candidate) : Bool :=
  k.start.line < p.line || k.start.octets + 1024 < p.octets

/-- A candidate that is given up must not be required. -/
def giveUp : Option Candidate → Except Error (Option Candidate)
  | some k => if k.required then .error .missingColon else .ok none
  | none => .ok none

/-- Gives up the innermost candidate if it can no longer be a key. The others are looked at when
they are innermost themselves. -/
def dropStale (s : Scanner) : Except Error Scanner :=
  match s.candidates with
  | k? :: rest =>
    if k?.any (isStale s.position) then do return { s with candidates := (← giveUp k?) :: rest }
    else .ok s
  | [] => .ok s

/-- The blocks left open when those indented more than `column` are closed, and their number. -/
def closing (column : Int) : Int → List Int → Nat × Int × List Int
  | indent, [] => (0, indent, [])
  | indent, outer :: rest =>
    if column < indent then
      let (n, indent, rest) := closing column outer rest
      (n + 1, indent, rest)
    else (0, indent, outer :: rest)

/-- Closes the blocks that are indented more than `column`. -/
def closeBlocks (s : Scanner) (column : Int) : Scanner :=
  if s.inFlow then s
  else
    let (n, indent, indents) := closing column s.indent s.indents
    { s with
      indent, indents
      tokens := List.replicate n .blockEnd ++ s.tokens
      count := s.count + n }

/-- Opens a block at a column if it is indented more than the innermost one; its token comes behind
the first `before` ones. -/
def openBlock (s : Scanner) (column : Nat) (before : Nat) (t : Token) : Scanner :=
  if s.inFlow || (column : Int) ≤ s.indent then s
  else { s.emitAfter before t with indent := column, indents := s.indent :: s.indents }

/-- Gives up the innermost candidate. -/
def dropCandidate (s : Scanner) : Except Error Scanner :=
  match s.candidates with
  | k? :: rest => do return { s with candidates := (← giveUp k?) :: rest }
  | [] => .ok s

/-- Keeps the place of a key that may start here. -/
def saveCandidate (s : Scanner) : Except Error Scanner := do
  if s.keyAllowed then
    let required := !s.inFlow && s.indent == (s.position.column : Int)
    let s ← s.dropCandidate
    return { s with candidates := some ⟨s.count, required, s.position⟩ :: s.candidates.tail }
  else return s

/-- Closes all blocks, where a document starts or ends. -/
def closeAll (s : Scanner) : Except Error Scanner := do
  let s ← (s.closeBlocks (-1)).dropCandidate
  return { s with keyAllowed := false }

def documentMark (s : Scanner) (t : Token) : Except Error Scanner := do
  return (← s.closeAll).take 3 t

def directive (s : Scanner) : Except Error Scanner := do
  let s ← s.closeAll
  match Directive.read? (s.cursor.advance 1) with
  | some (t, cursor) => return { s.emit t with cursor }
  | none => .error .badDirective

def openBracket (s : Scanner) (t : Token) : Except Error Scanner := do
  let s ← s.saveCandidate
  return { s.take 1 t with candidates := none :: s.candidates, keyAllowed := true }

def closeBracket (s : Scanner) (t : Token) : Except Error Scanner := do
  let s ← s.dropCandidate
  let candidates := if s.inFlow then s.candidates.tail else s.candidates
  return { s.take 1 t with candidates, keyAllowed := false }

def comma (s : Scanner) : Except Error Scanner := do
  return { (← s.dropCandidate).take 1 .flowEntry with keyAllowed := true }

def dash (s : Scanner) : Except Error Scanner := do
  if !s.inFlow && !s.keyAllowed then .error .misplacedEntry
  else
    let s := s.openBlock s.position.column s.count .blockListStart
    return { (← s.dropCandidate).take 1 .blockEntry with keyAllowed := true }

def questionMark (s : Scanner) : Except Error Scanner := do
  if !s.inFlow && !s.keyAllowed then .error .misplacedKey
  else
    let s := s.openBlock s.position.column s.count .blockMappingStart
    return { (← s.dropCandidate).take 1 .key with keyAllowed := !s.inFlow }

/-- A colon makes the innermost candidate a key. -/
def colon (s : Scanner) : Except Error Scanner :=
  match s.candidates with
  | some k :: rest =>
    let s := (s.emitAfter k.before .key).openBlock k.start.column k.before .blockMappingStart
    .ok { s.take 1 .value with candidates := none :: rest, keyAllowed := false }
  | _ =>
    if !s.inFlow && !s.keyAllowed then .error .misplacedValue
    else
      let s := s.openBlock s.position.column s.count .blockMappingStart
      .ok { s.take 1 .value with keyAllowed := !s.inFlow }

/-- The characters that may follow an anchor at once. -/
def endsAnchor (next : Option Char) : Bool :=
  endsWord next || next.any fun c => "?:,]\x7d%@\x60".toList.contains c

/-- An anchor or an alias. -/
def anchor (s : Scanner) (t : String → Token) : Except Error Scanner := do
  let s ← s.saveCandidate
  let (name, cursor) := (s.cursor.advance 1).takeWhile isWordChar
  if name.isEmpty || !endsAnchor cursor.rest.head? then .error .badAnchor
  else return { s.emit (t (String.ofList name)) with cursor, keyAllowed := false }

def tag (s : Scanner) : Except Error Scanner := do
  let s ← s.saveCandidate
  match TagText.read? s.cursor.rest with
  | none => .error .badTag
  | some (t, n) =>
    let s := s.take n (.tag t)
    let next := s.cursor.rest.head?
    if endsWord next || s.inFlow && next == some ',' then return { s with keyAllowed := false }
    else .error .badTag

def block (s : Scanner) (literal : Bool) : Except Error Scanner := do
  let s ← s.dropCandidate
  let (text, cursor) ← Block.readBlock literal s.indent (s.cursor.advance 1)
  return { s.emit (.scalar (String.ofList text) false) with cursor, keyAllowed := true }

def quoted (s : Scanner) (double : Bool) : Except Error Scanner := do
  let s ← s.saveCandidate
  let c := s.cursor.advance 1
  let (text, cursor) ←
    if double then Quoted.readDouble c.rest c.position [] .none
    else Quoted.readSingle c.rest c.position [] .none
  return { s.emit (.scalar (String.ofList text) false) with cursor, keyAllowed := false }

def plain (s : Scanner) : Except Error Scanner := do
  let s ← s.saveCandidate
  let r ← Plain.read s.inFlow (s.indent + 1) s.cursor.rest s.position [] .none
  return { s.emit (.scalar (String.ofList r.text) true) with
    cursor := r.cursor, keyAllowed := r.newLine }

/-- Whether a plain scalar may start with a character; the indicators may start one where what
follows shows that they are none. -/
def startsPlain (flow : Bool) (c : Char) (next : Option Char) : Bool :=
  !(isBlank c || isBreak c || "-?:,[]\x7b\x7d#&*!|>'\"%@\x60".toList.contains c) ||
    c == '-' && !next.any isBlank ||
    !flow && (c == '?' || c == ':') && !endsWord next

/-- The token that starts with the character at hand. -/
def token (s : Scanner) (c : Char) (rest : List Char) : Except Error Scanner :=
  let atLineStart := s.position.column == 0
  let next := rest.head?
  let flow := s.inFlow
  if atLineStart && c == '%' then s.directive
  else if atLineStart && isDocumentMark '-' (c :: rest) then s.documentMark .documentStart
  else if atLineStart && isDocumentMark '.' (c :: rest) then s.documentMark .documentEnd
  else if c == '[' then s.openBracket .flowListStart
  else if c == '\x7b' then s.openBracket .flowMappingStart
  else if c == ']' then s.closeBracket .flowListEnd
  else if c == '\x7d' then s.closeBracket .flowMappingEnd
  else if c == ',' then s.comma
  else if c == '-' && endsWord next then s.dash
  else if c == '?' && (flow || endsWord next) then s.questionMark
  else if c == ':' && (flow || endsWord next) then s.colon
  else if c == '*' then s.anchor .reference
  else if c == '&' then s.anchor .anchor
  else if c == '!' then s.tag
  else if c == '|' && !flow then s.block true
  else if c == '>' && !flow then s.block false
  else if c == '\x27' then s.quoted false
  else if c == '"' then s.quoted true
  else if startsPlain flow c next then s.plain
  else .error .unexpectedCharacter

/-- The next token, and the blocks that its indentation closes; nothing at the end of the text,
where all blocks are closed. -/
def step (s : Scanner) : Except Error (Scanner × Bool) := do
  let (cursor, keyAllowed) := skipBlank s.inFlow s.cursor.rest s.position s.keyAllowed false
  let s ← { s with cursor, keyAllowed }.dropStale
  let s := s.closeBlocks s.position.column
  match cursor.rest with
  | [] => return (← s.closeAll, true)
  | c :: rest => return (← s.token c rest, false)

/-- Reads on to the end of the text, at most as many tokens as are given. -/
def run : Nat → Scanner → Except Error (List Token)
  | 0, _ => .error .unfinished
  | tokens + 1, s => do
    let (s, ended) ← s.step
    if ended then return s.tokens.reverse else run tokens s

end Scanner

/-- The tokens of a text. Every step but the last takes a character, so there are no more steps than
characters and one. -/
def Token.scan (text : String) : Except Error (List Token) :=
  let cs := text.toList
  if cs.all isAllowed then Scanner.run (cs.length + 1) { cursor := ⟨cs, {}⟩ }
  else .error .controlCharacter

end Slideshow.Yaml
