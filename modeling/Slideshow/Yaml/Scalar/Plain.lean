import Slideshow.Yaml.Error
import Slideshow.Yaml.Scalar.Gap

/-! Scalars without quotes. They end where something else starts: at a comment, at a colon that ends
a word, at brackets and commas inside brackets, or at a line that is not indented enough. -/

namespace Slideshow.Yaml.Plain

/-- A scalar, whether white space with a line break follows it, and what comes after that. -/
structure Result where
  text : List Char
  newLine : Bool
  cursor : Cursor

/-- Whether a colon before `next` is forbidden inside brackets. -/
def isBadColon (c : Char) (next : Option Char) : Bool :=
  c == ':' && next.any fun n => isFlowMark n || n == '?'

/-- Whether a character ends the scalar wherever it stands. -/
def isEnd (flow : Bool) (c : Char) (next : Option Char) : Bool :=
  c == ':' && endsWord next || flow && isFlowMark c

/-- Whether what follows white space is no longer part of the scalar. -/
def isEndAfterGap (flow : Bool) (indent : Int) (p : Position) (rest : List Char) : Bool :=
  !flow && (p.column : Int) < indent || atDocumentMark p rest || rest.head? == some '#'

/-- Reads on from a place inside a scalar, whose lines must be indented by `indent`. The text so far
is reversed. -/
def read (flow : Bool) (indent : Int) : List Char → Position → List Char → Gap →
    Except Error Result
  | [], p, text, gap => .ok ⟨text.reverse, gap.isLines, ⟨[], p⟩⟩
  | '\r' :: '\n' :: rest, p, text, gap =>
    read flow indent rest p.nextLine text (gap.addBreak '\n')
  | c :: rest, p, text, gap =>
    if isBlank c then
      if gap.isLines && (p.column : Int) < indent && c == '\t' then .error .tabInIndentation
      else read flow indent rest (p.past c) text (gap.addBlank c)
    else if isBreak c then read flow indent rest p.nextLine text (gap.addBreak c)
    else if !gap.isNone && isEndAfterGap flow indent p (c :: rest) then
      .ok ⟨text.reverse, gap.isLines, ⟨c :: rest, p⟩⟩
    else if flow && isBadColon c rest.head? then .error .colonInFlow
    else if isEnd flow c rest.head? then .ok ⟨text.reverse, gap.isLines, ⟨c :: rest, p⟩⟩
    else read flow indent rest (p.past c) (c :: (gap.reversed ++ text)) .none

end Slideshow.Yaml.Plain
