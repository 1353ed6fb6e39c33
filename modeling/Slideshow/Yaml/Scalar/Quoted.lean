import Slideshow.Json.Reader
import Slideshow.Yaml.Error
import Slideshow.Yaml.Scalar.Gap

/-! Scalars in quotes. Between single quotes a quote is doubled; between double quotes a backslash
starts an escape. -/

namespace Slideshow.Yaml.Quoted

/-- A scalar and what follows its closing quote. -/
abbrev Result := Except Error (List Char × Cursor)

/-- Reads on from a place between single quotes. The text so far is reversed. -/
def readSingle : List Char → Position → List Char → Gap → Result
  | [], _, _, _ => .error .unclosedQuote
  | '\x27' :: '\x27' :: rest, p, text, gap =>
    readSingle rest (p.advance ['\x27', '\x27']) ('\x27' :: (gap.reversed ++ text)) .none
  | '\x27' :: rest, p, text, gap =>
    .ok ((gap.reversed ++ text).reverse, ⟨rest, p.past '\x27'⟩)
  | '\r' :: '\n' :: rest, p, text, gap => readSingle rest p.nextLine text (gap.addBreak '\n')
  | c :: rest, p, text, gap =>
    if isBlank c then readSingle rest (p.past c) text (gap.addBlank c)
    else if isBreak c then readSingle rest p.nextLine text (gap.addBreak c)
    else if atDocumentMark p (c :: rest) then .error .documentMarkInQuote
    else readSingle rest (p.past c) (c :: (gap.reversed ++ text)) .none

/-- The character that a letter after a backslash stands for. -/
def escape? : Char → Option Char
  | '0' => some '\x00'
  | 'a' => some '\x07'
  | 'b' => some '\x08'
  | 't' => some '\t'
  | '\t' => some '\t'
  | 'n' => some '\n'
  | 'v' => some '\x0b'
  | 'f' => some '\x0c'
  | 'r' => some '\r'
  | 'e' => some '\x1b'
  | ' ' => some ' '
  | '"' => some '"'
  | '/' => some '/'
  | '\\' => some '\\'
  | 'N' => some '\x85'
  | '_' => some '\xa0'
  | 'L' => some '\u2028'
  | 'P' => some '\u2029'
  | _ => none

/-- How many hexadecimal digits follow a letter after a backslash. -/
def hexDigits? : Char → Option Nat
  | 'x' => some 2
  | 'u' => some 4
  | 'U' => some 8
  | _ => none

/-- The character of a number that hexadecimal digits write; surrogates are none. -/
def hexChar? (n : Nat) : Option Char := if h : n.isValidChar then some ⟨.ofNat n, by
    simp only [UInt32.isValidChar, UInt32.toNat_ofNat']
    rw [Nat.mod_eq_of_lt (by rcases h with h | h <;> omega)]
    exact h⟩ else none

/-- The character of an escape, and the number of characters after its letter. -/
def readEscape? (letter : Char) (rest : List Char) : Option (Char × Nat) :=
  match escape? letter with
  | some c => some (c, 0)
  | none => do
    let n ← hexDigits? letter
    if rest.length < n then none
    else
      let code ← JsonText.hexNumber? (rest.take n)
      return (← hexChar? code, n)

/-- Reads on from a place between double quotes. The text so far is reversed. -/
def readDouble (cs : List Char) (p : Position) (text : List Char) (gap : Gap) : Result :=
  match cs with
  | [] => .error .unclosedQuote
  | '"' :: rest => .ok ((gap.reversed ++ text).reverse, ⟨rest, p.past '"'⟩)
  | '\\' :: '\r' :: '\n' :: rest =>
    readDouble rest p.nextLine (gap.reversed ++ text) (.lines none [])
  | '\\' :: letter :: rest =>
    if isBreak letter then
      readDouble rest p.nextLine (gap.reversed ++ text) (.lines none [])
    else match readEscape? letter rest with
      | some (c, n) =>
        let after := p.advance ('\\' :: letter :: rest.take n)
        readDouble (rest.drop n) after (c :: (gap.reversed ++ text)) .none
      | none => .error .badEscape
  | '\r' :: '\n' :: rest => readDouble rest p.nextLine text (gap.addBreak '\n')
  | c :: rest =>
    if isBlank c then readDouble rest (p.past c) text (gap.addBlank c)
    else if isBreak c then readDouble rest p.nextLine text (gap.addBreak c)
    else if atDocumentMark p (c :: rest) then .error .documentMarkInQuote
    else if c = '\\' then .error .badEscape
    else readDouble rest (p.past c) (c :: (gap.reversed ++ text)) .none
termination_by cs.length
decreasing_by all_goals simp only [List.length_drop, List.length_cons]; omega

end Slideshow.Yaml.Quoted
