/-! Reading JSON texts strictly: no comments, no trailing commas, no leading zeros. -/

namespace Slideshow

/-- A JSON text as it was read. A string or a name of a field is missing when half of a surrogate
pair stands alone in it; the text is then well-formed but says nothing. -/
inductive JsonText
  | null
  | bool (value : Bool)
  | number
  | string (value : Option String)
  | array (items : List JsonText)
  | object (fields : List (Option String × JsonText))
  deriving Inhabited

namespace JsonText

def isBlank (c : Char) : Bool := c == ' ' || c == '\n' || c == '\t' || c == '\r'

def skipBlank (cs : List Char) : List Char := cs.dropWhile isBlank

/-- A part of a string: a character, or a code unit of UTF-16 given by its number. -/
inductive Piece
  | char (c : Char)
  | unit (code : Nat)

def hexValue? (c : Char) : Option Nat :=
  if '0' ≤ c ∧ c ≤ '9' then some (c.toNat - '0'.toNat)
  else if 'a' ≤ c ∧ c ≤ 'f' then some (c.toNat - 'a'.toNat + 10)
  else if 'A' ≤ c ∧ c ≤ 'F' then some (c.toNat - 'A'.toNat + 10)
  else none

/-- The number that hexadecimal digits write. -/
def hexNumber? (ds : List Char) : Option Nat :=
  ds.foldl (fun n? d => n?.bind fun n => (hexValue? d).map (16 * n + ·)) (some 0)

/-- The character that a letter after a backslash stands for. -/
def escape? (c : Char) : Option Char :=
  if c = '"' ∨ c = '\\' ∨ c = '/' then some c
  else if c = 'b' then some '\x08'
  else if c = 'f' then some '\x0c'
  else if c = 'n' then some '\n'
  else if c = 'r' then some '\r'
  else if c = 't' then some '\t'
  else none

/-- The parts of a string up to its closing quote, and what follows that. -/
def readPieces? : List Char → Option (List Piece × List Char)
  | [] => none
  | '"' :: rest => some ([], rest)
  | '\\' :: 'u' :: a :: b :: c :: d :: rest => do
    let code ← hexNumber? [a, b, c, d]
    let (pieces, rest) ← readPieces? rest
    return (.unit code :: pieces, rest)
  | '\\' :: e :: rest => do
    let c ← escape? e
    let (pieces, rest) ← readPieces? rest
    return (.char c :: pieces, rest)
  | c :: rest =>
    if c.toNat < 32 ∨ c = '\\' then none
    else (readPieces? rest).map fun (pieces, rest) => (.char c :: pieces, rest)

/-- The characters of a string, unless half of a surrogate pair stands alone. -/
def decode? : List Piece → Option (List Char)
  | [] => some []
  | .char c :: ps => (decode? ps).map (c :: ·)
  | .unit n :: ps =>
    if 0xD800 ≤ n ∧ n < 0xDC00 then
      match ps with
      | .unit m :: ps =>
        if 0xDC00 ≤ m ∧ m < 0xE000 then
          (decode? ps).map (Char.ofNat (0x10000 + (n - 0xD800) * 0x400 + (m - 0xDC00)) :: ·)
        else none
      | _ => none
    else if 0xDC00 ≤ n ∧ n < 0xE000 then none
    else (decode? ps).map (Char.ofNat n :: ·)

/-- A string after its opening quote. -/
def readString? (cs : List Char) : Option (Option String × List Char) :=
  (readPieces? cs).map fun (pieces, rest) => ((decode? pieces).map String.ofList, rest)

/-- What follows a row of at least one digit. -/
def afterDigits? (cs : List Char) : Option (List Char) :=
  match cs.dropWhile Char.isDigit with
  | rest => if rest.length < cs.length then some rest else none

/-- What follows the digits after a point, if there is one. -/
def afterFraction? : List Char → Option (List Char)
  | '.' :: rest => afterDigits? rest
  | rest => some rest

/-- What follows a power of ten, if there is one. -/
def afterExponent? : List Char → Option (List Char)
  | c :: rest =>
    if c = 'e' ∨ c = 'E' then
      match rest with
      | '+' :: ds | '-' :: ds => afterDigits? ds
      | ds => afterDigits? ds
    else some (c :: rest)
  | [] => some []

/-- What follows the digits before a point: a single zero, or digits that start with none. -/
def afterWhole? : List Char → Option (List Char)
  | '0' :: rest => if rest.head?.any Char.isDigit then none else some rest
  | cs => afterDigits? cs

/-- What follows a number. -/
def afterNumber? (cs : List Char) : Option (List Char) :=
  let unsigned := match cs with
    | '-' :: rest => rest
    | _ => cs
  ((afterWhole? unsigned).bind afterFraction?).bind afterExponent?

/-- What follows a word at the start of a text. -/
def afterWord? (word : String) (cs : List Char) : Option (List Char) :=
  if word.toList.isPrefixOf cs then some (cs.drop word.length) else none

mutual

/-- A value and what follows it. The first argument bounds the number of steps. -/
def readValue? : Nat → List Char → Option (JsonText × List Char)
  | 0, _ => none
  | steps + 1, cs =>
    match skipBlank cs with
    | [] => none
    | c :: rest =>
      if c = 'n' then (afterWord? "ull" rest).map (null, ·)
      else if c = 't' then (afterWord? "rue" rest).map (bool true, ·)
      else if c = 'f' then (afterWord? "alse" rest).map (bool false, ·)
      else if c = '"' then (readString? rest).map fun (s, rest) => (string s, rest)
      else if c = '[' then
        match skipBlank rest with
        | ']' :: rest => some (array [], rest)
        | rest => (readItems? steps rest).map fun (items, rest) => (array items, rest)
      else if c = '\x7b' then
        match skipBlank rest with
        | '\x7d' :: rest => some (object [], rest)
        | rest => (readFields? steps rest).map fun (fields, rest) => (object fields, rest)
      else (afterNumber? (c :: rest)).map (number, ·)

/-- The items of an array that has some, up to its end. -/
def readItems? : Nat → List Char → Option (List JsonText × List Char)
  | 0, _ => none
  | steps + 1, cs => do
    let (item, rest) ← readValue? steps cs
    match skipBlank rest with
    | ',' :: rest =>
      let (items, rest) ← readItems? steps rest
      return (item :: items, rest)
    | ']' :: rest => return ([item], rest)
    | _ => none

/-- The fields of an object that has some, up to its end. -/
def readFields? : Nat → List Char → Option (List (Option String × JsonText) × List Char)
  | 0, _ => none
  | steps + 1, cs =>
    match skipBlank cs with
    | '"' :: rest => do
      let (name, rest) ← readString? rest
      match skipBlank rest with
      | ':' :: rest =>
        let (value, rest) ← readValue? steps rest
        match skipBlank rest with
        | ',' :: rest =>
          let (fields, rest) ← readFields? steps rest
          return ((name, value) :: fields, rest)
        | '\x7d' :: rest => return ([(name, value)], rest)
        | _ => none
      | _ => none
    | _ => none

end

/-- The one value that a text holds. Two steps for each character are enough, since of two steps in
a row one takes a character. -/
def read? (text : String) : Option JsonText :=
  let cs := text.toList
  match readValue? (2 * cs.length + 2) cs with
  | some (value, rest) => if (skipBlank rest).isEmpty then some value else none
  | none => none

end JsonText

end Slideshow
