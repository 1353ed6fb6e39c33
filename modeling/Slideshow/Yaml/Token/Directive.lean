import Slideshow.Yaml.Token.Basic

/-! Directives: lines in front of a document that start with a percent sign. -/

namespace Slideshow.Yaml.Directive

/-- A number of at most nine digits. -/
def readNumber? (c : Cursor) : Option (Nat × Cursor) :=
  let (ds, c) := c.takeWhile Char.isDigit
  if ds.isEmpty ∨ 9 < ds.length then none
  else some (ds.foldl (fun n d => 10 * n + (d.toNat - '0'.toNat)) 0, c)

/-- The two numbers of a version. -/
def readVersion? (c : Cursor) : Option (Token × Cursor) := do
  let (major, c) ← readNumber? (c.skipWhile isBlank)
  if c.rest.head? ≠ some '.' then none
  else
    let (minor, c) ← readNumber? (c.advance 1)
    return (.version major minor, c)

/-- A handle and what it stands for. -/
def readHandle? (c : Cursor) : Option (Token × Cursor) := do
  let c := c.skipWhile isBlank
  let handle := TagText.readHandle c.rest
  let c := c.advance handle.length
  if handle ≠ ['!'] ∧ ¬ TagText.isFullHandle handle then none
  else if ¬ c.rest.head?.any isBlank then none
  else
    let c := c.skipWhile isBlank
    let (os, n) ← TagText.readUri? true 0 c.rest
    let c := c.advance n
    if os.isEmpty ∨ ¬ endsWord c.rest.head? then none
    else return (.handle (octets handle) (TagText.cut os), c)

/-- A directive after its percent sign, with the line it stands on. -/
def read? (c : Cursor) : Option (Token × Cursor) := do
  let (name, c) := c.takeWhile isWordChar
  if ¬ endsWord c.rest.head? then none
  else
    let (token, c) ← match String.ofList name with
      | "YAML" => readVersion? c
      | "TAG" => readHandle? c
      | _ => none
    return (token, ← c.endLine?)

end Slideshow.Yaml.Directive
