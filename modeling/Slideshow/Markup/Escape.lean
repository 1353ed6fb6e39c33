/-! Text inside a template literal of a script, which ends at the first backtick that no backslash
precedes. -/

namespace Slideshow.Markup

/-- The character that delimits a template literal. -/
def backtick : Char := '\x60'

/-- Every occurrence of a character replaced by a text. -/
def replaceChar (c : Char) (text cs : List Char) : List Char :=
  cs.flatMap fun x => if x = c then text else [x]

/-- Backslashes are doubled first, so that those that then come in front of backticks are not. -/
def escapeChars (cs : List Char) : List Char :=
  replaceChar backtick ['\\', backtick] (replaceChar '\\' ['\\', '\\'] cs)

/-- Markup as it stands between backticks. A dollar sign with a brace is left as it is and starts a
substitution there. -/
def escape (markup : String) : String := String.ofList (escapeChars markup.toList)

/-- What comes before escaped markup in a module. -/
def moduleStart : String := "const text = `"

/-- What comes after escaped markup in a module. -/
def moduleEnd : String := "`; export default text;"

/-- The module that exports escaped markup. -/
def toModule (escaped : String) : String := moduleStart ++ escaped ++ moduleEnd

end Slideshow.Markup
