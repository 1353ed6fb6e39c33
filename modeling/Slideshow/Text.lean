/-! Texts without white space at their ends, and the first occurrence of a text in another one. -/

namespace Slideshow.Text

/-- The characters with the property `White_Space`. -/
def isBlank (c : Char) : Bool :=
  let n := c.toNat
  (9 ≤ n && n ≤ 13) || n == 0x20 || n == 0x85 || n == 0xA0 || n == 0x1680 ||
    (0x2000 ≤ n && n ≤ 0x200A) || n == 0x2028 || n == 0x2029 || n == 0x202F || n == 0x205F ||
    n == 0x3000

/-- A text without the white space at its start and its end. -/
def trim (cs : List Char) : List Char :=
  ((cs.dropWhile isBlank).reverse.dropWhile isBlank).reverse

/-- What comes before and what comes after the first occurrence of `needle`. -/
def splitFirst? (needle : List Char) : List Char → Option (List Char × List Char)
  | [] => if needle.isEmpty then some ([], []) else none
  | c :: cs =>
    if needle.isPrefixOf (c :: cs) then some ([], (c :: cs).drop needle.length)
    else (splitFirst? needle cs).map fun parts => (c :: parts.1, parts.2)

/-- The text with the first occurrence of `needle` replaced, if there is one. -/
def replaceFirst? (needle replacement text : List Char) : Option (List Char) :=
  (splitFirst? needle text).map fun parts => parts.1 ++ replacement ++ parts.2

end Slideshow.Text
