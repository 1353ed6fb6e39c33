/-! Path names: texts whose parts are set off by slashes. Doubled slashes, a slash at the end and
parts that are a single dot, unless it is the first, do not count. -/

namespace Slideshow

/-- A path name, kept as it was written. -/
structure Path where
  text : String
  deriving DecidableEq, Repr

namespace Path

/-- A reversed path without the slashes and dots after its last part. -/
def dropTail : List Char → List Char
  | '.' :: '/' :: rest => dropTail ('/' :: rest)
  | '/' :: c :: rest => dropTail (c :: rest)
  | rest => rest

theorem length_dropTail_le (cs : List Char) : (dropTail cs).length ≤ cs.length := by
  fun_induction dropTail cs with
  | case1 rest ih => simp only [List.length_cons] at ih ⊢; omega
  | case2 c rest ih => simp only [List.length_cons] at ih ⊢; omega
  | case3 => exact Nat.le_refl _

/-- The last part of a path, reversed, and all before it, reversed. -/
def splitLast (p : Path) : List Char × List Char :=
  let cs := dropTail p.text.toList.reverse
  (cs.takeWhile (· ≠ '/'), cs.dropWhile (· ≠ '/'))

/-- The last part of a path, unless that is the root or one or two dots. -/
def fileName? (p : Path) : Option String :=
  let name := String.ofList p.splitLast.1.reverse
  if name = "" ∨ name = "." ∨ name = ".." then none else some name

/-- The path without its last part. The root and the empty path have no parent. -/
def parent? (p : Path) : Option Path :=
  if p.splitLast.1.isEmpty then none
  else some ⟨String.ofList (dropTail p.splitLast.2).reverse⟩

theorem length_parent_lt {p q : Path} (h : p.parent? = some q) :
    q.text.length < p.text.length := by
  simp only [parent?, Option.ite_none_left_eq_some, Option.some.injEq] at h
  obtain ⟨hName, rfl⟩ := h
  simp only [splitLast] at hName ⊢
  have hTail := length_dropTail_le p.text.toList.reverse
  have hBefore := length_dropTail_le ((dropTail p.text.toList.reverse).dropWhile (· ≠ '/'))
  have hSplit := congrArg List.length
    (List.takeWhile_append_dropWhile (p := (· ≠ '/')) (l := dropTail p.text.toList.reverse))
  have hPos := List.length_pos_iff.2 (mt List.isEmpty_iff.2 hName)
  simp only [List.length_append, List.length_reverse, String.length_toList] at hTail hSplit
  simp only [String.length_ofList, List.length_reverse]
  omega

/-- A file name before and after its last dot, if a dot other than the first character is there. -/
def splitName (name : String) : String × Option String :=
  let cs := name.toList.reverse
  match cs.dropWhile (· ≠ '.') with
  | _ :: c :: stem =>
    (String.ofList (c :: stem).reverse, some (String.ofList (cs.takeWhile (· ≠ '.')).reverse))
  | _ => (name, none)

/-- The part of the file name after its last dot. -/
def extension? (p : Path) : Option String := p.fileName?.bind fun name => (splitName name).2

/-- Whether nothing follows the last part of a path. -/
def endsInName (p : Path) : Bool := dropTail p.text.toList.reverse == p.text.toList.reverse

/-- The path with the extension of its file name replaced or added; one without a file name is left
as it is. The old extension is cut off first, and if only two dots are left at the end of the path,
they are no file name any more and get no extension. -/
def withExtension (p : Path) (extension : String) : Path :=
  match p.fileName? with
  | some name =>
    let before := String.ofList p.splitLast.2.reverse
    let stem := (splitName name).1
    if stem = "." ∧ p.endsInName then ⟨before ++ ".."⟩
    else ⟨before ++ stem ++ "." ++ extension⟩
  | none => p

def isAbsolute (p : Path) : Bool := p.text.toList.head? == some '/'

/-- The second path as seen from the first: itself if it is absolute, else set behind it. -/
def join (p q : Path) : Path :=
  if q.isAbsolute || p.text.isEmpty then q
  else if p.text.toList.getLast? = some '/' then ⟨p.text ++ q.text⟩
  else ⟨p.text ++ "/" ++ q.text⟩

/-- The texts between slashes, those that do not count included. -/
def splitSlashes : List Char → List (List Char)
  | [] => [[]]
  | c :: cs =>
    if c = '/' then [] :: splitSlashes cs
    else match splitSlashes cs with
      | part :: parts => (c :: part) :: parts
      | [] => [[c]]

/-- The texts between the slashes of a path, those that do not count included. -/
def steps (p : Path) : List String := (splitSlashes p.text.toList).map String.ofList

/-- The path of names below one another. -/
def ofNames (names : List String) : Path := ⟨"/".intercalate names⟩

end Path

end Slideshow
