import Slideshow.Dictionary

/-! Trees of files and directories. The entries of a directory are in ascending order of their
names. -/

namespace Slideshow

inductive Tree
  | file (content : ByteArray)
  | directory (entries : List (String × Tree))
  deriving Inhabited

namespace Tree

def isFile : Tree → Bool
  | file _ => true
  | directory _ => false

def isDirectory (t : Tree) : Bool := !t.isFile

/-- What a directory holds under a name. -/
def child? : Tree → String → Option Tree
  | file _, _ => none
  | directory es, name => es.lookup name

/-- What is found below a tree under names one after another. -/
def get? : Tree → List String → Option Tree
  | t, [] => some t
  | t, name :: names => (t.child? name).bind fun below => below.get? names

/-- The tree with something put under names, in place of what may be there. Where the directory that
is to hold it is missing, nothing changes. -/
def put : Tree → List String → Tree → Tree
  | _, [], new => new
  | file content, _ :: _, _ => file content
  | directory es, name :: names, new =>
    match es.lookup name, names with
    | some t, _ => directory (Dictionary.insertEntry name (put t names new) es)
    | none, [] => directory (Dictionary.insertEntry name new es)
    | none, _ :: _ => directory es

/-- The tree without what is under names. -/
def erase : Tree → List String → Tree
  | t, [] => t
  | file content, _ :: _ => file content
  | directory es, [name] => directory (es.filter fun e => e.1 ≠ name)
  | directory es, name :: names =>
    match es.lookup name with
    | some t => directory (Dictionary.insertEntry name (erase t names) es)
    | none => directory es

mutual

/-- All files with the names that lead to them. -/
def files : Tree → List (List String × ByteArray)
  | file content => [([], content)]
  | directory es => entryFiles es

def entryFiles : List (String × Tree) → List (List String × ByteArray)
  | [] => []
  | (name, t) :: es => t.files.map (fun f => (name :: f.1, f.2)) ++ entryFiles es

end

end Tree

end Slideshow
