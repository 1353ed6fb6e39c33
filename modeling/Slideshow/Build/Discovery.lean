import Slideshow.Files.Basic
import Slideshow.Settings

/-! Deck files, and where their modules go. An argument stands for deck files: one that names a file
for that file, whatever its name, and one that names a directory for the deck files in it and below
it. -/

namespace Slideshow

/-- A deck file: its path, and its path as seen from the argument that it was found under. -/
structure DeckSource where
  path : Path
  relative : Path
  deriving DecidableEq, Repr

/-- The file that the module of a deck is written to: below the output directory if there is one,
else beside the deck. -/
def DeckSource.output (d : DeckSource) (out : Option Path) : Path :=
  match out with
  | some directory => (directory.join d.relative).withExtension "js"
  | none => d.path.withExtension "js"

/-- An argument that names neither a file nor a directory. -/
structure MissingArgument where
  argument : String
  deriving DecidableEq, Repr

def MissingArgument.message (e : MissingArgument) : String :=
  "No such file or directory: '" ++ e.argument ++ "'"

/-- Whether a directory is passed over: a hidden one, or one that holds what tools have made. -/
def isSkippedDirectory (name : String) : Bool :=
  name.toList.head? == some '.' || name == "target" || name == "node_modules"

/-- The names that lead to the deck files in a directory and below it, directories that are passed
over left out. -/
def entryDecks (s : Settings) : List (String × Tree) → List (List String)
  | [] => []
  | (name, .file _) :: es =>
    if s.isDeck ⟨name⟩ then [name] :: entryDecks s es else entryDecks s es
  | (name, .directory below) :: es =>
    if isSkippedDirectory name then entryDecks s es
    else (entryDecks s below).map (name :: ·) ++ entryDecks s es
termination_by es => sizeOf es
decreasing_by
  all_goals
    simp only [List.cons.sizeOf_spec, Prod.mk.sizeOf_spec, Tree.directory.sizeOf_spec]
    omega

/-- A deck file below the directory that an argument names. -/
def DeckSource.below (argument : Path) (names : List String) : DeckSource :=
  ⟨argument.join (.ofNames names), .ofNames names⟩

/-- A deck file that an argument names itself. -/
def DeckSource.ofFile (argument : Path) : DeckSource :=
  ⟨argument, ⟨argument.fileName?.getD argument.text⟩⟩

/-- The deck files that one argument stands for. -/
def decksOf (s : Settings) (fs : Files) (argument : String) :
    Except MissingArgument (List DeckSource) :=
  match fs.at? ⟨argument⟩ with
  | .ok (.directory es) => .ok ((entryDecks s es).map (.below ⟨argument⟩))
  | .ok (.file _) => .ok [.ofFile ⟨argument⟩]
  | .error _ => .error ⟨argument⟩

/-- The deck files that arguments stand for, in the order of the arguments. -/
def findDecks (s : Settings) (fs : Files) : List String → Except MissingArgument (List DeckSource)
  | [] => .ok []
  | argument :: rest => do
    let first ← decksOf s fs argument
    return first ++ (← findDecks s fs rest)

end Slideshow
