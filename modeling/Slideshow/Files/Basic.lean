import Slideshow.Files.Tree
import Slideshow.Path

/-! Files by path: a tree and the names of the directory that paths without a slash in front start
from. -/

namespace Slideshow

/-- Why a file cannot be read or written. -/
inductive FileError
  | notFound
  | occupied
  | notDirectory
  | isDirectory
  | notText
  deriving DecidableEq, Repr

def FileError.message : FileError → String
  | notFound => "No such file or directory (os error 2)"
  | occupied => "File exists (os error 17)"
  | notDirectory => "Not a directory (os error 20)"
  | isDirectory => "Is a directory (os error 21)"
  | notText => "stream did not contain valid UTF-8"

structure Files where
  root : Tree
  here : List String := []

namespace Files

/-- The names that steps lead to from a place. Every place on the way must be a directory; the last
name need not be there. -/
def follow (root : Tree) (place : List String) : List String → Except FileError (List String)
  | [] => .ok place
  | step :: steps =>
    match root.get? place with
    | none => .error .notFound
    | some (.file _) => .error .notDirectory
    | some (.directory _) =>
      if step = "" ∨ step = "." then follow root place steps
      else if step = ".." then follow root place.dropLast steps
      else follow root (place ++ [step]) steps

/-- The names that a path leads to. -/
def resolve (fs : Files) (p : Path) : Except FileError (List String) :=
  if p.text.isEmpty then .error .notFound
  else follow fs.root (if p.isAbsolute then [] else fs.here) p.steps

/-- What is at a path. -/
def at? (fs : Files) (p : Path) : Except FileError Tree := do
  match fs.root.get? (← fs.resolve p) with
  | some t => return t
  | none => throw .notFound

def isFile (fs : Files) (p : Path) : Bool :=
  match fs.at? p with
  | .ok t => t.isFile
  | .error _ => false

def isDirectory (fs : Files) (p : Path) : Bool :=
  match fs.at? p with
  | .ok t => t.isDirectory
  | .error _ => false

/-- Whether there is anything at a path. -/
def contains (fs : Files) (p : Path) : Bool := (fs.at? p).isOk

/-- The content of the file at a path. -/
def read (fs : Files) (p : Path) : Except FileError ByteArray := do
  match ← fs.at? p with
  | .file content => return content
  | .directory _ => throw .isDirectory

/-- The text of the file at a path. -/
def readText (fs : Files) (p : Path) : Except FileError String := do
  match String.fromUTF8? (← fs.read p) with
  | some text => return text
  | none => throw .notText

/-- The files with the file at a path written, in a directory that must be there. -/
def write (fs : Files) (p : Path) (content : ByteArray) : Except FileError Files := do
  let names ← fs.resolve p
  match fs.root.get? names with
  | some (.directory _) => throw .isDirectory
  | _ => return { fs with root := fs.root.put names (.file content) }

def writeText (fs : Files) (p : Path) (text : String) : Except FileError Files :=
  fs.write p text.toUTF8

/-- The files with a new directory at a path. -/
def makeDirectory (fs : Files) (p : Path) : Except FileError Files := do
  let names ← fs.resolve p
  match fs.root.get? names with
  | some _ => throw .occupied
  | none => return { fs with root := fs.root.put names (.directory []) }

/-- The files with a directory at a path, new or not. -/
def ensureDirectory (fs : Files) (p : Path) : Except FileError Files :=
  match fs.makeDirectory p with
  | .ok fs => .ok fs
  | .error e => if fs.isDirectory p then .ok fs else .error e

/-- The files with a directory at a path and at those above it. When an error arises, those made
before it stay. -/
def createDirectories (fs : Files) (p : Path) : Files × Except FileError Unit :=
  if p.text.isEmpty then (fs, .ok ())
  else match fs.ensureDirectory p with
    | .ok fs => (fs, .ok ())
    | .error e =>
      match e, h : p.parent? with
      | .notFound, some above =>
        have := p.length_parent_lt h
        match fs.createDirectories above with
        | (fs, .error e) => (fs, .error e)
        | (fs, .ok ()) =>
          match fs.ensureDirectory p with
          | .ok fs => (fs, .ok ())
          | .error e => (fs, .error e)
      | _, _ => (fs, .error e)
termination_by p.text.length

/-- The files without the one at a path. -/
def remove (fs : Files) (p : Path) : Except FileError Files := do
  let names ← fs.resolve p
  match fs.root.get? names with
  | some (.file _) => return { fs with root := fs.root.erase names }
  | some (.directory _) => throw .isDirectory
  | none => throw .notFound

end Files

end Slideshow
