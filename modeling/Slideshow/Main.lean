import Slideshow.CommandLine.Run

/-! The program: it reads the files that a command can touch into a tree, runs the command on that
tree, and writes back what has changed. -/

namespace Slideshow.Program

/-- Reads what is at an absolute place. Below a directory, those that are passed over in the search
for decks are left out, and so are links; of the files that are not wanted only the names are
read. -/
partial def readTree (wanted : String → Bool) (place : String) : IO (Option Tree) := do
  let path := (← IO.currentDir) / place
  if ← path.isDir then
    let mut entries := []
    for entry in ← path.readDir do
      let name := entry.fileName
      let below := place ++ "/" ++ name
      let isSkipped := isSkippedDirectory name && (← entry.path.isDir)
      let isLink := match ← entry.path.symlinkMetadata.toBaseIO with
        | .ok data => data.type == .symlink
        | .error _ => true
      if !isSkipped && !isLink then
        let t? ← if (← entry.path.isDir) || wanted name then readTree wanted below
          else pure (some (.file .empty))
        if let some t := t? then entries := Dictionary.insertEntry name t entries
    return some (.directory entries)
  else
    match ← (IO.FS.readBinFile path).toBaseIO with
    | .ok content => return some (.file content)
    | .error _ => return none

/-- The names that a path leads to from the current directory. -/
def absoluteNames (fs : Files) (p : Path) : List String :=
  p.steps.foldl
    (fun names step =>
      if step = "" ∨ step = "." then names
      else if step = ".." then names.dropLast
      else names ++ [step])
    (if p.isAbsolute then [] else fs.here)

/-- The absolute place that names lead to. -/
def placeOf (names : List String) : String := "/" ++ "/".intercalate names

/-- Reads which of the places on the way to names are directories, the last one included. -/
def loadWay (root : Tree) (names : List String) : IO Tree := do
  let mut root := root
  for n in List.range (names.length + 1) do
    let place := names.take n
    if (root.get? place).isNone then
      let path := (← IO.currentDir) / placeOf place
      if ← path.isDir then root := root.put place (.directory [])
      else if ← path.pathExists then root := root.put place (.file .empty)
  return root

/-- Reads what is at a path, and what is on the way to it, into the files. -/
def load (wanted : String → Bool) (fs : Files) (p : Path) : IO Files := do
  let names := absoluteNames fs p
  let root ← loadWay fs.root names.dropLast
  match ← readTree wanted (placeOf names) with
  | some t => return { fs with root := root.put names t }
  | none => return { fs with root }

def loadAll (wanted : String → Bool) (fs : Files) (paths : List Path) : IO Files :=
  paths.foldlM (load wanted) fs

/-- The paths that a command reads. -/
def inputs : Command → List Path
  | .build paths _ _ => paths.map Path.mk
  | .render file _ => [⟨file⟩]
  | .validate files => files.map Path.mk

/-- The paths that a command writes. -/
def outputs (s : Settings) (fs : Files) : Command → List Path
  | .build paths out _ =>
    match findDecks s fs paths with
    | .ok ds => ds.map (·.output (s.output? out))
    | .error _ => []
  | _ => []

/-- Reads the files that an invocation can touch. -/
def snapshot (i : Invocation) : IO Files := do
  let here := absoluteNames ⟨.directory [], []⟩ ⟨(← IO.currentDir).toString⟩
  let root ← loadWay (.directory []) here
  let fs ← load (fun _ => true) ⟨root, here⟩ ⟨i.settings⟩
  match Settings.load fs ⟨i.settings⟩ with
  | .error _ => return fs
  | .ok s =>
    let fs ← loadAll (fun name => s.isDeck ⟨name⟩) fs (inputs i.command)
    loadAll (fun _ => true) fs (outputs s fs i.command)

/-- Writes a tree where it differs from what is there. -/
partial def writeBack (place : String) (before : Option Tree) : Tree → IO Unit
  | .file content => do
    let same := match before with
      | some (.file old) => old == content
      | _ => false
    unless same do IO.FS.writeBinFile place content
  | .directory entries => do
    unless before.any (·.isDirectory) do IO.FS.createDirAll place
    for (name, t) in entries do
      writeBack (place ++ "/" ++ name) (before.bind (·.child? name)) t

/-- Runs an invocation on the files as they are. -/
def runOnce (i : Invocation) : IO UInt32 := do
  let before ← snapshot i
  let (after, outcome) := i.run before
  writeBack "" (some before.root) after.root
  IO.print outcome.stdout
  IO.eprint outcome.stderr
  return UInt32.ofNat outcome.exitCode

/-- The texts of the decks that an invocation builds. -/
def deckTexts (i : Invocation) (fs : Files) : List (String × Option String) :=
  match i.command, Settings.load fs ⟨i.settings⟩ with
  | .build paths _ _, .ok s =>
    match findDecks s fs paths with
    | .ok ds => ds.map fun d => (d.path.text, (fs.readText d.path).toOption)
    | .error _ => []
  | _, _ => []

/-- Builds again whenever a deck has changed since it was looked at last. -/
partial def watch (i : Invocation) (last : List (String × Option String)) : IO Unit := do
  IO.sleep 500
  let now := deckTexts i (← snapshot i)
  if now != last then discard (runOnce i)
  watch i now

/-- Runs an invocation, and goes on watching the decks if that is asked for. -/
def runInvocation (i : Invocation) : IO UInt32 := do
  let code ← runOnce i
  match i.command with
  | .build paths _ true =>
    IO.println ("Watching " ++ ", ".intercalate paths ++ " for changes (Ctrl+C to stop)")
    watch i (deckTexts i (← snapshot i))
    return code
  | _ => return code

end Slideshow.Program

open Slideshow Program

def main (arguments : List String) : IO UInt32 := do
  match CommandLine.parse arguments with
  | .ok i => runInvocation i
  | .error stop =>
    let outcome := CommandLine.stopOutcome stop
    IO.print outcome.stdout
    IO.eprint outcome.stderr
    return UInt32.ofNat outcome.exitCode
