import Slideshow.Build.Discovery
import Slideshow.Deck.Load
import Slideshow.Markup.Render

/-! Building: every deck that is found is compiled into a module, and written unless that module is
there already. A deck that fails does not keep the others from being built. -/

namespace Slideshow

/-- Why a deck was not built. -/
inductive BuildError
  | unreadable (path : Path) (cause : FileError)
  | notADeck (path : Path) (cause : LoadError)
  | noDirectory (path : Path) (cause : FileError)
  | unwritable (path : Path) (cause : FileError)
  deriving DecidableEq, Repr

/-- A failed action on a path, and why it failed. -/
def failure (action : String) (path : Path) (cause : String) : String :=
  "Failed to " ++ action ++ " '" ++ path.text ++ "': " ++ cause

def BuildError.message : BuildError → String
  | unreadable p e => failure "read" p e.message
  | notADeck p e => failure "compile" p e.message
  | noDirectory p e => failure "create" p e.message
  | unwritable p e => failure "write" p e.message

inductive BuildOutcome
  | built
  | unchanged
  | failed (error : BuildError)
  deriving DecidableEq, Repr

/-- The module of the deck file at a path. -/
def compileFile (rules : RuleSet) (fs : Files) (p : Path) : Except BuildError String :=
  match fs.readText p with
  | .error e => .error (.unreadable p e)
  | .ok text =>
    match Deck.read text with
    | .error e => .error (.notADeck p e)
    | .ok deck => .ok (deck.toModule rules)

/-- The files with the directory above a path created. -/
def createParent (fs : Files) (p : Path) : Files × Except BuildError Unit :=
  match p.parent? with
  | none => (fs, .ok ())
  | some above =>
    match fs.createDirectories above with
    | (fs, .ok ()) => (fs, .ok ())
    | (fs, .error e) => (fs, .error (.noDirectory above e))

/-- Writes a module unless the same text is there already. -/
def writeModule (fs : Files) (output : Path) (text : String) : Files × BuildOutcome :=
  if (fs.readText output).toOption = some text then (fs, .unchanged)
  else match createParent fs output with
    | (fs, .error e) => (fs, .failed e)
    | (fs, .ok ()) =>
      match fs.writeText output text with
      | .ok fs => (fs, .built)
      | .error e => (fs, .failed (.unwritable output e))

/-- Compiles one deck and writes its module. -/
def DeckSource.build (rules : RuleSet) (out : Option Path) (fs : Files) (d : DeckSource) :
    Files × BuildOutcome :=
  match compileFile rules fs d.path with
  | .error e => (fs, .failed e)
  | .ok text => writeModule fs (d.output out) text

/-- What came of each deck, in order. -/
abbrev BuildReport := List (DeckSource × BuildOutcome)

/-- Builds decks one after another. -/
def buildDecks (rules : RuleSet) (out : Option Path) (fs : Files) :
    List DeckSource → Files × BuildReport
  | [] => (fs, [])
  | d :: ds =>
    let first := d.build rules out fs
    let rest := buildDecks rules out first.1 ds
    (rest.1, (d, first.2) :: rest.2)

/-- The output directory: the one asked for, or else that of the settings. -/
def Settings.output? (s : Settings) (out : Option String) : Option Path :=
  (out.or s.outDir).map Path.mk

/-- Builds the decks that arguments stand for. Nothing is done if one of them is missing. -/
def build (s : Settings) (out : Option String) (fs : Files) (arguments : List String) :
    Except MissingArgument (Files × BuildReport) := do
  let decks ← findDecks s fs arguments
  return buildDecks s.rules (s.output? out) fs decks

namespace BuildReport

def isFailure : BuildOutcome → Bool
  | .failed _ => true
  | _ => false

def builtCount (r : BuildReport) : Nat := r.countP fun e => e.2 == .built

def unchangedCount (r : BuildReport) : Nat := r.countP fun e => e.2 == .unchanged

def failedCount (r : BuildReport) : Nat := r.countP fun e => isFailure e.2

/-- What is said of a build in which decks failed. -/
def failureMessage (r : BuildReport) : String :=
  toString r.failedCount ++ " deck(s) failed to compile"

end BuildReport

end Slideshow
