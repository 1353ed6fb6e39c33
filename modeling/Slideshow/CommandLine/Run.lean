import Slideshow.Build.Report
import Slideshow.CommandLine.Basic
import Slideshow.Diagnostic
import Slideshow.Settings.Load

/-! What each command does to the files, and what it prints. -/

namespace Slideshow

/-- The exit code of a command and the two texts that it prints. -/
structure CommandOutcome where
  exitCode : Nat := 0
  stdout : String := ""
  stderr : String := ""
  deriving DecidableEq, Repr

namespace CommandOutcome

/-- Lines, each ended. -/
def endLines (ls : List String) : String := String.join (ls.map (· ++ "\n"))

/-- The end of a command that an error stops after it has printed something. -/
def failed (stdout : List String) (message : String) : CommandOutcome :=
  ⟨1, endLines stdout, endLines ["Error: " ++ message]⟩

end CommandOutcome

open CommandOutcome

namespace CommandLine

/-- A line on a deck that was built. -/
def builtLine (out : Option Path) (d : DeckSource) : String :=
  "  deck " ++ d.path.text ++ " → " ++ (d.output out).text

/-- The counts of a report; how many were unchanged or failed is told when there are any. -/
def summaryLine (r : BuildReport) : String :=
  let optional (n : Nat) (what : String) := if 0 < n then [toString n ++ what] else []
  "Build complete: " ++ ", ".intercalate (
    [toString r.builtCount ++ " built"] ++ optional r.unchangedCount " unchanged" ++
      optional r.failedCount " failed")

/-- What a build prints: a line for each deck built, and the counts, unless it is quiet. -/
def reportLines (quiet : Bool) (out : Option Path) (r : BuildReport) : List String :=
  if quiet then []
  else
    (r.filterMap fun e => if e.2 = .built then some (builtLine out e.1) else none) ++
      [summaryLine r]

/-- The line on a deck that failed. -/
def failureLine? : DeckSource × BuildOutcome → Option String
  | (_, .failed e) => some ("error: " ++ e.message)
  | _ => none

/-- What a build ends with. -/
def buildOutcome (quiet : Bool) (out : Option Path) (r : BuildReport) : CommandOutcome :=
  let errors := r.filterMap failureLine?
  let stdout := endLines (reportLines quiet out r)
  if 0 < r.failedCount then
    ⟨1, stdout, endLines (errors ++ ["Error: " ++ r.failureMessage])⟩
  else ⟨0, stdout, endLines errors⟩

def runBuild (s : Settings) (quiet : Bool) (paths : List String) (out : Option String)
    (fs : Files) : Files × CommandOutcome :=
  match build s out fs paths with
  | .error e => (fs, .failed [] e.message)
  | .ok (fs, report) => (fs, buildOutcome quiet (s.output? out) report)

/-- The message on a file that cannot be read. -/
def unreadable (file : String) (e : FileError) : String := failure "read" ⟨file⟩ e.message

/-- Prints the markup of a deck, escaped unless it is to be raw. -/
def runRender (s : Settings) (file : String) (raw : Bool) (fs : Files) : CommandOutcome :=
  match fs.readText ⟨file⟩ with
  | .error e => .failed [] (unreadable file e)
  | .ok text =>
    match Deck.read text with
    | .error e => .failed [] (file ++ ": " ++ e.message)
    | .ok deck =>
      ⟨0, endLines [if raw then deck.render s.rules else deck.compile s.rules], ""⟩

/-- The diagnostics of a text: those of its deck, or the one that it is no deck. -/
def diagnosticsOf (rules : RuleSet) (text : String) : List Diagnostic :=
  match Deck.read text with
  | .ok deck => deck.diagnostics rules
  | .error e => [e.diagnostic]

def diagnosticLine (file : String) (d : Diagnostic) : String :=
  file ++ ":" ++ d.place ++ ": " ++ d.finding.severity.name ++ ": [" ++ d.finding.code ++ "] " ++
    d.finding.message

/-- The lines on the diagnostics of one file. -/
def fileLines (file : String) (ds : List Diagnostic) : List String :=
  if ds.isEmpty then [file ++ ": OK"] else ds.map (diagnosticLine file)

/-- Prints the diagnostics of files, after the lines printed before; it fails if any is an error,
and stops at a file that cannot be read. -/
def validateFiles (rules : RuleSet) (fs : Files) (printed : List String) (failing : Bool) :
    List String → CommandOutcome
  | [] => ⟨if failing then 1 else 0, endLines printed, ""⟩
  | file :: files =>
    match fs.readText ⟨file⟩ with
    | .error e => .failed printed (unreadable file e)
    | .ok text =>
      let ds := diagnosticsOf rules text
      validateFiles rules fs (printed ++ fileLines file ds)
        (failing || ds.any (·.finding.severity == .error)) files

def runValidate (s : Settings) (files : List String) (fs : Files) : CommandOutcome :=
  validateFiles s.rules fs [] false files

/-- Runs a command under settings. Only a build changes files. -/
def runCommand (s : Settings) (quiet : Bool) (fs : Files) : Command → Files × CommandOutcome
  | .build paths out _ => runBuild s quiet paths out fs
  | .render file raw => (fs, runRender s file raw fs)
  | .validate files => (fs, runValidate s files fs)

end CommandLine

open CommandLine

/-- Runs a command under the settings that it names. -/
def Invocation.run (i : Invocation) (fs : Files) : Files × CommandOutcome :=
  match Settings.load fs ⟨i.settings⟩ with
  | .error e => (fs, .failed [] (e.message ++ "\n\nCaused by:\n    " ++ e.cause))
  | .ok s => runCommand s i.quiet fs i.command

namespace CommandLine

def usageText : String :=
  "Compile YAML slide decks into embeddable markup modules\n\n" ++
  "Usage: slidedeck [OPTIONS] <COMMAND>\n\n" ++
  "Commands:\n" ++
  "  build [PATHS]... [--out <OUT>] [--watch]  Compile decks into .js modules\n" ++
  "  render <FILE> [--raw]                     Print the markup of a deck\n" ++
  "  validate [FILES]...                       Check decks for lost elements\n\n" ++
  "Options:\n" ++
  "  --quiet            Suppress non-essential output\n" ++
  "  --verbose          Enable logging\n" ++
  "  --config <CONFIG>  Path to the settings [default: slidedeck.json]\n" ++
  "  -h, --help         Print help\n" ++
  "  -V, --version      Print version\n"

def versionText : String := "slidedeck 0.1.0\n"

/-- What is printed in place of a command. -/
def stopOutcome : Stop → CommandOutcome
  | .usage => ⟨2, "", usageText⟩
  | .help => ⟨0, usageText, ""⟩
  | .version => ⟨0, versionText, ""⟩

/-- Runs the command line that arguments write. -/
def run (fs : Files) (arguments : List String) : Files × CommandOutcome :=
  match parse arguments with
  | .error stop => (fs, stopOutcome stop)
  | .ok i => i.run fs

end CommandLine

end Slideshow
