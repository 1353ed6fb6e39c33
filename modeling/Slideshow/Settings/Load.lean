import Slideshow.Files.Basic
import Slideshow.Settings

/-! The settings of a project from the file that holds them. -/

namespace Slideshow

/-- Why the file of the settings is of no use. -/
inductive SettingsError
  | unreadable (path : Path) (cause : FileError)
  | malformed (path : Path)
  deriving DecidableEq, Repr

namespace SettingsError

def message : SettingsError → String
  | unreadable p _ => "Failed to read " ++ p.text
  | malformed p => "Failed to parse " ++ p.text

/-- What is behind an error. -/
def cause : SettingsError → String
  | unreadable _ e => e.message
  | malformed _ => "the settings are not valid"

end SettingsError

/-- The settings in the file at a path; without a file there the defaults hold. -/
def Settings.load (fs : Files) (p : Path) : Except SettingsError Settings :=
  if fs.contains p then
    match fs.readText p with
    | .error e => .error (.unreadable p e)
    | .ok text =>
      match Settings.read? text with
      | some settings => .ok settings
      | none => .error (.malformed p)
  else .ok {}

end Slideshow
