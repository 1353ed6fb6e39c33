import Slideshow.Yaml.Error
import Slideshow.Yaml.Value

/-! Why a text or a value is not a deck, and where. -/

namespace Slideshow

open Yaml (Shape)

/-- The name by which the document as a whole is called in messages. -/
def rootName : String := "<root>"

/-- What a place of a document must hold. -/
inductive Expectation
  | sections
  | scalarKey
  | sectionBody
  | elements
  | mergeSources
  deriving DecidableEq, Repr

/-- What a place must hold and what it holds instead. -/
structure Malformation where
  expected : Expectation
  found : Shape
  deriving DecidableEq, Repr

def Expectation.describe : Expectation → String
  | sections => "expected a mapping of sections"
  | scalarKey => "keys must be scalars"
  | sectionBody => "expected a list of elements or a mapping of subsections"
  | elements => "expected a list of elements"
  | mergeSources => "merge key expects a mapping or a list of mappings"

def Malformation.reason (m : Malformation) : String :=
  m.expected.describe ++ ", found " ++ m.found.describe

/-- Why loading a deck failed; `place` is the dotted name of a section or subsection. -/
inductive LoadError
  | yaml (cause : Yaml.Error)
  | malformed (place : String) (fault : Malformation)
  deriving DecidableEq, Repr

namespace LoadError

def message : LoadError → String
  | yaml cause => "Invalid YAML: " ++ cause.message
  | malformed place fault => "Malformed section '" ++ place ++ "': " ++ fault.reason

/-- The section that an error is reported for. -/
def place : LoadError → String
  | yaml _ => rootName
  | malformed place _ => place

end LoadError

end Slideshow
