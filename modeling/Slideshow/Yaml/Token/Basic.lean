import Slideshow.Yaml.Tag

/-! The tokens of a document: its indicators, those that indentation stands for, and its words. -/

namespace Slideshow.Yaml

inductive Token
  | version (major minor : Nat)
  | handle (handle start : List UInt8)
  | documentStart
  | documentEnd
  | blockListStart
  | blockMappingStart
  | blockEnd
  | flowListStart
  | flowListEnd
  | flowMappingStart
  | flowMappingEnd
  | blockEntry
  | flowEntry
  | key
  | value
  | reference (name : String)
  | anchor (name : String)
  | tag (text : TagText)
  | scalar (text : String) (plain : Bool)
  deriving DecidableEq, Repr

end Slideshow.Yaml
