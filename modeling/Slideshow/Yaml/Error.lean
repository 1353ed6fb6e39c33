/-! The reasons for which a text is not a document. -/

namespace Slideshow.Yaml

inductive Error
  | controlCharacter
  | unexpectedCharacter
  | unclosedQuote
  | documentMarkInQuote
  | badEscape
  | tabInIndentation
  | missingColon
  | misplacedEntry
  | misplacedKey
  | misplacedValue
  | badDirective
  | badAnchor
  | badTag
  | badBlockHeader
  | colonInFlow
  | unfinished
  | unexpectedToken
  | undefinedTagHandle
  | unknownAnchor
  | secondDocument
  | tooDeep
  | tooManyAliases
  | duplicateKey
  | wrongTag
  | integerRange
  deriving DecidableEq, Repr

/-- A sentence for each reason. -/
def Error.message : Error → String
  | controlCharacter => "control characters are not allowed"
  | unexpectedCharacter => "found character that cannot start any token"
  | unclosedQuote => "found unexpected end of stream in a quoted scalar"
  | documentMarkInQuote => "found unexpected document indicator in a quoted scalar"
  | badEscape => "found invalid escape sequence"
  | tabInIndentation => "found a tab character where an indentation space is expected"
  | missingColon => "could not find expected ':'"
  | misplacedEntry => "block sequence entries are not allowed in this context"
  | misplacedKey => "mapping keys are not allowed in this context"
  | misplacedValue => "mapping values are not allowed in this context"
  | badDirective => "found invalid directive"
  | badAnchor => "did not find expected alphabetic or numeric character in an anchor"
  | badTag => "found invalid tag"
  | badBlockHeader => "found invalid block scalar header"
  | colonInFlow => "found unexpected ':' in a plain scalar"
  | unfinished => "the document does not end"
  | unexpectedToken => "did not find expected node content"
  | undefinedTagHandle => "found undefined tag handle"
  | unknownAnchor => "unknown anchor"
  | secondDocument => "more than one document"
  | tooDeep => "recursion limit exceeded"
  | tooManyAliases => "repetition limit exceeded"
  | duplicateKey => "duplicate entry in a mapping"
  | wrongTag => "value does not have the type of its tag"
  | integerRange => "integer out of range"

end Slideshow.Yaml
