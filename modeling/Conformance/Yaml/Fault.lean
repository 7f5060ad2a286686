/-!
# Why a text is not YAML

One constructor for each way in which a stream can fail to be one document, and one function
for their wording. The wording is this library's own and names no place in the text; it is there to
be read, and nothing is decided by it.
-/

namespace Conformance.Yaml

inductive Fault where
  | forbiddenCharacter
  | unexpectedCharacter
  | keyWithoutValue
  | misplacedEntry
  | misplacedKey
  | misplacedValue
  | badDirective
  | badAnchor
  | badTag
  | badBlockHeader
  | tabInIndentation
  | markInScalar
  | unclosedScalar
  | badEscape
  | colonInFlow
  | unexpectedToken
  | undefinedTagHandle
  | unknownAnchor (name : String)
  | severalDocuments
  deriving DecidableEq, Repr

def Fault.message : Fault → String
  | .forbiddenCharacter => "control characters are not allowed"
  | .unexpectedCharacter => "found a character that cannot start a token"
  | .keyWithoutValue => "could not find the ':' of a key"
  | .misplacedEntry => "a block sequence entry is not allowed here"
  | .misplacedKey => "a mapping key is not allowed here"
  | .misplacedValue => "a mapping value is not allowed here"
  | .badDirective => "found a directive that is not understood"
  | .badAnchor => "found an anchor or alias without a proper name"
  | .badTag => "found a tag that is not well formed"
  | .badBlockHeader => "found a block scalar header that is not well formed"
  | .tabInIndentation => "found a tab where indentation is expected"
  | .markInScalar => "found a document mark inside a quoted scalar"
  | .unclosedScalar => "found the end of the text inside a quoted scalar"
  | .badEscape => "found an escape that is not well formed"
  | .colonInFlow => "found an unexpected ':' in a plain scalar"
  | .unexpectedToken => "found a token that does not continue the document"
  | .undefinedTagHandle => "found a tag handle that is not defined"
  | .unknownAnchor name => "unknown anchor " ++ name
  | .severalDocuments => "found more than one document"

end Conformance.Yaml
