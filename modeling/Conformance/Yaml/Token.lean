/-!
# Tokens

The tokens of a stream between its start and its end. Block collections are marked by tokens of
their own, which stand for changes of indentation.
-/

namespace Conformance.Yaml

inductive Style where
  | plain
  | quoted
  | block
  deriving DecidableEq, Repr

inductive Token where
  | version (major minor : Nat)
  /-- A handle and the octets that stand for it. -/
  | tagHandle (handle : String) (octets : List UInt8)
  | documentStart
  | documentEnd
  | blockSequenceStart
  | blockMappingStart
  | blockEnd
  | flowSequenceStart
  | flowSequenceEnd
  | flowMappingStart
  | flowMappingEnd
  | blockEntry
  | flowEntry
  | key
  | value
  | anchor (name : String)
  | alias (name : String)
  | tag (handle : String) (octets : List UInt8)
  | scalar (style : Style) (text : String)
  deriving DecidableEq, Repr

end Conformance.Yaml
