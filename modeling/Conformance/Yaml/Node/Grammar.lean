import Conformance.Yaml.Fault
import Conformance.Yaml.Node

/-!
# From tokens to nodes

`Node.read` is a grammar of one token of look-ahead: each function reads one kind of collection
from its first token to its last, and returns the tokens after it. Every call uses up fuel, of
which `Stream.read` gives enough for any list of tokens.
-/

namespace Conformance.Yaml

/-- What the tag handles of a document stand for. -/
abbrev Handles := List (String × List UInt8)

def Handles.standard : Handles :=
  [("!", TagName.ofText "!"), ("!!", TagName.core "")]

namespace Node

/-- The tag that a handle and octets make; a tag without a handle is complete. -/
def resolveTag (handles : Handles) (handle : String) (octets : List UInt8) :
    Except Fault TagName :=
  if handle = "" then .ok octets
  else match handles.lookup handle with
    | some front => .ok (front ++ octets)
    | none => .error .undefinedTagHandle

/-- An anchor and a tag, each at most once and in either order. -/
def readProperties (handles : Handles) : List Token →
    Except Fault (Properties String × List Token)
  | .anchor name :: .tag handle octets :: rest
  | .tag handle octets :: .anchor name :: rest => do
    pure ({ anchor := some name, tag := some (← resolveTag handles handle octets) }, rest)
  | .anchor name :: rest => .ok ({ anchor := some name }, rest)
  | .tag handle octets :: rest => do
    pure ({ tag := some (← resolveTag handles handle octets) }, rest)
  | rest => .ok ({}, rest)

/-- Whether an entry of a block sequence that begins here has no node. -/
def endsBlockEntry : List Token → Bool
  | .blockEntry :: _ | .blockEnd :: _ => true
  | _ => false

/-- The same for a sequence that is not indented beyond the mapping around it. -/
def endsFlushEntry : List Token → Bool
  | .blockEntry :: _ | .key :: _ | .value :: _ | .blockEnd :: _ => true
  | _ => false

/-- Whether a key or value of a block mapping that begins here has no node. -/
def endsBlockPart : List Token → Bool
  | .key :: _ | .value :: _ | .blockEnd :: _ => true
  | _ => false

/-- The same inside brackets, for a value. -/
def endsPairValue : List Token → Bool
  | .flowEntry :: _ | .flowSequenceEnd :: _ => true
  | _ => false

def endsPairKey : List Token → Bool
  | .value :: _ | .flowEntry :: _ | .flowSequenceEnd :: _ => true
  | _ => false

def endsFlowValue : List Token → Bool
  | .flowEntry :: _ | .flowMappingEnd :: _ => true
  | _ => false

def endsFlowKey : List Token → Bool
  | .value :: _ | .flowEntry :: _ | .flowMappingEnd :: _ => true
  | _ => false

mutual

/-- A node; `block` says whether a block collection may begin here, and `flush` whether it may be
a sequence that is not indented. A bang alone is kept as a tag like any other, so that a scalar
behind it is a tagged value. -/
def read (handles : Handles) : (fuel : Nat) → (block flush : Bool) → List Token →
    Except Fault (Node String × List Token)
  | 0, _, _, _ => .error .unexpectedToken
  | _, _, _, .alias name :: rest => .ok (.alias name, rest)
  | fuel + 1, block, flush, tokens => do
    let (properties, rest) ← readProperties handles tokens
    match rest, block, flush with
    | .blockEntry :: _, _, true => do
      let (items, rest) ← readFlush handles fuel rest
      pure (.sequence properties items, rest)
    | .scalar style text :: rest, _, _ => pure (.scalar properties style text, rest)
    | .flowSequenceStart :: rest, _, _ => do
      let (items, rest) ← readFlowSequence handles fuel true rest
      pure (.sequence properties items, rest)
    | .flowMappingStart :: rest, _, _ => do
      let (entries, rest) ← readFlowMapping handles fuel true rest
      pure (.mapping properties entries, rest)
    | .blockSequenceStart :: rest, true, _ => do
      let (items, rest) ← readBlockSequence handles fuel rest
      pure (.sequence properties items, rest)
    | .blockMappingStart :: rest, true, _ => do
      let (entries, rest) ← readBlockMapping handles fuel rest
      pure (.mapping properties entries, rest)
    | _, _, _ =>
      if properties.anchor.isSome || properties.tag.isSome then
        pure (.scalar properties .plain "", rest)
      else .error .unexpectedToken

/-- A node, or a missing one if the place ends here. -/
def readUnless (handles : Handles) : (fuel : Nat) → (ends : List Token → Bool) →
    (block flush : Bool) → List Token → Except Fault (Node String × List Token)
  | 0, _, _, _, _ => .error .unexpectedToken
  | fuel + 1, ends, block, flush, tokens =>
    if ends tokens then .ok (missing, tokens) else read handles fuel block flush tokens

def readBlockSequence (handles : Handles) : (fuel : Nat) → List Token →
    Except Fault (List (Node String) × List Token)
  | 0, _ => .error .unexpectedToken
  | _, .blockEnd :: rest => .ok ([], rest)
  | fuel + 1, .blockEntry :: rest => do
    let (item, rest) ← readUnless handles fuel endsBlockEntry true false rest
    let (items, rest) ← readBlockSequence handles fuel rest
    pure (item :: items, rest)
  | _, _ => .error .unexpectedToken

def readFlush (handles : Handles) : (fuel : Nat) → List Token →
    Except Fault (List (Node String) × List Token)
  | 0, _ => .error .unexpectedToken
  | fuel + 1, .blockEntry :: rest => do
    let (item, rest) ← readUnless handles fuel endsFlushEntry true false rest
    let (items, rest) ← readFlush handles fuel rest
    pure (item :: items, rest)
  | _, rest => .ok ([], rest)

def readBlockMapping (handles : Handles) : (fuel : Nat) → List Token →
    Except Fault (List (Node String × Node String) × List Token)
  | 0, _ => .error .unexpectedToken
  | _, .blockEnd :: rest => .ok ([], rest)
  | fuel + 1, .key :: rest => do
    let (key, rest) ← readUnless handles fuel endsBlockPart true true rest
    let (value, rest) ← match rest with
      | .value :: rest => readUnless handles fuel endsBlockPart true true rest
      | _ => pure (missing, rest)
    let (entries, rest) ← readBlockMapping handles fuel rest
    pure ((key, value) :: entries, rest)
  | _, _ => .error .unexpectedToken

/-- The items up to the closing bracket; all but the first follow a comma. -/
def readFlowSequence (handles : Handles) : (fuel : Nat) → (first : Bool) → List Token →
    Except Fault (List (Node String) × List Token)
  | 0, _, _ => .error .unexpectedToken
  | _, _, .flowSequenceEnd :: rest => .ok ([], rest)
  | fuel + 1, false, .flowEntry :: rest => readFlowItem handles fuel rest
  | _, false, _ => .error .unexpectedToken
  | fuel + 1, true, rest => readFlowItem handles fuel rest

/-- An item and those after it, or the closing bracket behind a comma. -/
def readFlowItem (handles : Handles) : (fuel : Nat) → List Token →
    Except Fault (List (Node String) × List Token)
  | 0, _ => .error .unexpectedToken
  | _, .flowSequenceEnd :: rest => .ok ([], rest)
  | fuel + 1, .key :: rest => do
    let (pair, rest) ← readPair handles fuel rest
    let (items, rest) ← readFlowSequence handles fuel false rest
    pure (.mapping {} [pair] :: items, rest)
  | fuel + 1, rest => do
    let (item, rest) ← read handles fuel false false rest
    let (items, rest) ← readFlowSequence handles fuel false rest
    pure (item :: items, rest)

/-- A single pair among the items of a sequence. The token that shows its key to be missing is
passed, whatever it is. -/
def readPair (handles : Handles) : (fuel : Nat) → List Token →
    Except Fault ((Node String × Node String) × List Token)
  | 0, _ => .error .unexpectedToken
  | fuel + 1, rest => do
    let (key, rest) ←
      if endsPairKey rest then pure (missing, rest.tail) else read handles fuel false false rest
    let (value, rest) ← match rest with
      | .value :: rest => readUnless handles fuel endsPairValue false false rest
      | _ => pure (missing, rest)
    pure ((key, value), rest)

/-- The entries up to the closing brace; all but the first follow a comma. -/
def readFlowMapping (handles : Handles) : (fuel : Nat) → (first : Bool) → List Token →
    Except Fault (List (Node String × Node String) × List Token)
  | 0, _, _ => .error .unexpectedToken
  | _, _, .flowMappingEnd :: rest => .ok ([], rest)
  | fuel + 1, false, .flowEntry :: rest => readFlowPart handles fuel rest
  | _, false, _ => .error .unexpectedToken
  | fuel + 1, true, rest => readFlowPart handles fuel rest

/-- An entry and those after it, or the closing brace behind a comma. -/
def readFlowPart (handles : Handles) : (fuel : Nat) → List Token →
    Except Fault (List (Node String × Node String) × List Token)
  | 0, _ => .error .unexpectedToken
  | _, .flowMappingEnd :: rest => .ok ([], rest)
  | fuel + 1, .key :: rest => do
    let (key, rest) ← readUnless handles fuel endsFlowKey false false rest
    let (value, rest) ← match rest with
      | .value :: rest => readUnless handles fuel endsFlowValue false false rest
      | _ => pure (missing, rest)
    let (entries, rest) ← readFlowMapping handles fuel false rest
    pure ((key, value) :: entries, rest)
  | fuel + 1, rest => do
    let (key, rest) ← read handles fuel false false rest
    let (entries, rest) ← readFlowMapping handles fuel false rest
    pure ((key, missing) :: entries, rest)

end

end Node

namespace Stream

/-- The directives of a document: one version at most, and no handle twice. -/
def readDirectives (version : Bool) (handles : Handles) : List Token →
    Except Fault (Handles × List Token)
  | .version major minor :: rest =>
    if version ∨ major ≠ 1 ∨ (minor ≠ 1 ∧ minor ≠ 2) then .error .badDirective
    else readDirectives true handles rest
  | .tagHandle handle octets :: rest =>
    if (handles.lookup handle).isSome then .error .badDirective
    else readDirectives version ((handle, octets) :: handles) rest
  | rest => .ok (handles ++ Handles.standard, rest)

/-- Whether a document that was opened by a mark has no node. -/
def endsContent : List Token → Bool
  | [] | .version .. :: _ | .tagHandle .. :: _ | .documentStart :: _ | .documentEnd :: _ => true
  | _ => false

def isDirective : List Token → Bool
  | .version .. :: _ | .tagHandle .. :: _ | .documentStart :: _ => true
  | _ => false

/-- What may follow the only document. -/
def isOver (tokens : List Token) : Bool :=
  tokens.all (· == .documentEnd)

def enough (tokens : List Token) : Nat := 3 * tokens.length + 3

/-- The root of the only document of a stream. A stream without a document has a missing one. -/
def read (tokens : List Token) : Except Fault (Node String) := do
  if tokens = [] then pure Node.missing
  else
    let (root, rest) ←
      if isDirective tokens then do
        let (handles, rest) ← readDirectives false [] tokens
        match rest with
        | .documentStart :: rest =>
          Node.readUnless handles (enough rest) endsContent true false rest
        | _ => .error .unexpectedToken
      else Node.read Handles.standard (enough tokens) true false tokens
    if isOver rest then pure root else .error .severalDocuments

end Stream

end Conformance.Yaml
