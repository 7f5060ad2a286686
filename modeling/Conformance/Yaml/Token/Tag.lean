import Conformance.Yaml.Fault
import Conformance.Yaml.Token
import Conformance.Yaml.Token.Quoted

/-!
# Tags, anchors and directives

Tokens whose text is a name. The octets of a tag may be written as `%` and two digits; they must
then come in the groups of an encoded character, and a zero octet ends the tag.
-/

namespace Conformance.Yaml

namespace Tag

/-- The characters of a tag; inside `<` and `>` also those that are indicators of the flow. -/
def isTagChar (verbatim : Bool) (c : Char) : Bool :=
  isWord c || ";/?:@&=+$.%!~*'()".toList.contains c || (verbatim && ",[]".toList.contains c)

def octet (c : Char) : UInt8 := c.toNat.toUInt8

/-- `%` and two hexadecimal digits. -/
def escapedOctet? : List Placed → Option (UInt8 × List Placed)
  | p :: q :: r :: rest =>
    if p.char = '%' then do
      let high ← Quoted.hexDigit? q.char
      let low ← Quoted.hexDigit? r.char
      some ((16 * high + low).toUInt8, rest)
    else none
  | _ => none

/-- How many octets follow the first one of an encoded character. -/
def followers? (first : UInt8) : Option Nat :=
  if first < 0x80 then some 0
  else if first &&& 0xE0 = 0xC0 then some 1
  else if first &&& 0xF0 = 0xE0 then some 2
  else if first &&& 0xF8 = 0xF0 then some 3
  else none

/-- The given number of escaped octets that follow a first one. -/
def escapedFollowers? : Nat → List Placed → Option (List UInt8 × List Placed)
  | 0, text => some ([], text)
  | n + 1, text => do
    let (o, rest) ← escapedOctet? text
    if o &&& 0xC0 = 0x80 then
      let (more, rest) ← escapedFollowers? n rest
      some (o :: more, rest)
    else none

/-- The octets of an escaped character. -/
def escaped? (text : List Placed) : Option (List UInt8 × List Placed) := do
  let (first, rest) ← escapedOctet? text
  let (more, rest) ← escapedFollowers? (← followers? first) rest
  some (first :: more, rest)

/-- The octets of the longest run of tag characters; each step uses up fuel. -/
def octets (verbatim : Bool) : (fuel : Nat) → List Placed →
    Except Fault (List UInt8 × List Placed)
  | 0, text => .ok ([], text)
  | _, [] => .ok ([], [])
  | fuel + 1, p :: rest =>
    if isTagChar verbatim p.char then
      if p.char = '%' then
        match escaped? (p :: rest) with
        | none => .error .badTag
        | some (os, rest) => do
          let (more, rest) ← octets verbatim fuel rest
          pure (os ++ more, rest)
      else do
        let (more, rest) ← octets verbatim fuel rest
        pure (octet p.char :: more, rest)
    else .ok ([], p :: rest)

/-- The octets that stand before a zero octet. -/
def beforeZero (os : List UInt8) : List UInt8 :=
  os.takeWhile (· != 0)

def readOctets (verbatim : Bool) (text : List Placed) : Except Fault (List UInt8 × List Placed) :=
  octets verbatim text.length text

def word (text : List Placed) : List Char × List Placed :=
  ((text.takeWhile fun p => isWord p.char).map Placed.char,
    text.dropWhile fun p => isWord p.char)

/-- `!`, a word, and perhaps a second `!`. -/
def handle? : List Placed → Option (List Char × List Placed)
  | [] => none
  | p :: rest =>
    if p.char = '!' then
      let (name, rest) := word rest
      if startsWith '!' rest then some ('!' :: name ++ ['!'], rest.tail)
      else some ('!' :: name, rest)
    else none

/-- What may stand behind a tag. -/
def endsTag (flow : Bool) (text : List Placed) : Bool :=
  atGap text || (flow && startsWith ',' text)

/-- A tag between `<` and `>`. -/
def readVerbatim (text : List Placed) : Except Fault (Token × List Placed) := do
  let (os, rest) ← readOctets true text
  if os = [] ∨ startsWith '>' rest = false then .error .badTag
  else pure (.tag "" (beforeZero os), rest.tail)

/-- A tag with a handle of its own, or one that the handle `!` belongs to; `!` alone is a tag
without a handle. -/
def readShorthand (text : List Placed) : Except Fault (Token × List Placed) :=
  match handle? text with
  | none => .error .badTag
  | some (handle, rest) => do
    if 2 ≤ handle.length ∧ handle.getLast? = some '!' then
      let (os, rest) ← readOctets false rest
      if os = [] then .error .badTag
      else pure (.tag (String.ofList handle) (beforeZero os), rest)
    else
      let (os, rest) ← readOctets false rest
      match beforeZero (handle.tail.map octet ++ os) with
      | [] => pure (.tag "" [octet '!'], rest)
      | os => pure (.tag "!" os, rest)

/-- The tag that begins at a `!`. -/
def read (flow : Bool) (text : List Placed) : Except Fault (Token × List Placed) := do
  let (token, rest) ←
    if startsWith '<' text.tail then readVerbatim (text.drop 2) else readShorthand text
  if endsTag flow rest then pure (token, rest) else .error .badTag

end Tag

namespace Anchor

def endsName (text : List Placed) : Bool :=
  atGap text || text.head?.any fun p => "?:,]\x7d%@`".toList.contains p.char

/-- The name behind `&` or `*`. -/
def read (text : List Placed) : Except Fault (String × List Placed) :=
  let (name, rest) := Tag.word text
  if name = [] ∨ endsName rest = false then .error .badAnchor else .ok (String.ofList name, rest)

end Anchor

namespace Directive

/-- A version number of at most nine digits. -/
def number? (text : List Placed) : Option (Nat × List Placed) :=
  let digits := (text.takeWhile fun p => p.char.isDigit).map Placed.char
  if digits = [] ∨ 9 < digits.length then none
  else some (digits.foldl (fun n c => 10 * n + (c.toNat - '0'.toNat)) 0,
    text.dropWhile fun p => p.char.isDigit)

def readVersion (text : List Placed) : Option (Token × List Placed) := do
  let (major, rest) ← number? (skipBlanks text)
  if startsWith '.' rest then
    let (minor, rest) ← number? rest.tail
    some (.version major minor, rest)
  else none

def readTagHandle (text : List Placed) : Option (Token × List Placed) := do
  let (handle, rest) ← Tag.handle? (skipBlanks text)
  if handle ≠ ['!'] ∧ (handle.length < 2 ∨ handle.getLast? ≠ some '!') then none
  else if !(rest.head?.any fun p => isBlank p.char) then none
  else
    let (os, rest) ← (Tag.readOctets true (skipBlanks rest)).toOption
    if os = [] ∨ atGap rest = false then none
    else some (.tagHandle (String.ofList handle) (Tag.beforeZero os), rest)

/-- The directive behind a `%`, with the rest of its line. -/
def read (text : List Placed) : Except Fault (Token × List Placed) :=
  let (name, rest) := Tag.word text
  let token :=
    if atGap rest = false then none
    else if name = "YAML".toList then readVersion rest
    else if name = "TAG".toList then readTagHandle rest
    else none
  match token with
  | none => .error .badDirective
  | some (token, rest) =>
    match skipComment (skipBlanks rest) with
    | [] => .ok (token, [])
    | p :: rest => if isBreak p.char then .ok (token, rest) else .error .badDirective

end Directive

end Conformance.Yaml
