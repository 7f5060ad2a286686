import Conformance.Json.Basic

/-!
# JSON text

`compact` writes a value without blanks, `pretty` one item or field a line, two blanks further in
for each level. A string escapes quotes, backslashes and controls, and nothing else.
-/

namespace Conformance.Json

def escapeChar (c : Char) : List Char :=
  if c = '\x22' ∨ c = '\\' then ['\\', c]
  else if c = '\x08' then ['\\', 'b']
  else if c = '\t' then ['\\', 't']
  else if c = '\n' then ['\\', 'n']
  else if c = '\x0c' then ['\\', 'f']
  else if c = '\r' then ['\\', 'r']
  else if c.toNat < 0x20 then ['\\', 'u'] ++ padLeft 4 '0' (Nat.toDigits 16 c.toNat)
  else [c]

def stringText (s : String) : List Char :=
  '\x22' :: (s.toList.flatMap escapeChar ++ ['\x22'])

/-- A number without digits of its own is null. -/
def realText (x : Binary64) : List Char :=
  if x.isFinite then (x.write .scalar).toList else "null".toList

def scalarText : Json → List Char
  | .bool b => (toString b).toList
  | .natural n => Nat.toDigits 10 n
  | .real x => realText x
  | .string s => stringText s
  | _ => "null".toList

mutual

def compactText : Json → List Char
  | .array items => '[' :: (compactItems items ++ [']'])
  | .object fields => '\x7b' :: (compactFields fields ++ ['\x7d'])
  | value => scalarText value

def compactItems : List Json → List Char
  | [] => []
  | [x] => compactText x
  | x :: rest => compactText x ++ ',' :: compactItems rest

def compactFields : List (String × Json) → List Char
  | [] => []
  | [(key, x)] => stringText key ++ ':' :: compactText x
  | (key, x) :: rest => stringText key ++ ':' :: compactText x ++ ',' :: compactFields rest

end

/-- The start of a line at a level. -/
def newLine (level : Nat) : List Char :=
  '\n' :: List.replicate (2 * level) ' '

mutual

def prettyText (level : Nat) : Json → List Char
  | .array items =>
    if items.isEmpty then ['[', ']']
    else '[' :: (prettyItems (level + 1) items ++ newLine level ++ [']'])
  | .object fields =>
    if fields.isEmpty then ['\x7b', '\x7d']
    else '\x7b' :: (prettyFields (level + 1) fields ++ newLine level ++ ['\x7d'])
  | value => scalarText value

def prettyItems (level : Nat) : List Json → List Char
  | [] => []
  | [x] => newLine level ++ prettyText level x
  | x :: rest => newLine level ++ prettyText level x ++ ',' :: prettyItems level rest

def prettyFields (level : Nat) : List (String × Json) → List Char
  | [] => []
  | [(key, x)] => newLine level ++ stringText key ++ ':' :: ' ' :: prettyText level x
  | (key, x) :: rest =>
    newLine level ++ stringText key ++ ':' :: ' ' :: prettyText level x ++
      ',' :: prettyFields level rest

end

def compact (value : Json) : String :=
  String.ofList (compactText value)

def pretty (value : Json) : String :=
  String.ofList (prettyText 0 value)

end Conformance.Json
