import Conformance.Yaml.Fault
import Conformance.Yaml.Fold

/-!
# Quoted scalars

A scalar in single quotes knows one escape, the quote written twice. One in double quotes knows
those of `simpleEscape?`, code points in two, four or eight hexadecimal digits, and the escaped
line break, which joins two lines without a space.
-/

namespace Conformance.Yaml.Quoted

/-- What a backslash and a character that is not a digit code stand for. -/
def simpleEscape? : Char → Option Char
  | '0' => some '\x00'
  | 'a' => some '\x07'
  | 'b' => some '\x08'
  | 't' | '\t' => some '\t'
  | 'n' => some '\n'
  | 'v' => some '\x0b'
  | 'f' => some '\x0c'
  | 'r' => some '\r'
  | 'e' => some '\x1b'
  | ' ' => some ' '
  | '\x22' => some '\x22'
  | '/' => some '/'
  | '\\' => some '\\'
  | 'N' => some '\u0085'
  | '_' => some '\u00a0'
  | 'L' => some '\u2028'
  | 'P' => some '\u2029'
  | _ => none

/-- How many digits the code after an escape has. -/
def codeLength? : Char → Option Nat
  | 'x' => some 2
  | 'u' => some 4
  | 'U' => some 8
  | _ => none

def hexDigit? (c : Char) : Option Nat :=
  let n := c.toNat
  if '0'.toNat ≤ n ∧ n ≤ '9'.toNat then some (n - '0'.toNat)
  else if 'a'.toNat ≤ n ∧ n ≤ 'f'.toNat then some (n - 'a'.toNat + 10)
  else if 'A'.toNat ≤ n ∧ n ≤ 'F'.toNat then some (n - 'A'.toNat + 10)
  else none

/-- The value of the first `length` characters as hexadecimal digits, and the text after them. -/
def hexCode? : (length value : Nat) → List Placed → Option (Nat × List Placed)
  | 0, value, text => some (value, text)
  | _ + 1, _, [] => none
  | length + 1, value, p :: rest =>
    (hexDigit? p.char).bind fun digit => hexCode? length (16 * value + digit) rest

/-- The character that an escape stands for, read from behind its backslash. -/
def escape? : List Placed → Option (Char × List Placed)
  | [] => none
  | p :: rest =>
    match simpleEscape? p.char with
    | some c => some (c, rest)
    | none =>
      (codeLength? p.char).bind fun length =>
        (hexCode? length 0 rest).bind fun (code, rest) =>
          if code.isValidChar then some (Char.ofNat code, rest) else none

/-- Reads up to the closing quote. `seen` holds the characters so far, the last one first, and
`gap` the blanks since the last word; each step uses up a character, and with it fuel. -/
def scan (single : Bool) : (fuel : Nat) → (seen : List Char) → (gap : Gap) → List Placed →
    Except Fault (List Char × List Placed)
  | 0, _, _, _ => .error .unclosedScalar
  | _, _, _, [] => .error .unclosedScalar
  | fuel + 1, seen, gap, p :: rest =>
    if isBlank p.char then scan single fuel seen (gap.addBlank p.char) rest
    else if isBreak p.char then scan single fuel seen (gap.addBreak p.char) rest
    else if atDocumentMark (p :: rest) then .error .markInScalar
    else
      let seen := gap.text.reverse ++ seen
      if single then
        if p.char = '\x27' then
          if startsWith '\x27' rest then scan single fuel ('\x27' :: seen) .none rest.tail
          else .ok (seen.reverse, rest)
        else scan single fuel (p.char :: seen) .none rest
      else if p.char = '\x22' then .ok (seen.reverse, rest)
      else if p.char = '\\' then
        match rest with
        | [] => .error .badEscape
        | q :: after =>
          if isBreak q.char then scan single fuel seen (.breaks .none []) after
          else match escape? rest with
            | none => .error .badEscape
            | some (c, after) => scan single fuel (c :: seen) .none after
      else scan single fuel (p.char :: seen) .none rest

/-- The scalar behind an opening quote. -/
def read (single : Bool) (text : List Placed) : Except Fault (List Char × List Placed) :=
  scan single (text.length + 1) [] .none text

end Conformance.Yaml.Quoted
