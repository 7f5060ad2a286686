/-!
# The characters of a YAML stream

A stream is read as placed characters: each one carries its offset, line and column, and every
line break is a single character, so that later stages see blanks, breaks and columns and never
count. Offsets count octets, columns count characters.
-/

namespace Conformance.Yaml

/-- The characters a stream may hold. -/
def isAllowed (c : Char) : Bool :=
  let n := c.toNat
  n == 9 || n == 10 || n == 13 || (0x20 ≤ n && n ≤ 0x7E) || n == 0x85 ||
    (0xA0 ≤ n && n ≤ 0xD7FF) || (0xE000 ≤ n && n ≤ 0xFFFD) || 0x10000 ≤ n

/-- Line breaks after `place`: all those that fold are line feeds. -/
def isBreak (c : Char) : Bool :=
  c == '\n' || c == '\u2028' || c == '\u2029'

def isBlank (c : Char) : Bool :=
  c == ' ' || c == '\t'

/-- The characters of names: of anchors, directives and tag handles. -/
def isWord (c : Char) : Bool :=
  c.isAlphanum || c == '-' || c == '_'

structure Placed where
  char : Char
  /-- How many octets stand before it. -/
  offset : Nat
  line : Nat
  column : Nat
  deriving DecidableEq, Repr

/-- The characters from a place on, with one line feed for each break of one or two characters. -/
def place (offset line column : Nat) : List Char → List Placed
  | [] => []
  | '\r' :: '\n' :: rest => ⟨'\n', offset, line, column⟩ :: place (offset + 2) (line + 1) 0 rest
  | c :: rest =>
    let next := offset + c.utf8Size
    let c := if c = '\r' ∨ c = '\u0085' then '\n' else c
    if isBreak c then ⟨c, offset, line, column⟩ :: place next (line + 1) 0 rest
    else ⟨c, offset, line, column⟩ :: place next line (column + 1) rest

def placed (text : List Char) : List Placed :=
  place 0 0 0 text

/-- Whether a mark of byte order opens a line here: it belongs to no token but takes up its
column. -/
def Placed.isLineMark (p : Placed) : Bool :=
  p.column == 0 && p.char == '\uFEFF'

/-- Whether the text ends here or goes on with a blank or a break. -/
def atGap : List Placed → Bool
  | [] => true
  | p :: _ => isBlank p.char || isBreak p.char

def startsWith (c : Char) : List Placed → Bool
  | [] => false
  | p :: _ => p.char == c

def skipBlanks (text : List Placed) : List Placed :=
  text.dropWhile fun p => isBlank p.char

/-- The text from the end of this line on, its break included. -/
def skipComment (text : List Placed) : List Placed :=
  if startsWith '#' text then text.dropWhile fun p => !isBreak p.char else text

/-- Whether a mark of three equal characters that bounds a document stands here. -/
def atDocumentMark : List Placed → Bool
  | a :: b :: c :: rest =>
    a.column == 0 && (a.char == '-' || a.char == '.') && b.char == a.char && c.char == a.char &&
      atGap rest
  | _ => false

end Conformance.Yaml
