import Conformance.Yaml.Fault
import Conformance.Yaml.Source

/-!
# Block scalars

A header gives the style, what becomes of the line breaks at the end, and perhaps the
indentation; the lines indented that far follow. In a folded scalar the break between two lines
that begin with a character is a space.
-/

namespace Conformance.Yaml.Block

inductive Chomp where
  | strip
  | clip
  | keep
  deriving DecidableEq, Repr

structure Header where
  chomp : Chomp := .clip
  /-- The columns of indentation beyond those of the parent. -/
  indent : Option Nat := none

def chomp? (c : Char) : Option Chomp :=
  if c = '+' then some .keep else if c = '-' then some .strip else none

def indent? (c : Char) : Option Nat :=
  if c.isDigit then some (c.toNat - '0'.toNat) else none

/-- The marks behind `|` or `>`, each at most once and in either order. -/
def Header.read : List Placed → Header × List Placed
  | [] => ({}, [])
  | p :: rest =>
    match chomp? p.char, indent? p.char with
    | some chomp, _ =>
      match rest with
      | q :: after => match indent? q.char with
        | some n => ({ chomp, indent := some n }, after)
        | none => ({ chomp }, rest)
      | [] => ({ chomp }, [])
    | none, some n =>
      match rest with
      | q :: after => match chomp? q.char with
        | some chomp => ({ chomp, indent := some n }, after)
        | none => ({ indent := some n }, rest)
      | [] => ({ indent := some n }, [])
    | none, none => ({}, p :: rest)

/-- The rest of the header's line must be blank, a comment apart. -/
def endHeader (text : List Placed) : Except Fault (List Placed) :=
  match skipComment (skipBlanks text) with
  | [] => .ok []
  | p :: rest => if isBreak p.char then .ok rest else .error .badBlockHeader

structure Breaks where
  /-- The breaks that were passed, the last one first. -/
  breaks : List Char
  /-- The column that the deepest line of blanks reached. -/
  deepest : Nat
  rest : List Placed

/-- Passes indentation and empty lines, up to `limit` columns of it if there is a limit. -/
def skipBreaks (limit : Option Nat) (breaks : List Char) (deepest : Nat) :
    List Placed → Except Fault Breaks
  | [] => .ok ⟨breaks, deepest, []⟩
  | p :: rest =>
    let inside := limit.all (p.column < ·)
    if inside && p.char == ' ' then skipBreaks limit breaks (max deepest (p.column + 1)) rest
    else if inside && p.char == '\t' then .error .tabInIndentation
    else if isBreak p.char then skipBreaks limit (p.char :: breaks) deepest rest
    else .ok ⟨breaks, deepest, p :: rest⟩

/-- What is known after some lines: the text so far, the break behind the last line, the breaks
of the empty lines after it, and whether that line began with a blank. -/
structure Lines where
  seen : List Char
  lastBreak : List Char
  further : List Char
  wasBlank : Bool

/-- The characters between the lines so far and a line that begins with a blank or not. -/
def Lines.joint (literal nowBlank : Bool) (l : Lines) : List Char :=
  if !literal && l.lastBreak == ['\n'] && !l.wasBlank && !nowBlank then
    if l.further = [] then [' '] else l.further
  else l.further ++ l.lastBreak

/-- Reads the lines whose first character stands at column `indent`. -/
def scan (literal : Bool) (indent : Nat) : (fuel : Nat) → Lines → List Placed →
    Except Fault (Lines × List Placed)
  | 0, lines, text => .ok (lines, text)
  | _, lines, [] => .ok (lines, [])
  | fuel + 1, lines, p :: rest =>
    if p.column ≠ indent then .ok (lines, p :: rest)
    else
      let nowBlank := isBlank p.char
      let line := ((p :: rest).takeWhile fun q => !isBreak q.char).map Placed.char
      let after := (p :: rest).dropWhile fun q => !isBreak q.char
      let seen := line.reverse ++ lines.joint literal nowBlank ++ lines.seen
      match after with
      | [] => .ok (⟨seen, [], [], nowBlank⟩, [])
      | q :: after => do
        let passed ← skipBreaks (some indent) [] 0 after
        scan literal indent fuel ⟨seen, [q.char], passed.breaks, nowBlank⟩ passed.rest

/-- The text of the lines; the breaks at the end are kept as the header says. -/
def Lines.text (chomp : Chomp) (l : Lines) : List Char :=
  (match chomp with
    | .strip => l.seen
    | .clip => l.lastBreak ++ l.seen
    | .keep => l.further ++ (l.lastBreak ++ l.seen)).reverse

/-- The scalar behind `|` or `>`. `parent` is the column of the collection around it and
`margin` the least column its lines may have. -/
def read (literal : Bool) (parent margin : Nat) (text : List Placed) :
    Except Fault (List Char × List Placed) := do
  let (header, rest) := Header.read text
  if header.indent = some 0 then .error .badBlockHeader
  else
    let rest ← endHeader rest
    let given := header.indent.map (parent + ·)
    let passed ← skipBreaks given [] 0 rest
    let indent := given.getD (max passed.deepest (max margin 1))
    let start : Lines := ⟨[], [], passed.breaks, false⟩
    let (lines, rest) ← scan literal indent (rest.length + 1) start passed.rest
    pure (lines.text header.chomp, rest)

end Conformance.Yaml.Block
