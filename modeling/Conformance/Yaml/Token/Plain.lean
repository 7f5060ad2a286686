import Conformance.Yaml.Fault
import Conformance.Yaml.Fold

/-!
# Plain scalars

A plain scalar runs on over line breaks until a `:` before a gap, a `#` after one, a mark of a
document, a line indented too little or, inside brackets, an indicator of the flow.
-/

namespace Conformance.Yaml.Plain

def isFlowIndicator (c : Char) : Bool :=
  c == ',' || c == '[' || c == ']' || c == '{' || c == '}'

/-- Whether a `:` and an indicator of the flow stand here. -/
def atColonIndicator : List Placed → Bool
  | p :: q :: _ => p.char == ':' && (isFlowIndicator q.char || q.char == '?')
  | _ => false

/-- Whether a character that is neither blank nor break ends the scalar. -/
def ends (flow : Bool) : List Placed → Bool
  | [] => true
  | p :: rest => (p.char == ':' && atGap rest) || (flow && isFlowIndicator p.char)

/-- Whether the scalar may not go on after a gap. -/
def endsAfterGap (flow : Bool) (margin : Nat) : List Placed → Bool
  | [] => true
  | p :: rest =>
    (!flow && p.column < margin) || atDocumentMark (p :: rest) || p.char == '#'

structure Scanned where
  text : List Char
  /-- Whether a line break was passed behind the last character. -/
  broken : Bool
  rest : List Placed

/-- Reads a plain scalar whose lines are indented by `margin` columns. `inGap` tells a gap of no
characters, at the start, from one that was passed. -/
def scan (flow : Bool) (margin : Nat) (seen : List Char) (inGap : Bool) (gap : Gap) :
    List Placed → Except Fault Scanned
  | [] => .ok ⟨seen.reverse, gap.hasBreak, []⟩
  | p :: rest =>
    if isBlank p.char then
      if gap.hasBreak && p.column < margin && p.char == '\t' then .error .tabInIndentation
      else scan flow margin seen true (gap.addBlank p.char) rest
    else if isBreak p.char then scan flow margin seen true (gap.addBreak p.char) rest
    else if inGap && endsAfterGap flow margin (p :: rest) then
      .ok ⟨seen.reverse, gap.hasBreak, p :: rest⟩
    else if flow && atColonIndicator (p :: rest) then .error .colonInFlow
    else if ends flow (p :: rest) then .ok ⟨seen.reverse, gap.hasBreak, p :: rest⟩
    else scan flow margin (p.char :: (gap.text.reverse ++ seen)) false .none rest

def read (flow : Bool) (margin : Nat) (text : List Placed) : Except Fault Scanned :=
  scan flow margin [] false .none text

end Conformance.Yaml.Plain
