import Conformance.Yaml.Token.Tag
import Conformance.Yaml.Token.Plain
import Conformance.Yaml.Token.Block

/-!
# From characters to tokens

A key of a mapping looks like any other scalar until its `:` is seen, so the lexer remembers where
the last possible key began and puts the token that marks it there afterwards. It also remembers
the columns of the block collections that are open, and ends those that a line leaves.
-/

namespace Conformance.Yaml

/-- Where a key may have begun. -/
structure PendingKey where
  /-- How many tokens stand before it. -/
  token : Nat
  /-- Whether nothing but a key can stand here. -/
  required : Bool
  at_ : Placed

structure Lexer where
  rest : List Placed
  /-- The tokens so far, the last one first, and their number. -/
  tokens : List Token
  count : Nat
  /-- The columns of the open block collections, the innermost first. -/
  indents : List Nat
  pending : Option PendingKey
  /-- The possible keys around each open flow collection, the innermost first. -/
  outer : List (Option PendingKey)
  keyAllowed : Bool

namespace Lexer

def start (text : List Placed) : Lexer where
  rest := text
  tokens := []
  count := 0
  indents := []
  pending := none
  outer := []
  keyAllowed := true

abbrev Step := Except Fault Lexer

def inFlow (l : Lexer) : Bool := !l.outer.isEmpty

/-- The least column that belongs to the innermost block collection. -/
def margin (l : Lexer) : Nat :=
  match l.indents with
  | [] => 0
  | indent :: _ => indent + 1

def emit (token : Token) (l : Lexer) : Lexer :=
  { l with tokens := token :: l.tokens, count := l.count + 1 }

/-- Puts a token in front of which `place` tokens stand. -/
def emitAt (place : Nat) (token : Token) (l : Lexer) : Lexer :=
  { l with tokens := l.tokens.insertIdx (l.count - place) token, count := l.count + 1 }

/-- Passes blanks, comments, line breaks and marks of byte order that open a line. Outside brackets
a new line allows a key, and a tab is no blank where a key is allowed. -/
def skipGap (flow : Bool) (keyAllowed comment : Bool) : List Placed → Bool × List Placed
  | [] => (keyAllowed, [])
  | p :: rest =>
    if isBreak p.char then skipGap flow (keyAllowed || !flow) false rest
    else if comment then skipGap flow keyAllowed true rest
    else if p.isLineMark then skipGap flow keyAllowed false rest
    else if p.char == ' ' || (p.char == '\t' && (flow || !keyAllowed)) then
      skipGap flow keyAllowed false rest
    else if p.char == '#' then skipGap flow keyAllowed true rest
    else (keyAllowed, p :: rest)

def toNextToken (l : Lexer) : Lexer :=
  let (keyAllowed, rest) := skipGap l.inFlow l.keyAllowed false l.rest
  { l with keyAllowed, rest }

/-- Gives up a possible key. -/
def forget : Option PendingKey → Except Fault (Option PendingKey)
  | some key => if key.required then .error .keyWithoutValue else .ok none
  | none => .ok none

def forgetKey (l : Lexer) : Step := do
  pure { l with pending := ← forget l.pending }

/-- Gives up a possible key that began on an earlier line or too many octets ago. -/
def expire (p : Placed) : Option PendingKey → Except Fault (Option PendingKey)
  | some key =>
    if key.at_.line < p.line ∨ key.at_.offset + 1024 < p.offset then forget (some key)
    else .ok (some key)
  | none => .ok none

/-- Gives up the last possible key if it is too old. Those around open brackets only grow older,
so it is enough to look at each of them when its bracket has closed. -/
def expireKey (p : Placed) (l : Lexer) : Step := do
  pure { l with pending := ← expire p l.pending }

/-- Remembers that a key may begin at the next token. -/
def saveKey (p : Placed) (l : Lexer) : Step :=
  if l.keyAllowed then do
    let required := !l.inFlow && l.indents.head? == some p.column
    let l ← l.forgetKey
    pure { l with pending := some ⟨l.count, required, p⟩ }
  else .ok l

/-- Ends the block collections whose column lies beyond what `leaves` allows. -/
def endBlocks (leaves : Nat → Bool) (l : Lexer) : Lexer :=
  if l.inFlow then l
  else
    let closed := l.indents.takeWhile leaves
    { closed.foldl (fun l _ => l.emit .blockEnd) l with indents := l.indents.dropWhile leaves }

/-- Begins a block collection at a column that lies beyond the open ones. -/
def beginBlock (column : Nat) (place : Nat) (token : Token) (l : Lexer) : Lexer :=
  if l.inFlow || column < l.margin then l
  else { l.emitAt place token with indents := column :: l.indents }

def flowStart (token : Token) (p : Placed) (rest : List Placed) (l : Lexer) : Step := do
  let l ← l.saveKey p
  pure { l.emit token with
    pending := none, outer := l.pending :: l.outer, keyAllowed := true, rest }

def flowEnd (token : Token) (rest : List Placed) (l : Lexer) : Step := do
  let l ← l.forgetKey
  let l := match l.outer with
    | [] => l
    | key :: outer => { l with pending := key, outer }
  pure { l.emit token with keyAllowed := false, rest }

def flowEntry (rest : List Placed) (l : Lexer) : Step := do
  let l ← l.forgetKey
  pure { l.emit .flowEntry with keyAllowed := true, rest }

def blockEntry (p : Placed) (rest : List Placed) (l : Lexer) : Step :=
  if !l.inFlow && !l.keyAllowed then .error .misplacedEntry
  else do
    let l ← (l.beginBlock p.column l.count .blockSequenceStart).forgetKey
    pure { l.emit .blockEntry with keyAllowed := true, rest }

def key (p : Placed) (rest : List Placed) (l : Lexer) : Step :=
  if !l.inFlow && !l.keyAllowed then .error .misplacedKey
  else do
    let l ← (l.beginBlock p.column l.count .blockMappingStart).forgetKey
    pure { l.emit .key with keyAllowed := !l.inFlow, rest }

def value (p : Placed) (rest : List Placed) (l : Lexer) : Step :=
  match l.pending with
  | some key =>
    let l := (l.emitAt key.token .key).beginBlock key.at_.column key.token .blockMappingStart
    .ok { l.emit .value with pending := none, keyAllowed := false, rest }
  | none =>
    if !l.inFlow && !l.keyAllowed then .error .misplacedValue
    else
      let l := l.beginBlock p.column l.count .blockMappingStart
      .ok { l.emit .value with keyAllowed := !l.inFlow, rest }

/-- A token that ends every block, such as a mark of a document. -/
def boundary (token : Token) (rest : List Placed) (l : Lexer) : Step := do
  let l ← (l.endBlocks fun _ => true).forgetKey
  pure { l.emit token with keyAllowed := false, rest }

/-- A token that may be a key or begin one. -/
def content (p : Placed) (read : Except Fault (Token × List Placed)) (l : Lexer) : Step := do
  let l ← l.saveKey p
  let (token, rest) ← read
  pure { l.emit token with keyAllowed := false, rest }

def blockScalar (literal : Bool) (rest : List Placed) (l : Lexer) : Step := do
  let l ← l.forgetKey
  let (text, rest) ← Block.read literal (l.indents.headD 0) l.margin rest
  pure { l.emit (.scalar .block (String.ofList text)) with keyAllowed := true, rest }

def plainScalar (p : Placed) (l : Lexer) : Step := do
  let l ← l.saveKey p
  let scanned ← Plain.read l.inFlow l.margin l.rest
  pure { l.emit (.scalar .plain (String.ofList scanned.text)) with
    keyAllowed := scanned.broken, rest := scanned.rest }

def quotedScalar (single : Bool) (rest : List Placed) : Except Fault (Token × List Placed) := do
  let (text, rest) ← Quoted.read single rest
  pure (.scalar .quoted (String.ofList text), rest)

/-- Whether a plain scalar may begin here. -/
def startsPlain (flow : Bool) (p : Placed) (rest : List Placed) : Bool :=
  if p.char == '-' then !(rest.head?.any fun q => isBlank q.char)
  else if p.char == '?' || p.char == ':' then !flow && !atGap rest
  else !(isBlank p.char || isBreak p.char || ",[]\x7b\x7d#&*!|>'\x22%@`".toList.contains p.char)

/-- The token that begins at `p`. -/
def token (p : Placed) (rest : List Placed) (l : Lexer) : Step :=
  if p.column == 0 && p.char == '%' then do
    let l ← (l.endBlocks fun _ => true).forgetKey
    let (token, rest) ← Directive.read rest
    pure { l.emit token with keyAllowed := false, rest }
  else if atDocumentMark (p :: rest) then
    l.boundary (if p.char == '-' then .documentStart else .documentEnd) (rest.drop 2)
  else if p.char == '[' then l.flowStart .flowSequenceStart p rest
  else if p.char == '{' then l.flowStart .flowMappingStart p rest
  else if p.char == ']' then l.flowEnd .flowSequenceEnd rest
  else if p.char == '}' then l.flowEnd .flowMappingEnd rest
  else if p.char == ',' then l.flowEntry rest
  else if p.char == '-' && atGap rest then l.blockEntry p rest
  else if p.char == '?' && (l.inFlow || atGap rest) then l.key p rest
  else if p.char == ':' && (l.inFlow || atGap rest) then l.value p rest
  else if p.char == '*' then l.content p do
    let (name, rest) ← Anchor.read rest
    pure (.alias name, rest)
  else if p.char == '&' then l.content p do
    let (name, rest) ← Anchor.read rest
    pure (.anchor name, rest)
  else if p.char == '!' then l.content p (Tag.read l.inFlow (p :: rest))
  else if p.char == '|' && !l.inFlow then l.blockScalar true rest
  else if p.char == '>' && !l.inFlow then l.blockScalar false rest
  else if p.char == '\x27' then l.content p (quotedScalar true rest)
  else if p.char == '\x22' then l.content p (quotedScalar false rest)
  else if startsPlain l.inFlow p rest then l.plainScalar p
  else .error .unexpectedCharacter

/-- Reads tokens to the end of the text; each uses up a character, and with it fuel. -/
def run : (fuel : Nat) → Lexer → Step
  | 0, _ => .error .unexpectedCharacter
  | fuel + 1, l =>
    let l := l.toNextToken
    match l.rest with
    | [] => (l.endBlocks fun _ => true).forgetKey
    | p :: rest => do
      let l ← l.expireKey p
      let l ← (l.endBlocks fun indent => p.column < indent).token p rest
      run fuel l

end Lexer

/-- The tokens of a text. -/
def tokens (text : List Char) : Except Fault (List Token) :=
  if text.all isAllowed then do
    let source := placed text
    let l ← (Lexer.start source).run (source.length + 1)
    pure l.tokens.reverse
  else .error .forbiddenCharacter

end Conformance.Yaml
