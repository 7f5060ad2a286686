import Conformance.Number.Text
import Conformance.Yaml.Node

/-!
# What a scalar denotes

A plain scalar is null, a truth value or a number if it is spelled like one, and text otherwise;
quoted and block scalars are text. A tag of the language overrides the spelling and may fail to
fit it.
-/

namespace Conformance.Yaml

inductive Number where
  | integer (n : Int)
  | real (x : Binary64)
  deriving DecidableEq, Repr

namespace Number

def same : Number → Number → Bool
  | .integer m, .integer n => m == n
  | .real x, .real y => x.same y
  | _, _ => false

def text : Number → String
  | .integer n => toString n
  | .real x => x.write .scalar

end Number

inductive Denotation where
  | null
  | bool (b : Bool)
  | number (n : Number)
  /-- An integer that takes more than 64 bits. -/
  | wide (n : Int)
  | text (s : String)
  deriving DecidableEq, Repr

namespace Denotation

def isNull (s : List Char) : Bool :=
  ["~", "null", "Null", "NULL"].any fun word => s == word.toList

def bool? (s : List Char) : Option Bool :=
  if ["true", "True", "TRUE"].any fun word => s == word.toList then some true
  else if ["false", "False", "FALSE"].any fun word => s == word.toList then some false
  else none

def dropFront? (front s : List Char) : Option (List Char) :=
  if front.isPrefixOf s then some (s.drop front.length) else none

def isSign (c : Char) : Bool := c == '+' || c == '-'

def startsWithSign : List Char → Bool
  | [] => false
  | c :: _ => isSign c

def digit? (radix : Nat) (c : Char) : Option Nat :=
  let n := c.toNat
  let value :=
    if '0'.toNat ≤ n ∧ n ≤ '9'.toNat then n - '0'.toNat
    else if 'a'.toNat ≤ n ∧ n ≤ 'z'.toNat then n - 'a'.toNat + 10
    else if 'A'.toNat ≤ n ∧ n ≤ 'Z'.toNat then n - 'A'.toNat + 10
    else radix
  if value < radix then some value else none

/-- The value of one digit or more. -/
def natural? (radix : Nat) (s : List Char) : Option Nat :=
  if s = [] then none
  else s.foldlM (fun n c => (digit? radix c).map (radix * n + ·)) 0

/-- Digits with more than one character and a zero in front, a sign apart, are no number. -/
def hasLeadingZero (s : List Char) : Bool :=
  let digits := if startsWithSign s then s.tail else s
  1 < digits.length && digits.head? == some '0' && digits.all Char.isDigit

def radixes : List (String × Nat) := [("0x", 16), ("0o", 8), ("0b", 2)]

/-- The digits behind the mark of a radix, which no sign may follow. -/
def marked? (s : List Char) : Option Nat :=
  radixes.findSome? fun (mark, radix) => (dropFront? mark.toList s).bind (natural? radix)

/-- The magnitude of an integer, with or without the mark of a radix. -/
def magnitude? (s : List Char) : Option Nat :=
  match marked? s with
  | some n => some n
  | none => if hasLeadingZero s then none else natural? 10 s

/-- An integer of any size; a sign may stand in front. -/
def integer? (s : List Char) : Option Int :=
  match s with
  | '-' :: rest => (magnitude? rest).map fun n => -(n : Int)
  | '+' :: rest => (magnitude? rest).map Int.ofNat
  | _ => (magnitude? s).map Int.ofNat

/-- Integers as they are told apart by their size; none beyond 128 bits. -/
def ofInteger? (n : Int) : Option Denotation :=
  if -Int.pow 2 63 ≤ n ∧ n < Int.pow 2 64 then some (.number (.integer n))
  else if -Int.pow 2 127 ≤ n ∧ n < Int.pow 2 128 then some (.wide n)
  else none

def exponent? (s : List Char) : Option Int :=
  match s with
  | [] => some 0
  | c :: rest =>
    if c = 'e' ∨ c = 'E' then
      match rest with
      | '-' :: digits => (natural? 10 digits).map fun n => -(n : Int)
      | '+' :: digits => (natural? 10 digits).map Int.ofNat
      | digits => (natural? 10 digits).map Int.ofNat
    else none

/-- Digits with a point among them or at either end, and perhaps an exponent. -/
def decimal? (negative : Bool) (s : List Char) : Option Binary64 :=
  let whole := s.takeWhile Char.isDigit
  let rest := s.dropWhile Char.isDigit
  let (fraction, rest) := match rest with
    | '.' :: rest => (rest.takeWhile Char.isDigit, rest.dropWhile Char.isDigit)
    | _ => ([], rest)
  let digits := whole ++ fraction
  if digits = [] then none
  else do
    let exponent ← exponent? rest
    let n ← natural? 10 digits
    some (.ofDecimal negative n (exponent - fraction.length))

def isInfinity (s : List Char) : Bool :=
  [".inf", ".Inf", ".INF"].any fun word => s == word.toList

/-- A number that need not be whole; a decimal beyond the range of the type is none. -/
def real? (s : List Char) : Option Binary64 :=
  let unsigned := match s with
    | '+' :: rest => rest
    | _ => s
  if s.head? = some '+' ∧ startsWithSign unsigned then none
  else if isInfinity unsigned then some (.infinite false)
  else if s.head? = some '-' ∧ isInfinity s.tail then some (.infinite true)
  else if [".nan", ".NaN", ".NAN"].any fun word => s == word.toList then some .nan
  else
    let x := match unsigned with
      | '-' :: rest => decimal? true rest
      | _ => decimal? false unsigned
    x.filter Binary64.isFinite

/-- The integer that a text spells, if its size is known. -/
def ofIntegerText? (s : List Char) : Option Denotation :=
  (integer? s).bind ofInteger?

/-- What a plain scalar without a tag denotes. -/
def ofPlain (text : String) : Denotation :=
  let s := text.toList
  if s = [] ∨ isNull s then .null
  else match bool? s with
    | some b => .bool b
    | none => match ofIntegerText? s with
      | some d => d
      | none =>
        if hasLeadingZero s then .text text
        else match real? s with
          | some x => .number (.real x)
          | none => .text text

/-- What a tag asks of a scalar. -/
inductive Demand where
  | boolean
  | integer
  | float
  | null
  deriving DecidableEq, Repr

def Demand.text : Demand → String
  | .boolean => "a boolean"
  | .integer => "an integer"
  | .float => "a float"
  | .null => "null"

/-- What a scalar without a tag denotes. -/
def untagged (style : Style) (text : String) : Denotation :=
  if style = .plain then ofPlain text else .text text

/-- What a scalar denotes, or what its tag asked for in vain. -/
def ofScalar (tag : Option TagName) (style : Style) (text : String) : Except Demand Denotation :=
  let fit (demand : Demand) (d : Option Denotation) : Except Demand Denotation :=
    match d with
    | some d => .ok d
    | none => .error demand
  match tag with
  | none => .ok (untagged style text)
  | some tag =>
    let s := text.toList
    if tag = .core "bool" then fit .boolean ((bool? s).map .bool)
    else if tag = .core "int" then fit .integer (ofIntegerText? s)
    else if tag = .core "float" then fit .float ((real? s).map fun x => .number (.real x))
    else if tag = .core "null" then fit .null (if isNull s then some .null else none)
    else if tag.isLocal then .ok (untagged style text)
    else .ok (.text text)

end Denotation

end Conformance.Yaml
