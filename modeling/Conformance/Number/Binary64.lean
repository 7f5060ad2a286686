/-!
# Binary64 numbers in exact arithmetic

A finite number is a significand times a power of two, so all of its arithmetic is arithmetic
of natural numbers. `ofRatio` is the one place that rounds: to the nearest representable number,
a tie to the even significand, and to infinity beyond the largest one. Quotients, products and
decimal literals are exact ratios that go through it.

Powers are written `Nat.pow` in definitions, so that they have one meaning with Mathlib, which gives
`^` an instance of its own, and without it.
-/

namespace Conformance

/-- Which of its two neighbours a half goes to. -/
inductive Tie where
  | even
  | up
  deriving DecidableEq, Repr

/-- What a half adds to the neighbour below it. -/
def Tie.step : Tie → Nat → Nat
  | .even, below => below % 2
  | .up, _ => 1

/-- The quotient to the nearest natural number. -/
def divNearest (tie : Tie) (num den : Nat) : Nat :=
  let below := num / den
  let twice := 2 * (num % den)
  if twice < den then below
  else if den < twice then below + 1
  else below + tie.step below

/-- `num / den` in units of `base ^ exponent`, again as a ratio. -/
def inUnits (base num den : Nat) (exponent : Int) : Nat × Nat :=
  if 0 ≤ exponent then (num, den * Nat.pow base exponent.toNat)
  else (num * Nat.pow base (-exponent).toNat, den)

inductive Binary64 where
  | finite (negative : Bool) (significand : Nat) (exponent : Int)
  | infinite (negative : Bool)
  | nan
  deriving DecidableEq, Repr

namespace Binary64

def leastExponent : Int := -1074

def greatestExponent : Int := 971

/-- The exponent at which `num / den` fills 53 bits, or the least one. -/
def exponentOf (num den : Nat) : Int :=
  let guess := max ((num.log2 : Int) - den.log2 - 53) leastExponent
  let (n, d) := inUnits 2 num den guess
  if Nat.pow 2 53 ≤ n / d then guess + 1 else guess

/-- The number nearest to `num / den`. -/
def ofRatio (negative : Bool) (num den : Nat) : Binary64 :=
  if num = 0 then .finite negative 0 leastExponent
  else
    let exponent := exponentOf num den
    let (n, d) := inUnits 2 num den exponent
    let rounded := divNearest .even n d
    let (significand, exponent) :=
      if rounded = Nat.pow 2 53 then (Nat.pow 2 52, exponent + 1) else (rounded, exponent)
    if greatestExponent < exponent then .infinite negative
    else .finite negative significand exponent

def ofNat (n : Nat) : Binary64 := ofRatio false n 1

/-- `significand * 2 ^ exponent` as a ratio. -/
def ratio (significand : Nat) (exponent : Int) : Nat × Nat :=
  if 0 ≤ exponent then (significand * Nat.pow 2 exponent.toNat, 1)
  else (significand, Nat.pow 2 (-exponent).toNat)

/-- The sign of `digits * 10 ^ exponent` apart, its nearest number. A literal beyond the range
of the type is decided by its length alone. -/
def ofDecimal (negative : Bool) (digits : Nat) (exponent : Int) : Binary64 :=
  let length : Int := (Nat.toDigits 10 digits).length
  if digits = 0 then .finite negative 0 leastExponent
  else if 400 < length + exponent then .infinite negative
  else if length + exponent < -400 then .finite negative 0 leastExponent
  else if 0 ≤ exponent then ofRatio negative (digits * Nat.pow 10 exponent.toNat) 1
  else ofRatio negative digits (Nat.pow 10 (-exponent).toNat)

/-- The quotient of two counts. -/
def ofQuotient (num den : Nat) : Binary64 :=
  match ofNat num, ofNat den with
  | .finite _ m e, .finite _ m' e' =>
    let (n, d) := ratio m e
    let (n', d') := ratio m' e'
    if m' = 0 then .nan else ofRatio false (n * d') (d * n')
  | _, _ => .nan

def mulNat : Binary64 → Nat → Binary64
  | .finite negative m e, k =>
    let (n, d) := ratio m e
    ofRatio negative (n * k) d
  | x, _ => x

/-- Whether a number that is not negative reaches a count. -/
def atLeast : Binary64 → Nat → Bool
  | .finite false m e, k =>
    let (n, d) := ratio m e
    d * k ≤ n
  | .infinite false, _ => true
  | _, _ => false

def isFinite : Binary64 → Bool
  | .finite .. => true
  | _ => false

/-- Numeric equality, except that an undefined number equals itself: zeros of both signs are
one number. -/
def same : Binary64 → Binary64 → Bool
  | .finite a m e, .finite b m' e' =>
    (m == 0 && m' == 0) || (a == b && m == m' && e == e')
  | x, y => x == y

end Binary64

end Conformance
