import Conformance.Number.Binary64

/-!
# The shortest decimal that reads back

`shortest` takes a positive `significand * 2 ^ exponent` to a decimal with the fewest digits among
those that round to it, and to the nearest of those. Each grid of one to seventeen digits is tried
at the two points around the number; where both read back and lie equally near, `tie` decides.
-/

namespace Conformance

/-- `digits * 10 ^ exponent`. -/
structure Decimal where
  digits : Nat
  exponent : Int
  deriving DecidableEq, Repr

namespace Decimal

/-- The `t` with `10 ^ t ≤ num / den < 10 ^ (t + 1)`, for a positive fraction. -/
def magnitude (num den : Nat) : Int :=
  if den ≤ num then (Nat.toDigits 10 (num / den)).length - 1
  else -((Nat.toDigits 10 ((den - 1) / num)).length : Int)

/-- The decimal without the zeros that end its digits; fuel bounds the number of digits. -/
def stripZeros : Nat → Decimal → Decimal
  | 0, x => x
  | fuel + 1, x =>
    if x.digits ≠ 0 ∧ x.digits % 10 = 0 then stripZeros fuel ⟨x.digits / 10, x.exponent + 1⟩ else x

end Decimal

namespace Binary64

/-- The ratios that round to `significand * 2 ^ exponent`, in quarters of its last place: the
gap below a power of two is half as wide, and the ends belong to an even significand. -/
structure Interval where
  low : Nat
  high : Nat
  closed : Bool

def interval (significand : Nat) (exponent : Int) : Interval where
  low := 4 * significand -
    (if significand = Nat.pow 2 52 ∧ leastExponent < exponent then 1 else 2)
  high := 4 * significand + 2
  closed := significand % 2 = 0

/-- Whether `digits` on the grid of `10 ^ grid` lies in the interval. -/
def Interval.has (i : Interval) (exponent grid : Int) (digits : Nat) : Bool :=
  let (n, d) := ratio 1 (exponent - 2)
  let point := if 0 ≤ grid then digits * Nat.pow 10 grid.toNat * d else digits * d
  let unit := if 0 ≤ grid then n else n * Nat.pow 10 (-grid).toNat
  if i.closed then i.low * unit ≤ point && point ≤ i.high * unit
  else i.low * unit < point && point < i.high * unit

/-- The better of the two points of a grid around the number, if one reads back. -/
def onGrid (tie : Tie) (significand : Nat) (exponent grid : Int) : Option Decimal :=
  let i := interval significand exponent
  let (num, den) := ratio significand exponent
  let (n, d) := inUnits 10 num den grid
  let below := n / d
  match i.has exponent grid below, i.has exponent grid (below + 1) with
  | true, true => some ⟨divNearest tie n d, grid⟩
  | true, false => some ⟨below, grid⟩
  | false, true => some ⟨below + 1, grid⟩
  | false, false => none

def shortest (tie : Tie) (significand : Nat) (exponent : Int) : Decimal :=
  let (num, den) := ratio significand exponent
  let top := Decimal.magnitude num den
  let grids := (List.range 17).map fun (k : Nat) => top - k
  match grids.findSome? (onGrid tie significand exponent) with
  | some x => Decimal.stripZeros 20 x
  | none => ⟨divNearest tie num den, 0⟩

end Binary64

end Conformance
