import Conformance.Number.Text

/-!
# Durations

Durations are counted in nanoseconds. As text, a duration stands in the largest unit that leaves a
whole part, without zeros at the end of its fraction.
-/

namespace Conformance

structure Duration where
  nanoseconds : Nat
  deriving DecidableEq, Repr, Inhabited

namespace Duration

def zero : Duration := ⟨0⟩

def add (a b : Duration) : Duration := ⟨a.nanoseconds + b.nanoseconds⟩

/-- The full milliseconds. -/
def milliseconds (duration : Duration) : Nat :=
  duration.nanoseconds / Nat.pow 10 6

/-- `count` units of `10 ^ places` nanoseconds each, with the fraction that is left. -/
def inUnit (places nanoseconds : Nat) (unit : String) : String :=
  let whole := Nat.toDigits 10 (nanoseconds / Nat.pow 10 places)
  let digits := padLeft places '0' (Nat.toDigits 10 (nanoseconds % Nat.pow 10 places))
  let fraction := if places = 0 then [] else (digits.reverse.dropWhile (· == '0')).reverse
  String.ofList (whole ++ if fraction = [] then [] else '.' :: fraction) ++ unit

def text (duration : Duration) : String :=
  let n := duration.nanoseconds
  if Nat.pow 10 9 ≤ n then inUnit 9 n "s"
  else if Nat.pow 10 6 ≤ n then inUnit 6 n "ms"
  else if Nat.pow 10 3 ≤ n then inUnit 3 n "µs"
  else inUnit 0 n "ns"

end Duration

end Conformance
