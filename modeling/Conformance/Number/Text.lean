import Conformance.Number.Shortest

/-!
# Numbers as text

`write` spells a number with its shortest digits; a `Layout` holds the decisions of one format:
which numbers are written out in full, where a tie between two decimals goes, and what stands for
numbers that have no digits.
`fixed` rounds the exact value to a number of decimal places.
-/

namespace Conformance

def padLeft (width : Nat) (c : Char) (text : List Char) : List Char :=
  List.replicate (width - text.length) c ++ text

namespace Binary64

structure Layout where
  /-- Numbers whose point stands after this many digits or fewer are written in full. -/
  longest : Option Int
  /-- And those whose point stands after more than this many. -/
  shortestPoint : Option Int
  tie : Tie
  infinity : String
  undefined : String

/-- Whether digits whose point stands at `point` are written in full. -/
def Layout.positional (layout : Layout) (point : Int) : Bool :=
  layout.longest.all (point ≤ ·) && layout.shortestPoint.all (· < point)

/-- A number in front matter and in JSON: in full from `0.00001` up to sixteen digits, a tie to
the even digit. -/
def Layout.scalar : Layout := ⟨some 16, some (-5), .even, ".inf", ".nan"⟩

/-- A number inside a message: always in full, a tie away from zero. -/
def Layout.message : Layout := ⟨none, none, .up, "inf", "NaN"⟩

/-- Digits in full; a number without a fraction keeps one zero after the point. -/
def positionalText (digits : List Char) (point : Int) : List Char :=
  if point ≤ 0 then '0' :: '.' :: (List.replicate (-point).toNat '0' ++ digits)
  else
    let whole := digits.take point.toNat
    let fraction := digits.drop point.toNat
    whole ++ List.replicate (point.toNat - whole.length) '0' ++ '.' ::
      (if fraction = [] then ['0'] else fraction)

/-- One digit before the point and an exponent of ten. -/
def scientificText (digits : List Char) (point : Int) : List Char :=
  let mantissa := match digits with
    | [] => []
    | [c] => [c]
    | c :: rest => c :: '.' :: rest
  mantissa ++ 'e' :: (toString (point - 1)).toList

def write (layout : Layout) : Binary64 → String
  | .finite negative significand exponent =>
    let unsigned :=
      if significand = 0 then "0.0".toList
      else
        let x := shortest layout.tie significand exponent
        let digits := Nat.toDigits 10 x.digits
        let point := x.exponent + digits.length
        if layout.positional point then positionalText digits point
        else scientificText digits point
    String.ofList (if negative then '-' :: unsigned else unsigned)
  | .infinite negative => (if negative then "-" else "") ++ layout.infinity
  | .nan => layout.undefined

/-- The exact value to `places` decimal places, a tie to the even last digit. -/
def fixed (places : Nat) : Binary64 → String
  | .finite negative significand exponent =>
    let (num, den) := ratio significand exponent
    let rounded := divNearest .even (num * Nat.pow 10 places) den
    let digits := padLeft (places + 1) '0' (Nat.toDigits 10 rounded)
    let whole := digits.take (digits.length - places)
    let fraction := digits.drop (digits.length - places)
    String.ofList ((if negative then ['-'] else []) ++ whole ++
      (if places = 0 then [] else '.' :: fraction))
  | x => x.write .message

end Binary64

end Conformance
