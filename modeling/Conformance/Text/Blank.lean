/-!
# White space and lines

`isWhite` is the property `White_Space` of the character set, which is wider than the blanks of
any one language. `trim` takes white space off both ends, `lines` cuts a text at its line feeds
and drops a carriage return that stands before one.
-/

namespace Conformance.Text

def isWhite (c : Char) : Bool :=
  let n := c.toNat
  (9 ≤ n && n ≤ 13) || n == 0x20 || n == 0x85 || n == 0xA0 || n == 0x1680 ||
    (0x2000 ≤ n && n ≤ 0x200A) || n == 0x2028 || n == 0x2029 || n == 0x202F || n == 0x205F ||
    n == 0x3000

def trim (text : List Char) : List Char :=
  ((text.dropWhile isWhite).reverse.dropWhile isWhite).reverse

/-- The line without the carriage return at its end. -/
def dropReturn (line : List Char) : List Char :=
  if line.getLast? = some '\r' then line.dropLast else line

/-- Lines with their line feeds taken off; a last line of no characters is no line. -/
def lines (text : List Char) : List (List Char) :=
  go [] text
where
  go (line : List Char) : List Char → List (List Char)
    | [] => if line = [] then [] else [line.reverse]
    | c :: rest => if c = '\n' then dropReturn line.reverse :: go [] rest else go (c :: line) rest

end Conformance.Text
