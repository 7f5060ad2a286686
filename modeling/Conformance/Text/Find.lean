/-!
# Finding one text in another

Texts are lists of characters. `find?` gives the place of the first occurrence, overlapping
occurrences included, `contains` says whether there is one, and `fields` cuts a text at every
occurrence of one character.
-/

namespace Conformance.Text

/-- The place of the first occurrence of `mark` when the text begins at place `start`. -/
def findFrom? (mark : List Char) (start : Nat) : List Char → Option Nat
  | [] => if mark = [] then some start else none
  | c :: rest =>
    if mark.isPrefixOf (c :: rest) then some start else findFrom? mark (start + 1) rest

def find? (mark text : List Char) : Option Nat :=
  findFrom? mark 0 text

def contains (text mark : List Char) : Bool :=
  (find? mark text).isSome

/-- The stretches between the occurrences of `sep`: one more than there are occurrences. -/
def fields (sep : Char) : List Char → List (List Char)
  | [] => [[]]
  | c :: rest =>
    if c = sep then [] :: fields sep rest
    else match fields sep rest with
      | [] => [[c]]
      | field :: more => (c :: field) :: more

theorem fields_ne_nil (sep : Char) (text : List Char) : fields sep text ≠ [] := by
  cases text with
  | nil => simp [fields]
  | cons c rest =>
    rw [fields]
    split
    · simp
    · split <;> simp

/-- What follows `mark` in a text that begins with it. -/
def dropMark? (mark text : List Char) : Option (List Char) :=
  if mark.isPrefixOf text then some (text.drop mark.length) else none

/-- The text without the trailing occurrences of `c`. -/
def trimTrailing (c : Char) (text : List Char) : List Char :=
  (text.reverse.dropWhile (· == c)).reverse

end Conformance.Text
