import Conformance.Text.Find

/-!
# Paths

Paths are texts, kept as they are spelled. `join` puts one path below another, `steps` are the
names a look-up goes through. A slash at the end asks for a directory, which is what one more
step to the place itself asks for as well.
-/

namespace Conformance.Files

def isAbsolute (path : List Char) : Bool :=
  path.head? == some '/'

/-- A path below a base; an absolute path stands alone. -/
def joinChars (base path : List Char) : List Char :=
  if isAbsolute path then path
  else if base = [] ∨ base.getLast? = some '/' then base ++ path
  else base ++ '/' :: path

def join (base path : String) : String :=
  String.ofList (joinChars base.toList path.toList)

/-- Below a directory, however many slashes end its spelling. -/
def below (dir name : String) : String :=
  if dir = "" then name
  else String.ofList (Text.trimTrailing '/' dir.toList ++ '/' :: name.toList)

/-- The names between the slashes; a last slash leads to the place itself. -/
def steps (path : List Char) : List String :=
  let names := (Text.fields '/' path).filter (· ≠ [])
  let names := if path.getLast? = some '/' then names ++ [['.']] else names
  names.map String.ofList

/-- What follows the last dot of a name that does not begin with that dot. -/
def extension? (name : List Char) : Option (List Char) :=
  match name.reverse.span (· ≠ '.') with
  | (_, []) => none
  | (_, [_]) => none
  | (reversed, _ :: _ :: _) => some reversed.reverse

end Conformance.Files
