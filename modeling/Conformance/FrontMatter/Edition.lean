/-!
# Editions

The editions of the language by which tests carry section ids. A run is for one edition, and a
test belongs to it if it carries that edition's id.
-/

namespace Conformance

inductive Edition where
  | es5
  | es6
  | current
  deriving DecidableEq, Repr, Inhabited

namespace Edition

/-- The field of the front matter that holds the edition's id. -/
def key : Edition → String
  | .es5 => "es5id"
  | .es6 => "es6id"
  | .current => "esid"

def name : Edition → String
  | .es5 => "es5"
  | .es6 => "es6"
  | .current => "esid"

def all : List Edition := [es5, es6, current]

/-- The edition of that very name. -/
def named? (name : String) : Option Edition :=
  all.find? (·.name = name)

/-- The edition that a user means, by its name or by its field. -/
def ofText? (text : String) : Option Edition :=
  all.find? fun edition => edition.name = text ∨ edition.key = text

/-- What is said of a text that means no edition. -/
def unknownMessage (text : String) : String :=
  "unknown edition '" ++ text ++ "' (expected es5id, es6id or esid)"

end Edition

end Conformance
