import Conformance.Number.Text

/-!
# JSON values

Objects keep their fields in the order in which they are given.
-/

namespace Conformance

inductive Json where
  | null
  | bool (b : Bool)
  | natural (n : Nat)
  | real (x : Binary64)
  | string (s : String)
  | array (items : List Json)
  | object (fields : List (String × Json))
  deriving Inhabited

namespace Json

/-- What is there, or null. -/
def ofOption {α : Type} (f : α → Json) : Option α → Json
  | none => .null
  | some a => f a

def optionalText (text : Option String) : Json :=
  ofOption .string text

def texts (texts : List String) : Json :=
  .array (texts.map .string)

end Json

end Conformance
