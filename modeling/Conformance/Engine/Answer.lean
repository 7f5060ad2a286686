/-!
# Answers of an engine

Whatever an engine is asked, it answers or it panics. A panic carries a text, or a payload that is
none.
-/

namespace Conformance

/-- What a panic says of itself, if it is a text. -/
structure Panic where
  text? : Option String
  deriving DecidableEq, Repr

def Panic.message (panic : Panic) : String :=
  panic.text?.getD "VM panic (internal error)"

inductive Answer (α : Type) where
  | returned (value : α)
  | panicked (panic : Panic)
  deriving DecidableEq, Repr

namespace Answer

variable {α β : Type}

def isPanicked : Answer α → Bool
  | .returned _ => false
  | .panicked _ => true

def bind (answer : Answer α) (next : α → Answer β) : Answer β :=
  match answer with
  | .returned value => next value
  | .panicked panic => .panicked panic

def map (f : α → β) (answer : Answer α) : Answer β :=
  answer.bind fun value => .returned (f value)

end Answer

end Conformance
