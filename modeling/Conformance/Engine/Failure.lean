import Conformance.Engine.Answer
import Conformance.FrontMatter.Phase

/-!
# Failures

Everything that can stop a run. The type of a failure's error is the name of the thrown object's
constructor or the kind of the compile error; other failures have none, which is a shape that the
harness does not know.
-/

namespace Conformance

/-- Why a thrown value does not name a constructor. -/
inductive ConstructorFault where
  | notAnObject
  | noConstructor
  | constructorNotObject
  deriving DecidableEq, Repr

def ConstructorFault.message : ConstructorFault → String
  | .notAnObject => "error is not an object"
  | .noConstructor => "error does not have a constructor"
  | .constructorNotObject => "error constructor is not an object"

/-- A thrown value, as far as it is looked at. -/
structure Thrown where
  /-- How it is displayed. -/
  text : String
  /-- What looking up the name of its constructor answers. -/
  constructorName : Answer (Except ConstructorFault String)

inductive CompileErrorKind where
  | grammar
  | reference
  | other (category : String)
  deriving DecidableEq, Repr

namespace CompileErrorKind

/-- The name under which a kind is displayed. -/
def title : CompileErrorKind → String
  | .grammar => "SyntaxError"
  | .reference => "ReferenceError"
  | .other category => category

/-- The type of error in the language that a kind stands for. -/
def errorType? : CompileErrorKind → Option String
  | .grammar => some "SyntaxError"
  | .reference => some "ReferenceError"
  | .other _ => none

end CompileErrorKind

structure CompileError where
  kind : CompileErrorKind
  detail : String
  deriving DecidableEq, Repr

def CompileError.text (error : CompileError) : String :=
  error.kind.title ++ ": " ++ error.detail

inductive Failure where
  | thrown (value : Thrown)
  | compile (error : CompileError)
  /-- A harness file cannot be read. -/
  | load (path cause : String)
  | panicked (message : String)

namespace Failure

def text : Failure → String
  | .thrown value => value.text
  | .compile error => error.text
  | .load path cause => "failed to load " ++ path ++ ": " ++ cause
  | .panicked message => "engine panic: " ++ message

/-- The type of a failure's error, or what is odd about the failure. -/
def errorType (failure : Failure) : Answer (Except String String) :=
  let foreign := "error is not a JS error: " ++ failure.text
  match failure with
  | .thrown value =>
    value.constructorName.map fun
      | .ok name => .ok name
      | .error fault => .error (fault.message ++ " (" ++ value.text ++ ")")
  | .compile error =>
    .returned (match error.kind.errorType? with
      | some name => .ok name
      | none => .error foreign)
  | .load .. => .returned (.error foreign)
  | .panicked _ => .returned (.error foreign)

/-- Whether the type of the error is found out by looking at a thrown value. -/
def isThrown : Failure → Bool
  | .thrown _ => true
  | _ => false

end Failure

/-- How a run ended. -/
inductive Outcome where
  | success
  | failure (failure : Failure) (phase : Phase)

namespace Outcome

def isSuccess : Outcome → Bool
  | .success => true
  | .failure .. => false

def phase? : Outcome → Option Phase
  | .success => none
  | .failure _ phase => some phase

end Outcome

end Conformance
