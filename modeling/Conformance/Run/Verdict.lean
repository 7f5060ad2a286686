import Conformance.Engine.Basic
import Conformance.FrontMatter.Basic
import Conformance.Problem

/-!
# Verdicts

`adjudicate` judges how a run ended against the failure that the test declares:

| declared | ended with | verdict |
|---|---|---|
| nothing | success | pass |
| nothing | a failure | fail |
| a failure | success | fail |
| a failure | a failure of another phase | fail, with a listing |
| a failure | a failure of that phase, of no known type | fatal, with a listing |
| a failure | a failure of that phase, of another type | fail, with a listing |
| a failure | a failure of that phase and type | pass |

The type is looked at only once the phase is right, and the listing is asked for only where the
table says so.
-/

namespace Conformance

inductive Verdict where
  | pass
  /-- The engine does not conform. -/
  | fail (message : String) (diagnostics : Option String)
  /-- What the engine handed out cannot be judged. -/
  | fatal (message : String) (diagnostics : Option String)
  deriving DecidableEq, Repr

namespace Verdict

def isPass : Verdict → Bool
  | .pass => true
  | _ => false

def message? : Verdict → Option String
  | .pass => none
  | .fail message _ => some message
  | .fatal message _ => some message

def diagnostics? : Verdict → Option String
  | .pass => none
  | .fail _ diagnostics => diagnostics
  | .fatal _ diagnostics => diagnostics

def text : Verdict → String
  | .pass => "PASS"
  | .fail message _ => "FAIL: " ++ message
  | .fatal message _ => "INTERNAL ERROR: " ++ message

end Verdict

/-- What is asked for in order to judge a run. -/
inductive Inquiry where
  /-- The name of a thrown value's constructor. -/
  | constructor
  /-- The listing of the program compiled last. -/
  | dump
  deriving DecidableEq, Repr

/-- A verdict, unless asking for something panicked, and all that was asked for. -/
structure Adjudication where
  verdict : Answer Verdict
  inquiries : List Inquiry

namespace Adjudication

def settled (verdict : Verdict) : Adjudication where
  verdict := .returned verdict
  inquiries := []

/-- A verdict that comes with a listing. -/
def withDump (verdict : Option String → Verdict) (dump : Answer (Option String)) :
    Adjudication where
  verdict := dump.map verdict
  inquiries := [.dump]

def after (inquiries : List Inquiry) (a : Adjudication) : Adjudication :=
  { a with inquiries := inquiries ++ a.inquiries }

end Adjudication

/-- Judges a failure of the right phase by its type. -/
def adjudicateType (name : String) (negative : Negative) (failure : Failure)
    (dump : Answer (Option String)) : Adjudication :=
  let inquiries := if failure.isThrown then [Inquiry.constructor] else []
  match failure.errorType with
  | .panicked panic => ⟨.panicked panic, inquiries⟩
  | .returned (.error odd) =>
    .after inquiries (.withDump
      (.fatal (name ++ ": " ++ (Problem.unexpectedFailureShape odd).message)) dump)
  | .returned (.ok errorType) =>
    .after inquiries (
      if errorType = negative.errorType then .settled .pass
      else .withDump (.fail (name ++ ": unexpected error type (" ++ errorType ++
        "), expected (" ++ negative.errorType ++ ")")) dump)

/-- Judges how the run of that name ended; `dump` answers for the listing. -/
def adjudicate (name : String) (negative : Option Negative) (outcome : Outcome)
    (dump : Answer (Option String)) : Adjudication :=
  match outcome, negative with
  | .success, none => .settled .pass
  | .success, some negative =>
    .settled (.fail (name ++ ": expected failure did not occur (expected " ++
      negative.errorType ++ " in the " ++ negative.phase.name ++ " phase)") none)
  | .failure failure _, none => .settled (.fail (name ++ ": " ++ failure.text) none)
  | .failure failure phase, some negative =>
    if phase = negative.phase then adjudicateType name negative failure dump
    else .withDump (.fail (name ++ ": error " ++ failure.text ++
      " happened at the wrong phase (expected " ++ negative.phase.name ++ ")")) dump

end Conformance
