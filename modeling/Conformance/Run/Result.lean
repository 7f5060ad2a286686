import Conformance.Report.Result
import Conformance.Run.Execution

/-!
# The result of a run

A run is executed, judged, and its context given up. Judging and giving up ask the engine as well;
where it panics then, the result of this one run is an error. A panic in judging gives the context
up while it unwinds; where the context panics as well, the process is aborted. Runs are not timed
here: the duration of a result is zero.
-/

namespace Conformance

/-- The result of a run that has been judged. -/
def TestRun.resultOf (spec : TestRun) (verdict : Verdict) : Result where
  name := spec.name
  path := spec.path
  variant := some spec.variant
  description := spec.matter.description
  grade := .ofVerdict verdict
  duration := .zero
  error := verdict.message?
  diagnostics := verdict.diagnostics?
  expected := spec.matter.negative

/-- The result of a run whose engine panicked after it. -/
def TestRun.panicResult (spec : TestRun) (panic : Panic) : Result where
  name := spec.name
  path := spec.path
  variant := some spec.variant
  description := spec.matter.description
  grade := .error
  duration := .zero
  error := some (spec.name ++ ": engine panic: " ++ panic.message)
  diagnostics := none
  expected := spec.matter.negative

/-- A result and the calls on the engine that led to it. -/
structure Ran where
  /-- What is handed in, unless the process was aborted. -/
  result : Result
  calls : List Call
  aborted : Bool
  deriving DecidableEq

/-- Judges a finished execution. -/
def Execution.adjudicate {engine : Engine} (execution : Execution engine) (spec : TestRun) :
    Adjudication :=
  Conformance.adjudicate spec.name spec.matter.negative execution.outcome execution.dump

/-- The call for the listing, if judging asks for it and there is a context to be asked. -/
def Execution.listingCalls {engine : Engine} (execution : Execution engine)
    (inquiries : List Inquiry) : List Call :=
  if execution.context.isSome && inquiries.contains .dump then [.dump] else []

/-- What comes of a finished execution that has been judged: its context is given up, and the
verdict counts unless the engine panicked while it was asked for or then. -/
def Execution.conclude {engine : Engine} (execution : Execution engine) (spec : TestRun)
    (adjudication : Adjudication) : Ran :=
  let unwinding := adjudication.verdict.isPanicked
  let (answer, calls) := execution.giveUp unwinding
  { result := match adjudication.verdict, answer with
      | .panicked panic, _ => spec.panicResult panic
      | .returned _, .panicked panic => spec.panicResult panic
      | .returned verdict, .returned () => spec.resultOf verdict
    calls := execution.calls ++ execution.listingCalls adjudication.inquiries ++ calls
    aborted := execution.aborted || unwinding && answer.isPanicked }

/-- What is handed in tells of a panic, or of the verdict where there was none. -/
theorem Execution.result_conclude {engine : Engine} (execution : Execution engine)
    (spec : TestRun) (adjudication : Adjudication) :
    (∃ panic, (execution.conclude spec adjudication).result = spec.panicResult panic) ∨
      ∃ verdict, adjudication.verdict = .returned verdict ∧
        (execution.conclude spec adjudication).result = spec.resultOf verdict := by
  unfold conclude
  cases adjudication.verdict with
  | panicked panic => exact .inl ⟨panic, rfl⟩
  | returned verdict =>
    dsimp only
    cases (execution.giveUp (Answer.returned verdict).isPanicked).1 with
    | panicked panic => exact .inl ⟨panic, rfl⟩
    | returned done => exact .inr ⟨verdict, rfl, rfl⟩

/-- Executes and judges one run. -/
def Engine.perform (engine : Engine) (world : Files.World) (harness : String) (spec : TestRun) :
    Ran :=
  let execution := engine.execute world harness spec
  execution.conclude spec (execution.adjudicate spec)

end Conformance
