import Conformance.Corpus.Plan
import Conformance.Engine.Basic

/-!
# Executions

One run in a context of its own: the harness files are loaded in order, the test is compiled, its
body runs. The first step that fails or panics ends it. What fails before the body runs fails
early.
-/

namespace Conformance

/-- The harness files that every run loads first. -/
def bootstrapFiles : List String := ["assert.js", "sta.js"]

/-- The harness files that a test needs, in the order in which they are loaded. -/
def FrontMatter.harnessFiles (matter : FrontMatter) : List String :=
  bootstrapFiles ++ matter.includes

/-- How one step of a run in a context ended. -/
inductive Stop where
  | failed (failure : Failure)
  | panicked (panic : Panic)

/-- A run under way: its context and the calls made on it, the last one first. -/
structure Session (engine : Engine) where
  context : engine.Context
  calls : List Call

/-- A step of a run: either it goes on with a value, or it stops. -/
abbrev Step (engine : Engine) (α : Type) := Session engine → Except Stop α × Session engine

namespace Step

variable {engine : Engine} {α β : Type}

def andThen (step : Step engine α) (next : α → Step engine β) : Step engine β := fun session =>
  match step session with
  | (.ok value, session) => next value session
  | (.error stop, session) => (.error stop, session)

def stop (failure : Failure) : Step engine α := fun session => (.error (.failed failure), session)

def compile (name source : String) : Step engine engine.Program := fun session =>
  let (answer, context) := engine.compile name source false session.context
  let session : Session engine := ⟨context, .compile name source false :: session.calls⟩
  match answer with
  | .returned (.ok program) => (.ok program, session)
  | .returned (.error error) => (.error (.failed (.compile error)), session)
  | .panicked panic => (.error (.panicked panic), session)

def run (name : String) (program : engine.Program) : Step engine Unit := fun session =>
  let (answer, context) := engine.run program session.context
  let session : Session engine := ⟨context, .run name :: session.calls⟩
  match answer with
  | .returned (.ok ()) => (.ok (), session)
  | .returned (.error value) => (.error (.failed (.thrown value)), session)
  | .panicked panic => (.error (.panicked panic), session)

/-- Reads, compiles and runs one harness file. -/
def load (world : Files.World) (harness file : String) : Step engine Unit :=
  let path := Files.join harness file
  match world.read path with
  | .error cause => stop (.load path cause.message)
  | .ok source =>
    let name := "harness/" ++ file
    (compile name source).andThen (run name)

def loadAll (world : Files.World) (harness : String) : List String → Step engine Unit
  | [] => fun session => (.ok (), session)
  | file :: rest => (load world harness file).andThen fun _ => loadAll world harness rest

/-- Everything that comes before the body runs. -/
def prepare (world : Files.World) (harness : String) (spec : TestRun) :
    Step engine engine.Program :=
  (loadAll world harness spec.matter.harnessFiles).andThen fun _ =>
    compile spec.path spec.source

end Step

/-- A finished run. -/
structure Execution (engine : Engine) where
  outcome : Outcome
  /-- The context that was used; none is left after a panic, which gave it up. -/
  context : Option engine.Context
  /-- The calls made on the engine, in order. -/
  calls : List Call
  /-- Whether the context panicked once more when a panic gave it up. Then the process is gone, and
  nobody sees the rest. -/
  aborted : Bool

namespace Execution

variable {engine : Engine}

/-- The execution that ended in a session, at the phase that had been reached. -/
def ofEnd (phase : Phase) : Except Stop Unit × Session engine → Execution engine
  | (.ok (), session) => ⟨.success, some session.context, session.calls.reverse, false⟩
  | (.error (.failed failure), session) =>
    ⟨.failure failure phase, some session.context, session.calls.reverse, false⟩
  | (.error (.panicked panic), session) =>
    let (answer, calls) := engine.giveUp true session.context
    ⟨.failure (.panicked panic.message) phase, none, session.calls.reverse ++ calls,
      answer.isPanicked⟩

/-- The execution that made no context. -/
def unopened (panic : Panic) : Execution engine where
  outcome := .failure (.panicked panic.message) .early
  context := none
  calls := [.create]
  aborted := false

/-- The listing of the program compiled last. -/
def dump (execution : Execution engine) : Answer (Option String) :=
  match execution.context with
  | none => .returned none
  | some context => engine.dump context

/-- Gives up the context, if one is left. -/
def giveUp (execution : Execution engine) (unwinding : Bool) : Answer Unit × List Call :=
  match execution.context with
  | none => (.returned (), [])
  | some context => engine.giveUp unwinding context

end Execution

/-- Executes one run in a new context. -/
def Engine.execute (engine : Engine) (world : Files.World) (harness : String) (spec : TestRun) :
    Execution engine :=
  match engine.create with
  | .panicked panic => .unopened panic
  | .returned context =>
    match Step.prepare world harness spec ⟨context, [.create]⟩ with
    | (.error stop, session) => .ofEnd .early (.error stop, session)
    | (.ok program, session) => .ofEnd .runtime (Step.run spec.path program session)

end Conformance
