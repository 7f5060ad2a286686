import Conformance.Run.Result

/-!
# The course of a run

A run taken one step at a time. Its steps are, in order: the context is made; every harness file
is read, compiled and run; the body is compiled; the body is run. `Course.attempt` takes the next
step, and `TestRun.actions` lists all of them.
-/

namespace Conformance

/-- A step of a run. -/
inductive Action where
  | create
  | read (file : String)
  | compile (file : String)
  | run (file : String)
  | compileBody
  | runBody
  deriving DecidableEq, Repr

namespace Action

/-- The steps that load one harness file. -/
def loading (file : String) : List Action :=
  [.read file, .compile file, .run file]

/-- The steps that are left when those harness files are still to be loaded. -/
def loadingAll (files : List String) : List Action :=
  files.flatMap loading ++ [.compileBody, .runBody]

end Action

/-- All steps of a run, in order. -/
def TestRun.actions (spec : TestRun) : List Action :=
  .create :: Action.loadingAll spec.matter.harnessFiles

/-- A run between two steps. -/
inductive Course (engine : Engine) where
  /-- Nothing has been done. -/
  | opening
  /-- Those harness files are still to be loaded. -/
  | loading (session : Session engine) (files : List String)
  /-- A harness file has been read. -/
  | loaded (session : Session engine) (file source : String) (files : List String)
  /-- A harness file has been compiled. -/
  | compiled (session : Session engine) (file : String) (program : engine.Program)
      (files : List String)
  /-- The body has been compiled. -/
  | ready (session : Session engine) (program : engine.Program)

/-- How a step goes. -/
inductive Attempt (engine : Engine) where
  | went (course : Course engine)
  /-- The body has run to its end. -/
  | finished (session : Session engine)
  /-- The step failed or panicked. -/
  | stopped (stop : Stop) (session : Session engine)
  /-- The engine panicked before there was a context. -/
  | unopened (panic : Panic)

/-- The attempt that goes on where a step succeeds. -/
def Attempt.after {engine : Engine} {α : Type} (next : α → Session engine → Attempt engine) :
    Except Stop α × Session engine → Attempt engine
  | (.ok value, session) => next value session
  | (.error stop, session) => .stopped stop session

namespace Course

variable {engine : Engine}

/-- The next step. -/
def action : Course engine → Action
  | .opening => .create
  | .loading _ [] => .compileBody
  | .loading _ (file :: _) => .read file
  | .loaded _ file _ _ => .compile file
  | .compiled _ file _ _ => .run file
  | .ready .. => .runBody

/-- The phase in which the next step fails. -/
def phase : Course engine → Phase
  | .ready .. => .runtime
  | _ => .early

/-- The calls that have been made on the engine, in order. -/
def calls : Course engine → List Call
  | .opening => []
  | .loading session _ => session.calls.reverse
  | .loaded session .. => session.calls.reverse
  | .compiled session .. => session.calls.reverse
  | .ready session _ => session.calls.reverse

variable (world : Files.World) (harness : String) (spec : TestRun)

/-- Takes the next step. -/
def attempt : Course engine → Attempt engine
  | .opening =>
    match engine.create with
    | .panicked panic => .unopened panic
    | .returned context => .went (.loading ⟨context, [.create]⟩ spec.matter.harnessFiles)
  | .loading session [] =>
    .after (fun program session => .went (.ready session program))
      (Step.compile spec.path spec.source session)
  | .loading session (file :: files) =>
    let path := Files.join harness file
    match world.read path with
    | .error cause => .stopped (.failed (.load path cause.message)) session
    | .ok source => .went (.loaded session file source files)
  | .loaded session file source files =>
    .after (fun program session => .went (.compiled session file program files))
      (Step.compile ("harness/" ++ file) source session)
  | .compiled session file program files =>
    .after (fun () session => .went (.loading session files))
      (Step.run ("harness/" ++ file) program session)
  | .ready session program =>
    .after (fun () session => .finished session) (Step.run spec.path program session)

end Course

end Conformance
