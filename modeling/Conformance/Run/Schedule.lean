import Conformance.Run.Course
import Conformance.Run.Gate
import Conformance.Run.Suite

/-!
# Schedules

Runs may go on side by side. One thread walks the directories, plans the files, and takes a permit
for each run before it hands the run to a worker; the worker takes the run step by step, has it
judged, gives the context up, hands in the result and gives the permit back, while the first
thread goes on. Without parallel runs that thread does the worker's part itself and goes on when
the permit is back. `Step` is what can happen next, whichever thread comes first, and a schedule is
a chain of such steps.

An abort is no step: a schedule goes on past a run that aborts the process, and tells what becomes of
a process only where none of its runs does.

A run meets one of several engines: always the same one where an engine's answers depend on nothing
but what it was asked in that context, and otherwise one that answers as this run is answered.
-/

namespace Conformance

/-- How far a worker has come. -/
inductive Activity (engine : Engine) where
  | running (course : Course engine)
  /-- The run has ended and is to be judged. -/
  | ended (execution : Execution engine)
  /-- The run has been judged; its context, if one is left, is to be given up. -/
  | judged (execution : Execution engine) (adjudication : Adjudication)
  /-- No context is left, and the result is to be handed in. -/
  | settled (ran : Ran)
  /-- The result has been handed in, and the permit is to be given back. -/
  | delivered

namespace Activity

variable {engine : Engine} (world : Files.World) (harness : String) (spec : TestRun)

/-- What comes after a step of a run. -/
def ofAttempt (phase : Phase) : Attempt engine → Activity engine
  | .went course => .running course
  | .finished session => .ended (.ofEnd phase (.ok (), session))
  | .stopped stop session => .ended (.ofEnd phase (.error stop, session))
  | .unopened panic => .ended (.unopened panic)

/-- The worker's next step on its own run, until there is a result to be handed in. -/
def advance : Activity engine → Option (Activity engine)
  | .running course => some (ofAttempt course.phase (course.attempt world harness spec))
  | .ended execution => some (.judged execution (execution.adjudicate spec))
  | .judged execution adjudication => some (.settled (execution.conclude spec adjudication))
  | .settled _ => none
  | .delivered => none

/-- The calls that have been made on the engine. -/
def calls : Activity engine → List Call
  | .running course => course.calls
  | .ended execution => execution.calls
  | .judged execution _ => execution.calls
  | .settled ran => ran.calls
  | .delivered => []

/-- The usage after a step that makes more calls. Where the engine panics in making a context there
is none. -/
def observe (activity next : Activity engine) (usage : Usage) : Usage :=
  match activity, engine.create with
  | .running .opening, .panicked _ => usage
  | _, _ => (next.calls.drop activity.calls.length).foldl Usage.observe usage

end Activity

/-- A holder of a permit, the run that it is for, and the engine that this run meets. -/
structure Worker where
  engine : Engine
  spec : TestRun
  activity : Activity engine

/-- What the first thread still has to do. -/
inductive Errand where
  | walk (dir : String)
  | plan (path : String)
  | task (task : Task)

namespace Suite

variable (suite : Suite)

/-- What walking a directory leaves to be done. -/
def walk (dir : String) : List Errand :=
  match suite.world.tests suite.settings.root dir with
  | .error refusal => [.task (.note (directoryResult dir refusal))]
  | .ok files => (files.filter suite.settings.admits).map .plan

/-- What planning a file leaves to be done. -/
def plan (path : String) : List Errand :=
  (suite.fileTasks path).map .task

/-- What there is to be done for all directories. -/
def errands : List Errand :=
  suite.settings.directories.map .walk

end Suite

namespace Schedule

structure State where
  /-- What the first thread still has to do. -/
  errands : List Errand
  /-- The run for which the first thread has a permit, and which no worker has yet. -/
  hand : Option TestRun
  gate : Gate
  workers : List Worker
  /-- Results in the order in which they were handed in. -/
  results : List Result
  notApplicable : Nat
  /-- The contexts that have been made and given up. -/
  usage : Usage

namespace State

def start (gate : Gate) (errands : List Errand) : State where
  errands
  hand := none
  gate
  workers := []
  results := []
  notApplicable := 0
  usage := {}

/-- Whether the first thread can turn to its next errand: it does not wait for a permit, nor for a
run that it has to see to the end, and has no run in its hand. -/
def IsFree (parallel : Bool) (s : State) : Prop :=
  s.gate.waiting = 0 ∧ s.hand = none ∧ (parallel = true ∨ s.workers = [])

/-- Whether the first thread is held up in asking for a permit: it sleeps, or would go to sleep
again. -/
def IsBlocked (s : State) : Prop :=
  0 < s.gate.asleep ∨ 0 < s.gate.woken ∧ s.gate.capacity ≤ s.gate.inUse

def IsFinal (s : State) : Prop :=
  s.errands = [] ∧ s.hand = none ∧ s.workers = []

/-- The report that is made of all results once every worker has gone. -/
def report (s : State) : Report :=
  Progress.report { results := s.results.toArray, notApplicable := s.notApplicable }

end State

variable (suite : Suite) (engines : Engine → Prop)

inductive Step : State → State → Prop where
  | walk {s : State} {dir : String} {rest : List Errand} :
    s.errands = .walk dir :: rest → s.IsFree suite.settings.parallel →
    Step s { s with errands := suite.walk dir ++ rest }
  | plan {s : State} {path : String} {rest : List Errand} :
    s.errands = .plan path :: rest → s.IsFree suite.settings.parallel →
    Step s { s with errands := suite.plan path ++ rest }
  | note {s : State} {result : Result} {rest : List Errand} :
    s.errands = .task (.note result) :: rest → s.IsFree suite.settings.parallel →
    Step s { s with errands := rest, results := s.results ++ [result] }
  | leaveOut {s : State} {rest : List Errand} :
    s.errands = .task .leaveOut :: rest → s.IsFree suite.settings.parallel →
    Step s { s with errands := rest, notApplicable := s.notApplicable + 1 }
  /-- The first thread asks for a permit while one is free. -/
  | enter {s : State} {spec : TestRun} {rest : List Errand} :
    s.errands = .task (.run spec) :: rest → s.IsFree suite.settings.parallel →
    s.gate.inUse < s.gate.capacity →
    Step s { s with errands := rest, hand := some spec, gate := s.gate.ask }
  /-- The first thread asks for a permit while none is free. -/
  | block {s : State} {spec : TestRun} {rest : List Errand} :
    s.errands = .task (.run spec) :: rest → s.IsFree suite.settings.parallel →
    s.gate.capacity ≤ s.gate.inUse →
    Step s { s with gate := s.gate.ask }
  /-- The first thread, woken, finds a permit. -/
  | enterWoken {s : State} {spec : TestRun} {rest : List Errand} :
    s.errands = .task (.run spec) :: rest → 0 < s.gate.woken → s.gate.inUse < s.gate.capacity →
    Step s { s with errands := rest, hand := some spec, gate := s.gate.recheck }
  /-- The first thread, woken, finds none. -/
  | blockAgain {s : State} :
    0 < s.gate.woken → s.gate.capacity ≤ s.gate.inUse →
    Step s { s with gate := s.gate.recheck }
  /-- The first thread wakes although nobody woke it. -/
  | stir {s : State} :
    0 < s.gate.asleep → Step s { s with gate := s.gate.wakeOne }
  /-- The run goes to a worker, and the permit with it. -/
  | spawn {s : State} {spec : TestRun} {engine : Engine} :
    s.hand = some spec → engines engine →
    Step s { s with hand := none, workers := s.workers ++ [⟨engine, spec, .running .opening⟩] }
  | work {s : State} {before after : List Worker} {engine : Engine} {spec : TestRun}
      {activity next : Activity engine} :
    s.workers = before ++ ⟨engine, spec, activity⟩ :: after →
    activity.advance suite.world suite.settings.harnessDirectory spec = some next →
    Step s { s with
      workers := before ++ ⟨engine, spec, next⟩ :: after
      usage := activity.observe next s.usage }
  | deliver {s : State} {before after : List Worker} {engine : Engine} {spec : TestRun}
      {ran : Ran} :
    s.workers = before ++ ⟨engine, spec, .settled ran⟩ :: after →
    Step s { s with
      workers := before ++ ⟨engine, spec, .delivered⟩ :: after
      results := s.results ++ [ran.result] }
  | giveBack {s : State} {before after : List Worker} {engine : Engine} {spec : TestRun} :
    s.workers = before ++ ⟨engine, spec, .delivered⟩ :: after →
    Step s { s with workers := before ++ after, gate := s.gate.giveBack }

/-- The states that can come after a state. -/
inductive Reaches : State → State → Prop where
  | refl (s : State) : Reaches s s
  | step {s t u : State} : Reaches s t → Step suite engines t u → Reaches s u

end Schedule

end Conformance
