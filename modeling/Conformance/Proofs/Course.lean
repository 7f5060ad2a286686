import Conformance.Run.Course

/-!
# Step by step and all at once

A run taken one step at a time comes to the same execution as a run taken at once.
`Course.execution` is what a run comes to from some point on, and a step does not change it.
`Completes` and `Stops` follow a course along the list of its steps: up to the end, or up to the
first step that fails. Every course that gets a context does one of the two.
-/

namespace Conformance

variable {engine : Engine} {world : Files.World} {harness : String} {spec : TestRun}

/-- The execution of a run whose body has been compiled, or that stopped before. -/
def Execution.ofPrepared (spec : TestRun) :
    Except Stop engine.Program × Session engine → Execution engine
  | (.ok program, session) => .ofEnd .runtime (Step.run spec.path program session)
  | (.error stop, session) => .ofEnd .early (.error stop, session)

namespace Course

/-- What is to be done with those harness files left, up to the body. -/
def preparation (world : Files.World) (harness : String) (spec : TestRun) (files : List String) :
    Step engine engine.Program :=
  (Step.loadAll world harness files).andThen fun _ => Step.compile spec.path spec.source

/-- The execution that a run comes to. -/
def execution (world : Files.World) (harness : String) (spec : TestRun) :
    Course engine → Execution engine
  | .opening => engine.execute world harness spec
  | .loading session files => .ofPrepared spec (preparation world harness spec files session)
  | .loaded session file source files =>
    .ofPrepared spec (((Step.compile ("harness/" ++ file) source).andThen fun program =>
      (Step.run ("harness/" ++ file) program).andThen fun _ =>
        preparation world harness spec files) session)
  | .compiled session file program files =>
    .ofPrepared spec (((Step.run ("harness/" ++ file) program).andThen fun _ =>
      preparation world harness spec files) session)
  | .ready session program => .ofEnd .runtime (Step.run spec.path program session)

theorem execution_opening :
    (opening : Course engine).execution world harness spec = engine.execute world harness spec :=
  rfl

/-- The execution that a run comes to after a step in that phase. -/
def executionAfter (world : Files.World) (harness : String) (spec : TestRun) (phase : Phase) :
    Attempt engine → Execution engine
  | .went course => course.execution world harness spec
  | .finished session => .ofEnd phase (.ok (), session)
  | .stopped stop session => .ofEnd phase (.error stop, session)
  | .unopened panic => .unopened panic

theorem andThen_assoc {α β γ : Type} (f : Step engine α) (g : α → Step engine β)
    (h : β → Step engine γ) :
    (f.andThen g).andThen h = f.andThen fun value => (g value).andThen h := by
  funext session
  unfold Step.andThen
  cases f session with
  | mk answer after => cases answer <;> rfl

/-- Where the first part of what is left is one step, it goes as that step goes. -/
theorem ofPrepared_andThen {α : Type} (f : Step engine α)
    {rest : α → Step engine engine.Program} {next : α → Session engine → Attempt engine}
    (h : ∀ value session, Execution.ofPrepared spec (rest value session) =
      executionAfter world harness spec .early (next value session)) (session : Session engine) :
    Execution.ofPrepared spec (f.andThen rest session) =
      executionAfter world harness spec .early (Attempt.after next (f session)) := by
  unfold Step.andThen
  cases hf : f session with
  | mk answer after =>
    cases answer with
    | ok value => exact h value after
    | error stop => rfl

/-- A step does not change what a run comes to. -/
theorem execution_eq (course : Course engine) :
    course.execution world harness spec =
      executionAfter world harness spec course.phase (course.attempt world harness spec) := by
  cases course with
  | opening =>
    unfold execution attempt Engine.execute
    cases engine.create with
    | panicked panic => rfl
    | returned context =>
      simp only [executionAfter, execution]
      change _ = Execution.ofPrepared spec (Step.prepare world harness spec ⟨context, [.create]⟩)
      cases Step.prepare world harness spec ⟨context, [.create]⟩ with
      | mk answer after => cases answer <;> rfl
  | loading session files =>
    cases files with
    | nil =>
      change Execution.ofPrepared spec (Step.compile spec.path spec.source session) =
        executionAfter world harness spec .early (.after _ _)
      cases Step.compile spec.path spec.source session with
      | mk answer after => cases answer <;> rfl
    | cons file files =>
      simp only [execution, preparation, Step.loadAll, andThen_assoc, Step.load, attempt]
      cases world.read (Files.join harness file) with
      | error cause => rfl
      | ok source =>
        simp only [andThen_assoc]
        rfl
  | loaded session file source files =>
    exact ofPrepared_andThen _ (fun _ _ => rfl) session
  | compiled session file program files =>
    exact ofPrepared_andThen _ (fun _ _ => rfl) session
  | ready session program =>
    simp only [execution, attempt, phase]
    cases Step.run spec.path program session with
    | mk answer after => cases answer <;> rfl

/-- The steps that are left. -/
def actions (spec : TestRun) : Course engine → List Action
  | .opening => spec.actions
  | .loading _ files => Action.loadingAll files
  | .loaded _ file _ files => .compile file :: .run file :: Action.loadingAll files
  | .compiled _ file _ files => .run file :: Action.loadingAll files
  | .ready .. => [.runBody]

/-- The body runs last, and nothing else happens at run time. -/
theorem actions_eq (spec : TestRun) (course : Course engine) : ∃ later,
    course.actions spec = course.action :: later ∧ (course.phase = .runtime ↔ later = []) := by
  cases course with
  | opening => exact ⟨_, rfl, by simp [phase, Action.loadingAll]⟩
  | loading session files =>
    cases files with
    | nil => exact ⟨[.runBody], rfl, by simp [phase]⟩
    | cons file files =>
      exact ⟨.compile file :: .run file :: Action.loadingAll files, rfl, by simp [phase]⟩
  | loaded session file source files => exact ⟨_, rfl, by simp [phase]⟩
  | compiled session file program files =>
    exact ⟨_, rfl, by simp [phase, Action.loadingAll]⟩
  | ready session program => exact ⟨[], rfl, by simp [phase]⟩

/-- What a step can do: one that succeeds takes itself off the list, only the body ends the run,
which can fail in one way only, and only the first step leaves no context. -/
def Fits (spec : TestRun) (course : Course engine) : Attempt engine → Prop
  | .went next => course.actions spec = course.action :: next.actions spec ∧ next ≠ .opening
  | .finished _ => course.phase = .runtime
  | .stopped stop _ => course.phase = .runtime →
      ∀ failure, stop = .failed failure → ∃ value, failure = .thrown value
  | .unopened _ => course = .opening

theorem fits_after {α : Type} {course : Course engine} (hphase : course.phase = .early)
    {next : α → Session engine → Attempt engine}
    (hnext : ∀ value session, Fits spec course (next value session))
    (answer : Except Stop α × Session engine) : Fits spec course (.after next answer) := by
  obtain ⟨value | stop, session⟩ := answer
  · exact fun hruntime => by simp [hphase] at hruntime
  · exact hnext _ _

theorem fits_attempt (course : Course engine) :
    Fits spec course (course.attempt world harness spec) := by
  cases course with
  | opening =>
    simp only [attempt]
    cases engine.create with
    | returned context => exact ⟨rfl, by simp⟩
    | panicked panic => rfl
  | loading session files =>
    cases files with
    | nil =>
      refine fits_after rfl ?_ _
      exact fun _ _ => ⟨rfl, by simp⟩
    | cons file files =>
      simp only [attempt]
      cases world.read (Files.join harness file) with
      | error cause => exact fun hruntime => by cases hruntime
      | ok source => exact ⟨rfl, by simp⟩
  | loaded session file source files =>
    refine fits_after rfl ?_ _
    exact fun _ _ => ⟨rfl, by simp⟩
  | compiled session file program files =>
    refine fits_after rfl ?_ _
    exact fun _ _ => ⟨rfl, by simp⟩
  | ready session program =>
    simp only [attempt, Step.run]
    rcases (engine.run program session.context).1 with (value | done) | panic
    · exact fun _ failure hfailure => ⟨value, by cases hfailure; rfl⟩
    · rfl
    · exact fun _ failure hfailure => by cases hfailure

theorem actions_of_went {course next : Course engine}
    (h : course.attempt world harness spec = .went next) :
    course.actions spec = course.action :: next.actions spec :=
  (h ▸ fits_attempt course : Fits spec course (.went next)).1

theorem ne_opening_of_went {course next : Course engine}
    (h : course.attempt world harness spec = .went next) : next ≠ .opening :=
  (h ▸ fits_attempt course : Fits spec course (.went next)).2

theorem phase_of_finished {course : Course engine} {session : Session engine}
    (h : course.attempt world harness spec = .finished session) : course.phase = .runtime :=
  (h ▸ fits_attempt course : Fits spec course (.finished session))

theorem thrown_of_stopped {course : Course engine} {failure : Failure} {session : Session engine}
    (h : course.attempt world harness spec = .stopped (.failed failure) session)
    (hphase : course.phase = .runtime) : ∃ value, failure = .thrown value :=
  (h ▸ fits_attempt course : Fits spec course (.stopped _ session)) hphase failure rfl

theorem eq_opening_of_unopened {course : Course engine} {panic : Panic}
    (h : course.attempt world harness spec = .unopened panic) : course = .opening :=
  (h ▸ fits_attempt course : Fits spec course (.unopened panic))

section Paths

variable (world harness spec)

/-- All those steps succeed, up to the end of the body. -/
inductive Completes : Course engine → List Action → Session engine → Prop
  | last {course : Course engine} {session : Session engine} :
    course.attempt world harness spec = .finished session →
    Completes course [course.action] session
  | step {course next : Course engine} {actions : List Action} {session : Session engine} :
    course.attempt world harness spec = .went next → Completes next actions session →
    Completes course (course.action :: actions) session

/-- Those steps succeed, and the step after them does not. -/
inductive Stops : Course engine → List Action → Action → Stop → Session engine → Prop
  | here {course : Course engine} {stop : Stop} {session : Session engine} :
    course.attempt world harness spec = .stopped stop session →
    Stops course [] course.action stop session
  | step {course next : Course engine} {before : List Action} {action : Action} {stop : Stop}
      {session : Session engine} :
    course.attempt world harness spec = .went next → Stops next before action stop session →
    Stops course (course.action :: before) action stop session

end Paths

theorem Completes.execution {course : Course engine} {actions : List Action}
    {session : Session engine} (h : Completes world harness spec course actions session) :
    course.execution world harness spec = .ofEnd .runtime (.ok (), session) := by
  induction h with
  | last h => rw [execution_eq, h, phase_of_finished h, executionAfter]
  | step h _ ih => rw [execution_eq, h, executionAfter, ih]

theorem Completes.actions_eq {course : Course engine} {actions : List Action}
    {session : Session engine} (h : Completes world harness spec course actions session) :
    actions = course.actions spec := by
  induction h with
  | @last course session h =>
    obtain ⟨later, hactions, hlater⟩ := course.actions_eq spec
    rw [hactions, hlater.1 (phase_of_finished h)]
  | step h _ ih => rw [actions_of_went h, ih]

/-- Where a run stops, and in which phase: only the last step belongs to run time. -/
theorem Stops.execution {course : Course engine} {before : List Action} {action : Action}
    {stop : Stop} {session : Session engine}
    (h : Stops world harness spec course before action stop session) :
    ∃ phase later, course.execution world harness spec = .ofEnd phase (.error stop, session) ∧
      course.actions spec = before ++ action :: later ∧ (phase = .runtime ↔ later = []) := by
  induction h with
  | @here course stop session h =>
    obtain ⟨later, hactions, hlater⟩ := course.actions_eq spec
    refine ⟨course.phase, later, ?_, hactions, hlater⟩
    rw [execution_eq, h, executionAfter]
  | step h _ ih =>
    obtain ⟨phase, later, hexecution, hactions, hlater⟩ := ih
    refine ⟨phase, later, ?_, ?_, hlater⟩
    · rw [execution_eq, h, executionAfter, hexecution]
    · rw [actions_of_went h, hactions, List.cons_append]

theorem Stops.thrown {course : Course engine} {before : List Action} {action : Action}
    {failure : Failure} {session : Session engine}
    (h : Stops world harness spec course before action (.failed failure) session)
    (hlast : course.actions spec = before ++ [action]) : ∃ value, failure = .thrown value := by
  generalize hstop : Stop.failed failure = stop at h
  induction h with
  | @here course stop session h =>
    subst hstop
    obtain ⟨later, hactions, hlater⟩ := course.actions_eq spec
    apply thrown_of_stopped h (hlater.2 _)
    simpa [hactions] using hlast
  | step h _ ih =>
    apply ih _ hstop
    simpa [actions_of_went h] using hlast

/-- A course comes to its end, stops at a step, or gets no context. -/
theorem ends (world : Files.World) (harness : String) (spec : TestRun) (course : Course engine) :
    (∃ actions session, Completes world harness spec course actions session) ∨
    (∃ before action stop session, Stops world harness spec course before action stop session) ∨
    ∃ panic, course.execution world harness spec = .unopened panic := by
  -- each step that succeeds leaves a shorter list of steps
  induction hsize : (course.actions spec).length generalizing course with
  | zero =>
    obtain ⟨later, hactions, -⟩ := course.actions_eq spec
    simp [hactions] at hsize
  | succ size ih =>
    cases h : course.attempt world harness spec with
    | went next =>
      rw [actions_of_went h, List.length_cons, Nat.succ_inj] at hsize
      rcases ih next hsize with ⟨actions, session, hnext⟩ |
        ⟨before, action, stop, session, hnext⟩ | ⟨panic, hnext⟩
      · exact .inl ⟨_, session, .step h hnext⟩
      · exact .inr (.inl ⟨_, action, stop, session, .step h hnext⟩)
      · exact .inr (.inr ⟨panic, by rw [execution_eq, h, executionAfter, hnext]⟩)
    | finished session => exact .inl ⟨_, session, .last h⟩
    | stopped stop session => exact .inr (.inl ⟨_, _, stop, session, .here h⟩)
    | unopened panic => exact .inr (.inr ⟨panic, by rw [execution_eq, h, executionAfter]⟩)

end Course

end Conformance
