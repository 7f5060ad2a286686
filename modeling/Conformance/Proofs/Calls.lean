import Conformance.Run.Schedule

/-!
# The calls of a run

A step of a run adds to the calls that have been made and changes none of them. Once there is a
context, all that it adds are compilations and runs, which make no context and give none up.
-/

namespace Conformance

/-- A call that makes no context and gives none up. -/
def Call.IsQuiet (call : Call) : Prop :=
  call ≠ .create ∧ call ≠ .drop

theorem Usage.foldl_observe_of_quiet {calls : List Call} (h : ∀ call ∈ calls, call.IsQuiet)
    (usage : Usage) : calls.foldl observe usage = usage := by
  induction calls with
  | nil => rfl
  | cons call rest ih =>
    have hobserve : usage.observe call = usage := by
      obtain ⟨hcreate, hdrop⟩ := h call List.mem_cons_self
      cases call with
      | create => exact absurd rfl hcreate
      | drop => exact absurd rfl hdrop
      | _ => rfl
    rw [List.foldl_cons, hobserve]
    exact ih fun other hother => h other (List.mem_cons_of_mem call hother)

variable {engine : Engine} {world : Files.World} {harness : String} {spec : TestRun}

/-- The calls that have been made after a step, but for a context that was given up. -/
def Attempt.calls : Attempt engine → List Call
  | .went course => course.calls
  | .finished session => session.calls.reverse
  | .stopped _ session => session.calls.reverse
  | .unopened _ => [.create]

namespace Course

/-- Calls are added, and none of them makes a context or gives one up. -/
def Adds (course : Course engine) (attempt : Attempt engine) : Prop :=
  ∃ added, (∀ call ∈ added, call.IsQuiet) ∧ attempt.calls = course.calls ++ added

theorem adds_after {α : Type} {course : Course engine} {call : Call} (hquiet : call.IsQuiet)
    {next : α → Session engine → Attempt engine}
    (hnext : ∀ value session, (next value session).calls = session.calls.reverse)
    {answer : Except Stop α × Session engine}
    (hanswer : answer.2.calls.reverse = course.calls ++ [call]) :
    course.Adds (.after next answer) := by
  refine ⟨[call], by simpa using hquiet, ?_⟩
  obtain ⟨stop | value, session⟩ := answer
  · exact hanswer
  · exact (hnext value session).trans hanswer

theorem calls_compile (name source : String) (session : Session engine) :
    (Step.compile name source session).2.calls = .compile name source false :: session.calls := by
  unfold Step.compile
  rcases engine.compile name source false session.context with ⟨(error | program) | panic, context⟩
  · rfl
  · rfl
  · rfl

theorem calls_run (name : String) (program : engine.Program) (session : Session engine) :
    (Step.run name program session).2.calls = .run name :: session.calls := by
  unfold Step.run
  rcases engine.run program session.context with ⟨(value | done) | panic, context⟩
  · rfl
  · rfl
  · rfl

theorem adds_of_attempt {course : Course engine} {attempt : Attempt engine}
    (h : course ≠ .opening) (hattempt : course.attempt world harness spec = attempt) :
    course.Adds attempt := by
  subst hattempt
  have hcompile : ∀ name source, (Call.compile name source false).IsQuiet := by simp [Call.IsQuiet]
  have hrun : ∀ name, (Call.run name).IsQuiet := by simp [Call.IsQuiet]
  cases course with
  | opening => exact absurd rfl h
  | loading session files =>
    cases files with
    | nil =>
      refine adds_after (hcompile spec.path spec.source) (fun _ _ => rfl) ?_
      simp [calls_compile, calls]
    | cons file files =>
      simp only [Course.attempt]
      cases world.read (Files.join harness file) with
      | error cause => exact ⟨[], by simp, by simp [Attempt.calls, calls]⟩
      | ok source => exact ⟨[], by simp, by simp [Attempt.calls, calls]⟩
  | loaded session file source files =>
    refine adds_after (hcompile ("harness/" ++ file) source) (fun _ _ => rfl) ?_
    simp [calls_compile, calls]
  | compiled session file program files =>
    refine adds_after (hrun ("harness/" ++ file)) (fun _ _ => rfl) ?_
    simp [calls_run, calls]
  | ready session program =>
    refine adds_after (hrun spec.path) (fun _ _ => rfl) ?_
    simp [calls_run, calls]

end Course

end Conformance
