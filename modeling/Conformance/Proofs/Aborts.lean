import Conformance.Proofs.Adjudication
import Conformance.Proofs.Scope

/-!
# Runs that abort the process

A panic while another one unwinds ends the whole process, and its report with it. A run comes to
that in two ways: one of its steps panics, or judging it does, and the context panics as it is given
up by that (`Engine.aborted_perform_iff`). Where contexts are isolated no run does, and the process
of a corpus ends as `Suite.run` says (`Suite.exit_of_isIsolated`).
-/

namespace Conformance

open Course

variable {engine : Engine} {world : Files.World} {harness : String} {spec : TestRun}

theorem Engine.aborted_execute_iff :
    (engine.execute world harness spec).aborted = true ↔
      ∃ before action panic, ∃ session : Session engine,
        Stops world harness spec .opening before action (.panicked panic) session ∧
          (engine.drop true session.context).isPanicked = true := by
  constructor
  · intro h
    rcases ends world harness spec (.opening : Course engine) with
      ⟨actions, session, hcompletes⟩ | ⟨before, action, stop, session, hstops⟩ | ⟨panic, hunopened⟩
    · rw [← execution_opening, hcompletes.execution] at h
      cases h
    · obtain ⟨phase, later, hexecution, -⟩ := hstops.execution
      rw [← execution_opening, hexecution] at h
      cases stop with
      | failed failure => cases h
      | panicked panic => exact ⟨before, action, panic, session, hstops, h⟩
    · rw [← execution_opening, hunopened] at h
      cases h
  · rintro ⟨before, action, panic, session, hstops, hdrop⟩
    obtain ⟨phase, later, hexecution, -⟩ := hstops.execution
    rw [← execution_opening, hexecution]
    exact hdrop

theorem Execution.aborted_conclude_iff (execution : Execution engine) (spec : TestRun)
    (adjudication : Adjudication) :
    (execution.conclude spec adjudication).aborted = true ↔ execution.aborted = true ∨
      ∃ context panic, execution.context = some context ∧ adjudication.verdict = .panicked panic ∧
        (engine.drop true context).isPanicked = true := by
  unfold conclude giveUp
  cases execution.context with
  | none => simp [Answer.isPanicked]
  | some context =>
    cases adjudication.verdict with
    | returned verdict => simp [Answer.isPanicked]
    | panicked panic => simp [Answer.isPanicked, Engine.giveUp]

/-- A run aborts the process if and only if a panic gives its context up, that of one of its steps or
one in judging it, and the context panics then. -/
theorem Engine.aborted_perform_iff (engine : Engine) (world : Files.World) (harness : String)
    (spec : TestRun) :
    (engine.perform world harness spec).aborted = true ↔
      (∃ before action panic, ∃ session : Session engine,
        Stops world harness spec .opening before action (.panicked panic) session ∧
          (engine.drop true session.context).isPanicked = true) ∨
      ∃ context panic, (engine.execute world harness spec).context = some context ∧
        ((engine.execute world harness spec).adjudicate spec).verdict = .panicked panic ∧
          (engine.drop true context).isPanicked = true := by
  rw [perform, Execution.aborted_conclude_iff, aborted_execute_iff]

theorem Engine.IsIsolated.aborted_perform (h : engine.IsIsolated) :
    (engine.perform world harness spec).aborted = false := by
  rw [← Bool.not_eq_true, engine.aborted_perform_iff]
  rintro (⟨before, action, panic, session, -, hdrop⟩ | ⟨context, panic, -, -, hdrop⟩)
  · simp [h session.context] at hdrop
  · simp [h context] at hdrop

/-- No run that passes is lost to an abort of its own. -/
theorem Engine.aborted_of_pass (hpass : (engine.perform world harness spec).result.grade = .pass) :
    (engine.perform world harness spec).aborted = false := by
  rw [← Bool.not_eq_true, engine.aborted_perform_iff]
  rintro (⟨before, action, panic, session, hstops, -⟩ | ⟨context, panic, -, hverdict, -⟩)
  · obtain ⟨phase, later, hexecution, -⟩ := hstops.execution
    rw [execution_opening] at hexecution
    exact perform_of_panicked (congrArg Execution.outcome hexecution) hpass
  · obtain ⟨hreturned, -⟩ := (conclude_eq_pass_iff _ spec _).1 hpass
    rw [hverdict] at hreturned
    cases hreturned

namespace Suite

variable (suite : Suite)

/-- Whether a run of a test aborts the process. -/
def abortsAt (path : String) : Bool :=
  (suite.fileTasks path).any suite.aborts

theorem any_aborts_corpusTasks :
    suite.corpusTasks.any suite.aborts = true ↔ ∃ path ∈ suite.scope, suite.abortsAt path = true := by
  have hdirectory : ∀ dir, (suite.directoryTasks dir).any suite.aborts =
      (suite.directoryScope dir).any suite.abortsAt := by
    intro dir
    have hnotes : ((suite.directoryNotes dir).map Task.note).any suite.aborts = false := by
      simp [aborts]
    rw [directoryTasks_eq, List.any_append, hnotes, Bool.false_or, List.any_flatMap]
    rfl
  simp only [corpusTasks, scope, List.any_flatMap, hdirectory, List.any_eq_true, List.mem_flatMap]
  constructor
  · rintro ⟨dir, hdir, path, hpath, h⟩
    exact ⟨path, ⟨dir, hdir, hpath⟩, h⟩
  · rintro ⟨path, ⟨dir, hdir, hpath⟩, h⟩
    exact ⟨dir, hdir, path, hpath, h⟩

theorem exit_eq_aborted_iff : suite.exit = .aborted ↔
    suite.obstacle? = none ∧ ∃ path ∈ suite.scope, suite.abortsAt path = true := by
  rw [← any_aborts_corpusTasks, exit]
  split <;> simp_all

theorem exit_of_ne_aborted (h : suite.exit ≠ .aborted) : suite.exit = .returned suite.run := by
  unfold exit at h ⊢
  split
  · simp_all
  · rfl

theorem aborts_of_isIsolated (h : suite.engine.IsIsolated) (task : Task) :
    suite.aborts task = false := by
  cases task with
  | note result => rfl
  | leaveOut => rfl
  | run spec => exact h.aborted_perform

/-- Where contexts are isolated, the process of a corpus ends with its report. -/
theorem exit_of_isIsolated (h : suite.engine.IsIsolated) : suite.exit = .returned suite.run := by
  apply exit_of_ne_aborted
  rw [ne_eq, exit_eq_aborted_iff]
  rintro ⟨-, path, -, haborts⟩
  simp [abortsAt, suite.aborts_of_isIsolated h] at haborts

end Suite

end Conformance
