import Conformance.Proofs.Endings

/-!
# What a report shows whatever the engines do

Much of a result is known before its run: whose it is, what it is called, what its test declares.
`Result.outline` keeps that and drops the rest. A report that a suite ends with has the same
outlines whichever engines its runs met and whichever thread came first:
`Suite.EndsWith.outlines_perm`.
-/

namespace Conformance

/-- A result without what its run decided: a run counts as passed, whatever came of it. -/
def Result.outline (result : Result) : Result :=
  match result.variant with
  | none => result
  | some _ => { result with
    grade := if result.grade = .skip then .skip else .pass
    duration := .zero
    error := none
    diagnostics := none }

namespace Result

variable (result : Result)

@[simp] theorem name_outline : result.outline.name = result.name := by
  unfold outline
  split <;> rfl

@[simp] theorem path_outline : result.outline.path = result.path := by
  unfold outline
  split <;> rfl

@[simp] theorem variant_outline : result.outline.variant = result.variant := by
  unfold outline
  split <;> rfl

@[simp] theorem description_outline : result.outline.description = result.description := by
  unfold outline
  split <;> rfl

@[simp] theorem expected_outline : result.outline.expected = result.expected := by
  unfold outline
  split <;> rfl

theorem outline_of_none (h : result.variant = none) : result.outline = result := by
  simp [outline, h]

@[simp] theorem grade_outline_eq_skip : result.outline.grade = .skip ↔ result.grade = .skip := by
  unfold outline
  split
  · rfl
  · simp

end Result

namespace TestRun

variable (spec : TestRun)

@[simp] theorem outline_resultOf (verdict : Verdict) :
    (spec.resultOf verdict).outline = spec.resultOf .pass := by
  cases verdict <;> rfl

@[simp] theorem outline_panicResult (panic : Panic) :
    (spec.panicResult panic).outline = spec.resultOf .pass := rfl

end TestRun

/-- The outline of a run's result is known before the run. -/
theorem Engine.outline_perform (engine : Engine) (world : Files.World) (harness : String)
    (spec : TestRun) :
    (engine.perform world harness spec).result.outline = spec.resultOf .pass := by
  unfold Engine.perform
  rcases Execution.result_conclude (engine.execute world harness spec) spec _ with
    ⟨panic, h⟩ | ⟨verdict, -, h⟩
  · rw [h, spec.outline_panicResult]
  · rw [h, spec.outline_resultOf]

/-- The outlines of the results that come of a task. -/
def Task.outlines : Task → List Result :=
  Task.prospect Result.outline (·.resultOf .pass)

namespace Suite

variable (suite : Suite)

theorem map_outline_resultsOf (task : Task) :
    (suite.resultsOf task).map Result.outline = task.outlines :=
  map_resultsOf (suite.engine.outline_perform _ _) task

/-- The reports that a suite can end with, in order or in a complete schedule, whichever engines its
runs meet there. -/
abbrev EndsWith (report : Report) : Prop :=
  suite.Ends (fun _ => True) .corpus report

end Suite

/-- The outlines of the results in a report are those of its tasks. -/
theorem Suite.EndsWith.outlines_perm {suite : Suite} {report : Report}
    (h : suite.EndsWith report) :
    (report.results.map Result.outline).Perm (suite.corpusTasks.flatMap Task.outlines) :=
  h.views_perm fun engine _ spec => engine.outline_perform _ _ spec

end Conformance
