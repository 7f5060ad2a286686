import Conformance.Proofs.Completion
import Conformance.Proofs.Counters
import Conformance.Proofs.Forecast

/-!
# What a suite can end with

A suite is asked for its whole corpus or for one file, and performs its tasks in order or side by
side. `Suite.Ends` are the reports that can come of it where the runs meet certain engines. Whatever
can be told of a run's result before the run, such a report shows of each task of the target
(`Suite.Ends.views_perm`); and where the runs meet the suite's engine alone, that is all of it
(`Suite.Ends.results_perm`).
-/

namespace Conformance

/-- What a suite is asked to run. -/
inductive Target where
  | corpus
  | file (path : String)

namespace Suite

variable (suite : Suite) (engines : Engine → Prop)

/-- What there is to be done for a target. -/
def errandsFor : Target → List Errand
  | .corpus => suite.errands
  | .file path => [.plan path]

/-- The tasks that this comes to. -/
def tasksFor : Target → List Task
  | .corpus => suite.corpusTasks
  | .file path => suite.fileTasks path

/-- Why a target cannot be run at all, if it cannot. One file is planned wherever it is. -/
def obstacleTo? : Target → Option String
  | .corpus => suite.obstacle?
  | .file _ => none

/-- The reports that a suite can end with, in order or in a complete schedule, where its runs meet
those engines. -/
inductive Ends : Target → Report → Prop where
  | corpus {progress : Progress} : engines suite.engine → suite.run = .completed progress →
    Ends .corpus progress.report
  | file (path : String) : engines suite.engine → Ends (.file path) (suite.runFile path).report
  | schedule {target : Target} {capacity : Nat} {final : Schedule.State} :
    suite.obstacleTo? target = none →
    Schedule.Reaches suite engines (.start (.ofCapacity capacity) (suite.errandsFor target)) final →
    final.IsFinal → Ends target final.report

theorem flatMap_errandsFor (target : Target) :
    (suite.errandsFor target).flatMap suite.tasksOf = suite.tasksFor target := by
  cases target with
  | corpus => exact suite.flatMap_errands
  | file path => simp [errandsFor, tasksOf, tasksFor]

theorem performAll_of_run {progress : Progress} (h : suite.run = .completed progress) :
    progress = suite.performAll suite.corpusTasks := by
  unfold run at h
  split at h
  · cases h
  · exact (CorpusRun.completed.inj h).symm

/-- Unless something stands in its way, a schedule for a target can be completed with a report. -/
theorem exists_ends {engines : Engine → Prop} (hengine : engines suite.engine) {target : Target}
    (h : suite.obstacleTo? target = none) : ∃ report, suite.Ends engines target report := by
  obtain ⟨final, hreaches, hfinal⟩ :=
    Schedule.exists_final_of_start suite 1 (suite.errandsFor target) ⟨suite.engine, hengine⟩
  exact ⟨_, .schedule h hreaches hfinal⟩

variable {suite} {engines} {target : Target} {report : Report}

theorem map_resultsOf {β : Type} {view : Result → β} {foreseen : TestRun → β}
    (hview : ∀ spec, view (suite.resultOf spec) = foreseen spec) (task : Task) :
    (suite.resultsOf task).map view = task.prospect view foreseen := by
  cases task with
  | note result => rfl
  | leaveOut => rfl
  | run spec => exact congrArg (fun seen => [seen]) (hview spec)

namespace Ends

/-- A suite that ends with a report has performed the tasks of the target. -/
theorem exists_progress (h : suite.Ends engines target report) :
    ∃ progress, report = Progress.report progress ∧
      progress.notApplicable = (suite.tasksFor target).countP (·.isLeftOut) ∧
      ∀ {β : Type} {view : Result → β} {foreseen : TestRun → β},
        suite.Foresees engines view foreseen →
        (progress.results.toList.map view).Perm
          ((suite.tasksFor target).flatMap (Task.prospect view foreseen)) := by
  -- what is performed in order meets the suite's own engine
  have hperformed : ∀ tasks : List Task, engines suite.engine →
      ∀ {β : Type} {view : Result → β} {foreseen : TestRun → β},
        suite.Foresees engines view foreseen →
        ((suite.performAll tasks).results.toList.map view).Perm
          (tasks.flatMap (Task.prospect view foreseen)) := by
    intro tasks hengine β view foreseen hview
    rw [suite.results_performAll, List.map_flatMap]
    simp only [map_resultsOf (hview _ hengine)]
    exact .refl _
  cases h with
  | corpus hengine hrun =>
    rw [suite.performAll_of_run hrun]
    exact ⟨_, rfl, suite.notApplicable_performAll _, hperformed _ hengine⟩
  | file path hengine =>
    exact ⟨_, rfl, suite.notApplicable_performAll _, hperformed _ hengine⟩
  | schedule hobstacle hreaches hfinal =>
    have htasks := suite.flatMap_errandsFor target
    refine ⟨_, rfl, ?_, ?_⟩
    · rw [← htasks, ← suite.notApplicable_performAll]
      exact Schedule.notApplicable_of_end hreaches hfinal
    · intro β view foreseen hview
      rw [← htasks]
      exact Schedule.views_perm_of_end hreaches hfinal hview

/-- A report shows of each task of the target what can be foreseen of its result. -/
theorem views_perm (h : suite.Ends engines target report) {β : Type} {view : Result → β}
    {foreseen : TestRun → β} (hview : suite.Foresees engines view foreseen) :
    (report.results.map view).Perm
      ((suite.tasksFor target).flatMap (Task.prospect view foreseen)) := by
  obtain ⟨progress, rfl, -, hresults⟩ := h.exists_progress
  exact (progress.results_report.map view).trans (hresults hview)

theorem notApplicable_eq (h : suite.Ends engines target report) :
    report.notApplicable = (suite.tasksFor target).countP (·.isLeftOut) := by
  obtain ⟨progress, rfl, hnotApplicable, -⟩ := h.exists_progress
  exact progress.notApplicable_report.trans hnotApplicable

theorem counted (h : suite.Ends engines target report) : report.Counted := by
  obtain ⟨progress, rfl, -, -⟩ := h.exists_progress
  exact progress.counted_report

/-- Where runs meet the suite's engine alone, a report has the results of each task. -/
theorem results_perm (h : suite.Ends (· = suite.engine) target report) :
    report.results.Perm ((suite.tasksFor target).flatMap suite.resultsOf) := by
  have hviews := h.views_perm suite.foresees_resultOf
  have hresults : suite.resultsOf = Task.prospect id suite.resultOf := funext suite.resultsOf_eq
  rw [hresults]
  simpa using hviews

end Ends

end Suite

end Conformance
