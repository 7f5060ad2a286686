import Mathlib.Algebra.Group.Prod
import Mathlib.Algebra.Order.Group.Multiset
import Mathlib.Algebra.Ring.Nat
import Conformance.Proofs.Completion
import Conformance.Proofs.Filing
import Conformance.Proofs.Forecast

/-!
# What each part of a corpus adds

A report of a corpus is the sum of what each directory adds, and a directory adds what each of its
files adds by itself: `share_report`. Nothing is lost or handed in twice, and nothing that befalls
one part changes what the others add.
-/

namespace Conformance

/-- What is added to a report: results, in no order, and a number of tests without a result. -/
abbrev Share := Multiset Result × Nat

def Report.share (report : Report) : Share :=
  (report.results, report.notApplicable)

namespace Suite

variable (suite : Suite)

/-- What a file adds that is planned by itself, with every run performed alone. -/
def fileShare (path : String) : Share :=
  match suite.planOf path with
  | .skipped cause => ({.ofFile path .skip (some cause.message)}, 0)
  | .notApplicable => (0, 1)
  | .invalid problem =>
    ({.ofFile path .error (some ("Could not parse " ++ path ++ ": " ++ problem.message))}, 0)
  | .run runs => (runs.map suite.resultOf, 0)

/-- What a directory adds: what each of its files adds that the settings admit, or one error in its
own name. -/
def directoryShare (dir : String) : Share :=
  match suite.world.tests suite.settings.root dir with
  | .error cause => ({directoryResult dir cause}, 0)
  | .ok files => ((files.filter suite.settings.admits).map suite.fileShare).sum

/-- What tasks add. -/
def tasksShare (tasks : List Task) : Share :=
  (tasks.flatMap suite.resultsOf, tasks.countP (·.isLeftOut))

theorem tasksShare_append (tasks later : List Task) :
    suite.tasksShare (tasks ++ later) = suite.tasksShare tasks + suite.tasksShare later := by
  simp [tasksShare]

theorem tasksShare_flatMap {α : Type} (items : List α) (tasks : α → List Task) :
    suite.tasksShare (items.flatMap tasks) =
      (items.map fun item => suite.tasksShare (tasks item)).sum := by
  induction items with
  | nil => rfl
  | cons item rest ih => rw [List.flatMap_cons, tasksShare_append, ih, List.map_cons, List.sum_cons]

theorem tasksShare_fileTasks (path : String) :
    suite.tasksShare (suite.fileTasks path) = suite.fileShare path := by
  unfold fileTasks fileShare
  cases suite.planOf path with
  | skipped cause => rfl
  | notApplicable => rfl
  | invalid problem => rfl
  | run runs =>
    have hresults : (runs.map Task.run).flatMap suite.resultsOf = runs.map suite.resultOf := by
      simp [List.flatMap_map, resultsOf, ← List.map_eq_flatMap]
    simp only [Plan.tasks, tasksShare, hresults, List.countP_map]
    simp [Function.comp_def, Task.isLeftOut]

theorem tasksShare_directoryTasks (dir : String) :
    suite.tasksShare (suite.directoryTasks dir) = suite.directoryShare dir := by
  unfold directoryTasks directoryShare
  cases suite.world.tests suite.settings.root dir with
  | error cause => rfl
  | ok files => simp only [tasksShare_flatMap, tasksShare_fileTasks]

theorem tasksShare_corpusTasks : suite.tasksShare suite.corpusTasks =
    (suite.settings.directories.map suite.directoryShare).sum := by
  simp only [corpusTasks, tasksShare_flatMap, tasksShare_directoryTasks]

end Suite

/-- What a report shows of some progress is all that there is of it. -/
theorem Progress.share_report (progress : Progress) :
    progress.report.share = (↑progress.results.toList, progress.notApplicable) := by
  have hresults : (progress.report.results : Multiset Result) = progress.results.toList :=
    Multiset.coe_eq_coe.2 progress.results_report
  rw [Report.share, hresults, progress.notApplicable_report]

theorem Suite.directoryShare_directories (suite : Suite) (directories : List String)
    (dir : String) :
    { suite with settings := { suite.settings with directories } }.directoryShare dir =
      suite.directoryShare dir := by
  have hplan : { suite with settings := { suite.settings with directories } }.planOf =
      suite.planOf := by
    funext path
    simp only [planOf, Plan.ofFile, Plan.ofSource]
  have hfile : { suite with settings := { suite.settings with directories } }.fileShare =
      suite.fileShare := by
    funext path
    unfold fileShare
    rw [hplan]
    rfl
  unfold directoryShare
  rw [hfile]
  rfl

section Elsewhere

variable {world other : Files.World}

theorem Step.loadAll_congr {engine : Engine} {harness : String} {files : List String}
    (h : ∀ file ∈ files,
      other.read (Files.join harness file) = world.read (Files.join harness file)) :
    (loadAll other harness files : Step engine Unit) = loadAll world harness files := by
  induction files with
  | nil => rfl
  | cons file rest ih =>
    have hfile := h file List.mem_cons_self
    have hrest := ih fun later hlater => h later (List.mem_cons_of_mem file hlater)
    simp only [loadAll, load, hfile, hrest]

theorem Engine.perform_congr {engine : Engine} {harness : String} {spec : TestRun}
    (h : ∀ file ∈ spec.matter.harnessFiles,
      other.read (Files.join harness file) = world.read (Files.join harness file)) :
    engine.perform other harness spec = engine.perform world harness spec := by
  simp only [perform, execute, Step.prepare, Step.loadAll_congr h]

/-- What a file adds depends on nothing in the tree but its own text and the harness files that its
runs load. -/
theorem Suite.fileShare_congr (suite : Suite) (path : String)
    (hread : other.read (Files.join suite.settings.root path) =
      suite.world.read (Files.join suite.settings.root path))
    (hharness : ∀ run ∈ (suite.planOf path).runs, ∀ file ∈ run.matter.harnessFiles,
      other.read (Files.join suite.settings.harnessDirectory file) =
        suite.world.read (Files.join suite.settings.harnessDirectory file)) :
    { suite with world := other }.fileShare path = suite.fileShare path := by
  have hplan : { suite with world := other }.planOf path = suite.planOf path := by
    simp only [planOf, Plan.ofFile, hread]
  unfold fileShare
  rw [hplan]
  cases hruns : suite.planOf path with
  | skipped cause => rfl
  | notApplicable => rfl
  | invalid problem => rfl
  | run runs =>
    rw [hruns] at hharness
    have hresults : runs.map { suite with world := other }.resultOf = runs.map suite.resultOf := by
      apply List.map_congr_left
      intro run hrun
      simp only [resultOf, Engine.perform_congr (hharness run hrun)]
    simp only [hresults]

end Elsewhere

/-- Whatever the order of its runs, a corpus adds to its report what its directories add, each as
often as it is named: for every file what it adds by itself, for every directory that cannot be
gone through one error. What a directory adds does not depend on the other directories, and what a
file adds depends on no file but itself and the harness files that it loads. -/
theorem report_eq_sum_of_shares (suite : Suite) (hshort : suite.settings.short = false)
    (hroot : (suite.world.find suite.settings.root).isOk) :
    (∃ progress, suite.run = .completed progress ∧
      progress.report.share = (suite.settings.directories.map suite.directoryShare).sum) ∧
    (∀ (capacity : Nat) (final : Schedule.State),
      Schedule.Reaches suite (· = suite.engine) (.start (.ofCapacity capacity) suite.errands)
        final → final.IsFinal →
      final.report.share = (suite.settings.directories.map suite.directoryShare).sum) ∧
    (∀ (directories : List String) (dir : String),
      { suite with settings := { suite.settings with directories } }.directoryShare dir =
        suite.directoryShare dir) ∧
    ∀ (other : Files.World) (path : String),
      other.read (Files.join suite.settings.root path) =
        suite.world.read (Files.join suite.settings.root path) →
      (∀ run ∈ (suite.planOf path).runs, ∀ file ∈ run.matter.harnessFiles,
        other.read (Files.join suite.settings.harnessDirectory file) =
          suite.world.read (Files.join suite.settings.harnessDirectory file)) →
      { suite with world := other }.fileShare path = suite.fileShare path := by
  refine ⟨⟨_, suite.run_eq_completed hshort hroot, ?_⟩, ?_, suite.directoryShare_directories,
    fun other path => suite.fileShare_congr path⟩
  · rw [Progress.share_report, suite.results_performAll, suite.notApplicable_performAll]
    exact suite.tasksShare_corpusTasks
  · intro capacity final hreaches hfinal
    have hresults := Schedule.results_perm_of_complete hreaches hfinal
    rw [suite.results_performAll] at hresults
    rw [Schedule.State.report, Progress.share_report, Multiset.coe_eq_coe.2 hresults,
      Schedule.notApplicable_of_complete hreaches hfinal, suite.notApplicable_performAll]
    exact suite.tasksShare_corpusTasks

theorem report_eq_sum_of_shares_sample :
    Suite.sample.settings.short = false ∧
      (Suite.sample.world.find Suite.sample.settings.root).isOk ∧
      ∃ progress, Suite.sample.run = .completed progress ∧
        progress.report.share =
          Suite.sample.directoryShare "test" + Suite.sample.directoryShare "missing" := by
  have hroot : (Suite.sample.world.find Suite.sample.settings.root).isOk := by decide +kernel
  obtain ⟨⟨progress, hrun, hshare⟩, -⟩ := report_eq_sum_of_shares .sample rfl hroot
  refine ⟨rfl, hroot, progress, hrun, ?_⟩
  rw [hshare]
  simp [Suite.sample]

end Conformance
