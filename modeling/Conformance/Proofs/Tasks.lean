import Conformance.Run.Schedule

/-!
# What tasks come to

Performing tasks in order hands in the results of each and counts the tests that are left out:
`results_performAll` and `notApplicable_performAll`. The errands of a schedule come to the same
tasks, and turning to a directory or a file changes nothing in them.
-/

namespace Conformance

/-- Whether a task is a test that has no result. -/
def Task.isLeftOut : Task → Bool
  | .leaveOut => true
  | _ => false

namespace Suite

variable (suite : Suite)

/-- The result of a run that is performed alone. -/
def resultOf (spec : TestRun) : Result :=
  (suite.engine.perform suite.world suite.settings.harnessDirectory spec).result

/-- The results that come of a task. -/
def resultsOf : Task → List Result
  | .note result => [result]
  | .leaveOut => []
  | .run spec => [suite.resultOf spec]

theorem results_perform (progress : Progress) (task : Task) :
    (suite.perform progress task).results.toList =
      progress.results.toList ++ suite.resultsOf task := by
  cases task <;> simp [perform, resultsOf, resultOf]

theorem notApplicable_perform (progress : Progress) (task : Task) :
    (suite.perform progress task).notApplicable =
      progress.notApplicable + if task.isLeftOut then 1 else 0 := by
  cases task <;> simp [perform, Task.isLeftOut]

theorem results_foldl_perform (tasks : List Task) (progress : Progress) :
    (tasks.foldl suite.perform progress).results.toList =
      progress.results.toList ++ tasks.flatMap suite.resultsOf := by
  induction tasks generalizing progress with
  | nil => simp
  | cons task rest ih => simp [ih, results_perform]

theorem notApplicable_foldl_perform (tasks : List Task) (progress : Progress) :
    (tasks.foldl suite.perform progress).notApplicable =
      progress.notApplicable + tasks.countP (·.isLeftOut) := by
  induction tasks generalizing progress with
  | nil => simp
  | cons task rest ih =>
    rw [List.foldl_cons, ih, notApplicable_perform, List.countP_cons]
    omega

/-- Performing tasks hands in the results of each, in their order. -/
theorem results_performAll (tasks : List Task) :
    (suite.performAll tasks).results.toList = tasks.flatMap suite.resultsOf :=
  suite.results_foldl_perform tasks {}

theorem notApplicable_performAll (tasks : List Task) :
    (suite.performAll tasks).notApplicable = tasks.countP (·.isLeftOut) :=
  (suite.notApplicable_foldl_perform tasks {}).trans (Nat.zero_add _)

/-- The tasks that come of an errand. -/
def tasksOf : Errand → List Task
  | .walk dir => suite.directoryTasks dir
  | .plan path => suite.fileTasks path
  | .task task => [task]

theorem flatMap_plan (path : String) :
    (suite.plan path).flatMap suite.tasksOf = suite.fileTasks path := by
  simp [plan, List.flatMap_map, tasksOf]

theorem flatMap_walk (dir : String) :
    (suite.walk dir).flatMap suite.tasksOf = suite.directoryTasks dir := by
  unfold walk directoryTasks
  cases suite.world.tests suite.settings.root dir with
  | error cause => rfl
  | ok files => simp [List.flatMap_map, tasksOf]

theorem flatMap_errands : suite.errands.flatMap suite.tasksOf = suite.corpusTasks := by
  simp [errands, List.flatMap_map, tasksOf, corpusTasks]

theorem obstacle_eq_none (hshort : suite.settings.short = false)
    (hroot : (suite.world.find suite.settings.root).isOk) : suite.obstacle? = none := by
  unfold obstacle?
  rw [hshort]
  cases hfind : suite.world.find suite.settings.root with
  | error cause => simp [hfind, Except.isOk, Except.toBool] at hroot
  | ok place => rfl

/-- Unless it is to be left out, a corpus is run when there is something at its root. -/
theorem run_eq_completed (hshort : suite.settings.short = false)
    (hroot : (suite.world.find suite.settings.root).isOk) :
    suite.run = .completed (suite.performAll suite.corpusTasks) := by
  rw [run, suite.obstacle_eq_none hshort hroot]

end Suite

namespace Schedule

variable {suite : Suite}

/-- The tasks that the first thread has not turned to. -/
def State.tasks (suite : Suite) (s : State) : List Task :=
  s.errands.flatMap suite.tasksOf

variable {s : State} {rest : List Errand}

theorem tasks_walk {dir : String} (h : s.errands = .walk dir :: rest) :
    State.tasks suite { s with errands := suite.walk dir ++ rest } = s.tasks suite := by
  simp [State.tasks, h, suite.flatMap_walk, Suite.tasksOf]

theorem tasks_plan {path : String} (h : s.errands = .plan path :: rest) :
    State.tasks suite { s with errands := suite.plan path ++ rest } = s.tasks suite := by
  simp [State.tasks, h, suite.flatMap_plan, Suite.tasksOf]

theorem tasks_task {task : Task} (h : s.errands = .task task :: rest) :
    s.tasks suite = task :: rest.flatMap suite.tasksOf := by
  simp [State.tasks, h, Suite.tasksOf]

end Schedule

end Conformance
