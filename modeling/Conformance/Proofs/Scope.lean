import Conformance.Engine.Scripted
import Conformance.Proofs.Outlines

/-!
# What becomes of each test

A suite plans the tests that it finds in its directories and that its settings admit: its `scope`.
Every plan leaves a trace in the report, a result under the test's path or one more test that is
not applicable, but for one: front matter can ask for strict runs alone and for no strict runs, and
then there is nothing to be run and nothing that tells of it. `accounted_iff` says so of every
report that a suite can end with.
-/

namespace Conformance

theorem FrontMatter.variants_eq_nil_iff (matter : FrontMatter) :
    matter.variants = [] ↔ matter.flags.contains .onlyStrict = true ∧
      matter.flags.contains .noStrict = true ∧ matter.flags.contains .raw = false := by
  unfold variants
  cases matter.flags.contains .raw <;> cases matter.flags.contains .onlyStrict <;>
    cases matter.flags.contains .noStrict <;> decide

namespace Plan

def isNotApplicable : Plan → Bool
  | .notApplicable => true
  | _ => false

theorem isNotApplicable_iff (plan : Plan) : plan.isNotApplicable ↔ plan = .notApplicable := by
  cases plan <;> simp [isNotApplicable]

variable {world : Files.World} {settings : Settings} {path source : String} {runs : List TestRun}

theorem ofSource_eq_run_iff :
    ofSource settings path source = .run runs ↔ settings.skipList.reason? path = none ∧
      ∃ matter, FrontMatter.extract source = .ok matter ∧
        (matter.editionId settings.edition).isSome ∧
        (∀ feature ∈ matter.features, feature ∉ settings.unsupported) ∧
        ofFrontMatter path source matter = runs := by
  unfold ofSource
  cases settings.skipList.reason? path with
  | some reason => simp
  | none =>
    cases FrontMatter.extract source with
    | error problem => simp
    | ok matter =>
      simp only [Except.ok.injEq, exists_eq_left', true_and]
      cases matter.editionId settings.edition with
      | none => simp
      | some id =>
        simp only [Option.isSome_some, true_and]
        cases hfeature : matter.features.find? (settings.unsupported.contains ·) with
        | some feature =>
          have hmem := List.mem_of_find?_eq_some hfeature
          have hunsupported := List.find?_some hfeature
          simp only [reduceCtorEq, false_iff]
          rintro ⟨hnone, -⟩
          exact hnone feature hmem (by simpa using hunsupported)
        | none =>
          have hnone : ∀ feature ∈ matter.features, feature ∉ settings.unsupported := by
            simpa using hfeature
          simp only [run.injEq]
          exact ⟨fun h => ⟨hnone, h⟩, And.right⟩

/-- A listed test is not opened, so its text does not matter to whether it is run. -/
theorem ofFile_eq_run_iff :
    ofFile world settings path = .run runs ↔
      ∃ source, world.read (Files.join settings.root path) = .ok source ∧
        ofSource settings path source = .run runs := by
  unfold ofFile
  cases hreason : settings.skipList.reason? path with
  | some reason => simp [ofSource_eq_run_iff, hreason]
  | none =>
    dsimp only
    cases world.read (Files.join settings.root path) <;> simp

theorem path_of_mem_run {run : TestRun} (h : ofFile world settings path = .run runs)
    (hrun : run ∈ runs) : run.path = path := by
  obtain ⟨source, -, hsource⟩ := ofFile_eq_run_iff.1 h
  obtain ⟨-, matter, -, -, -, rfl⟩ := ofSource_eq_run_iff.1 hsource
  obtain ⟨variant, -, rfl⟩ := List.mem_map.1 hrun
  rfl

theorem mem_runs_of_mem_tasks {plan : Plan} {path : String} {run : TestRun}
    (h : Task.run run ∈ plan.tasks path) : run ∈ plan.runs := by
  cases plan with
  | run specs => simpa [tasks, Plan.runs] using h
  | _ => simp [tasks] at h

/-- What the tasks of a plan come to, as far as it is known before they are performed. -/
def outlines (path : String) (plan : Plan) : List Result :=
  (plan.tasks path).flatMap Task.outlines

@[simp] theorem outlines_skipped (path : String) (cause : SkipCause) :
    (Plan.skipped cause).outlines path = [.ofFile path .skip (some cause.message)] := rfl

@[simp] theorem outlines_notApplicable (path : String) :
    Plan.notApplicable.outlines path = [] := rfl

@[simp] theorem outlines_invalid (path : String) (problem : Problem) :
    (Plan.invalid problem).outlines path =
      [.ofFile path .error (some ("Could not parse " ++ path ++ ": " ++ problem.message))] := rfl

@[simp] theorem outlines_run (path : String) (runs : List TestRun) :
    (Plan.run runs).outlines path = runs.map (·.resultOf .pass) := by
  rw [outlines, tasks, List.flatMap_map, List.map_eq_flatMap]
  rfl

theorem countP_isLeftOut (path : String) (plan : Plan) :
    (plan.tasks path).countP (·.isLeftOut) = if plan.isNotApplicable then 1 else 0 := by
  cases plan with
  | run runs => simp [tasks, isNotApplicable, List.countP_map, Function.comp_def, Task.isLeftOut]
  | _ => rfl

end Plan

namespace Suite

variable (suite : Suite)

/-- The paths of a directory's tests that are planned. -/
def directoryScope (dir : String) : List String :=
  match suite.world.tests suite.settings.root dir with
  | .error _ => []
  | .ok files => files.filter suite.settings.admits

/-- The paths of the tests that are planned, in order, each as often as it is come across. -/
def scope : List String :=
  suite.settings.directories.flatMap suite.directoryScope

theorem mem_scope_iff {path : String} : path ∈ suite.scope ↔
    ∃ dir ∈ suite.settings.directories, ∃ files,
      suite.world.tests suite.settings.root dir = .ok files ∧ path ∈ files ∧
        suite.settings.admits path = true := by
  have hdirectory : ∀ dir, path ∈ suite.directoryScope dir ↔ ∃ files,
      suite.world.tests suite.settings.root dir = .ok files ∧ path ∈ files ∧
        suite.settings.admits path = true := by
    intro dir
    unfold directoryScope
    cases suite.world.tests suite.settings.root dir <;> simp
  simp only [scope, List.mem_flatMap, hdirectory]

/-- What is noted of a directory that cannot be gone through. -/
def directoryNotes (dir : String) : List Result :=
  match suite.world.tests suite.settings.root dir with
  | .error cause => [directoryResult dir cause]
  | .ok _ => []

theorem directoryTasks_eq (dir : String) :
    suite.directoryTasks dir = (suite.directoryNotes dir).map .note ++
      (suite.directoryScope dir).flatMap suite.fileTasks := by
  unfold directoryTasks directoryNotes directoryScope
  cases suite.world.tests suite.settings.root dir with
  | error cause => rfl
  | ok files => rfl

theorem outlines_directoryTasks (dir : String) :
    (suite.directoryTasks dir).flatMap Task.outlines = suite.directoryNotes dir ++
      (suite.directoryScope dir).flatMap fun path => (suite.planOf path).outlines path := by
  have hnotes : ((suite.directoryNotes dir).map Task.note).flatMap Task.outlines =
      suite.directoryNotes dir := by
    unfold directoryNotes
    cases suite.world.tests suite.settings.root dir <;> rfl
  rw [directoryTasks_eq, List.flatMap_append, hnotes, List.flatMap_assoc]
  rfl

/-- The results of a test, in order. -/
def fileResults (path : String) : List Result :=
  (suite.fileTasks path).flatMap suite.resultsOf

theorem results_directoryTasks (dir : String) :
    (suite.directoryTasks dir).flatMap suite.resultsOf =
      suite.directoryNotes dir ++ (suite.directoryScope dir).flatMap suite.fileResults := by
  have hnotes : ((suite.directoryNotes dir).map Task.note).flatMap suite.resultsOf =
      suite.directoryNotes dir := by
    unfold directoryNotes
    cases suite.world.tests suite.settings.root dir <;> rfl
  rw [directoryTasks_eq, List.flatMap_append, hnotes, List.flatMap_assoc]
  rfl

theorem countP_isLeftOut_flatMap (paths : List String) :
    (paths.flatMap suite.fileTasks).countP (·.isLeftOut) =
      paths.countP fun path => (suite.planOf path).isNotApplicable := by
  induction paths with
  | nil => rfl
  | cons path rest ih =>
    rw [List.flatMap_cons, List.countP_append, ih, List.countP_cons, Nat.add_comm, fileTasks,
      Plan.countP_isLeftOut]

theorem countP_isLeftOut :
    suite.corpusTasks.countP (·.isLeftOut) =
      suite.scope.countP fun path => (suite.planOf path).isNotApplicable := by
  have hdirectory : ∀ dir, (suite.directoryTasks dir).countP (·.isLeftOut) =
      (suite.directoryScope dir).countP fun path => (suite.planOf path).isNotApplicable := by
    intro dir
    rw [directoryTasks_eq, List.countP_append, countP_isLeftOut_flatMap]
    simp [List.countP_map, Function.comp_def, Task.isLeftOut]
  simp only [corpusTasks, scope, List.countP_flatMap, Function.comp_def, hdirectory]

theorem mem_directoryNotes {dir : String} {result : Result} :
    result ∈ suite.directoryNotes dir ↔ ∃ cause,
      suite.world.tests suite.settings.root dir = .error cause ∧
        result = directoryResult dir cause := by
  unfold directoryNotes
  cases suite.world.tests suite.settings.root dir <;> simp

/-- The outlines of all results: a note for each directory that cannot be gone through, and what
the plan of each test in scope comes to. -/
theorem mem_outlines {result : Result} :
    result ∈ suite.corpusTasks.flatMap Task.outlines ↔
      (∃ dir ∈ suite.settings.directories, result ∈ suite.directoryNotes dir) ∨
        ∃ path ∈ suite.scope, result ∈ (suite.planOf path).outlines path := by
  rw [corpusTasks, List.flatMap_assoc]
  simp only [outlines_directoryTasks, List.mem_flatMap, List.mem_append, scope]
  constructor
  · rintro ⟨dir, hdir, hnote | ⟨path, hpath, hresult⟩⟩
    · exact .inl ⟨dir, hdir, hnote⟩
    · exact .inr ⟨path, ⟨dir, hdir, hpath⟩, hresult⟩
  · rintro (⟨dir, hdir, hnote⟩ | ⟨path, ⟨dir, hdir, hpath⟩, hresult⟩)
    · exact ⟨dir, hdir, .inl hnote⟩
    · exact ⟨dir, hdir, .inr ⟨path, hpath, hresult⟩⟩

/-- A plan leaves a trace among the results unless there is nothing to be run or the test does not
belong to the edition. -/
theorem exists_mem_outlines_iff {path : String} :
    (∃ result, result ∈ (suite.planOf path).outlines path) ↔
      suite.planOf path ≠ .notApplicable ∧ suite.planOf path ≠ .run [] := by
  cases suite.planOf path with
  | skipped cause => simp
  | notApplicable => simp
  | invalid problem => simp
  | run runs => cases runs <;> simp

theorem path_of_mem_outlines {path : String} {result : Result}
    (h : result ∈ (suite.planOf path).outlines path) : result.path = path := by
  cases hplan : suite.planOf path with
  | run runs =>
    rw [hplan, Plan.outlines_run] at h
    obtain ⟨run, hrun, rfl⟩ := List.mem_map.1 h
    exact Plan.path_of_mem_run hplan hrun
  | skipped cause =>
    rw [hplan] at h
    rw [List.mem_singleton.1 h]
    rfl
  | invalid problem =>
    rw [hplan] at h
    rw [List.mem_singleton.1 h]
    rfl
  | notApplicable =>
    rw [hplan] at h
    cases h

theorem path_of_mem_fileResults {path : String} {result : Result}
    (h : result ∈ suite.fileResults path) : result.path = path := by
  have houtline : result.outline ∈ (suite.planOf path).outlines path := by
    have hmem := List.mem_map_of_mem (f := Result.outline) h
    rw [fileResults, List.map_flatMap] at hmem
    simp only [map_outline_resultsOf] at hmem
    exact hmem
  rw [← result.path_outline]
  exact suite.path_of_mem_outlines houtline

theorem filter_path_flatMap {results : String → List Result}
    (h : ∀ path, ∀ result ∈ results path, result.path = path) (paths : List String)
    (path : String) : (paths.flatMap results).filter (·.path = path) =
      (List.replicate (paths.count path) (results path)).flatten := by
  induction paths with
  | nil => rfl
  | cons other rest ih =>
    rw [List.flatMap_cons, List.filter_append, ih]
    by_cases hother : other = path
    · subst hother
      have hall : (results other).filter (·.path = other) = results other := by
        apply List.filter_eq_self.2
        intro result hresult
        simpa using h other result hresult
      rw [hall, List.count_cons_self, List.replicate_succ, List.flatten_cons]
    · have hnone : (results other).filter (·.path = path) = [] := by
        apply List.filter_eq_nil_iff.2
        intro result hresult
        simpa [h other result hresult] using hother
      rw [hnone, List.count_cons_of_ne hother, List.nil_append]

variable {suite} {report : Report}

theorem EndsWith.exists_result_iff (h : suite.EndsWith report) {path : String} :
    (∃ result ∈ report.results, result.path = path) ↔
      (path ∈ suite.settings.directories ∧
        ∃ cause, suite.world.tests suite.settings.root path = .error cause) ∨
      path ∈ suite.scope ∧ suite.planOf path ≠ .notApplicable ∧ suite.planOf path ≠ .run [] := by
  -- an outline has the path of its result, so the outlines can be looked at instead
  have houtlines : (∃ result ∈ report.results, result.path = path) ↔
      ∃ result ∈ suite.corpusTasks.flatMap Task.outlines, result.path = path := by
    constructor
    · rintro ⟨result, hresult, rfl⟩
      exact ⟨result.outline, h.outlines_perm.subset (List.mem_map_of_mem hresult), by simp⟩
    · rintro ⟨outline, houtline, rfl⟩
      obtain ⟨result, hresult, rfl⟩ := List.mem_map.1 (h.outlines_perm.symm.subset houtline)
      exact ⟨result, hresult, by simp⟩
  rw [houtlines, ← suite.exists_mem_outlines_iff]
  simp only [mem_outlines, mem_directoryNotes]
  constructor
  · rintro ⟨result, ⟨dir, hdir, cause, hwalk, rfl⟩ | ⟨path', hpath, hresult⟩, rfl⟩
    · exact .inl ⟨hdir, cause, hwalk⟩
    · rw [suite.path_of_mem_outlines hresult]
      exact .inr ⟨hpath, result, hresult⟩
  · rintro (⟨hdir, cause, hwalk⟩ | ⟨hpath, result, hresult⟩)
    · exact ⟨_, .inl ⟨path, hdir, cause, hwalk, rfl⟩, rfl⟩
    · exact ⟨result, .inr ⟨path, hpath, hresult⟩, suite.path_of_mem_outlines hresult⟩

/-- Of a test in scope a report tells by a result under its path, or it counts it as not applicable,
unless there is nothing to be run; then it tells of it only if the path is that of a directory that
cannot be gone through. Those counted as not applicable are the tests in scope that do not belong
to the edition. There is nothing to be run exactly where no gate holds a test back and its flags ask
for strict runs alone and for no strict runs. -/
theorem accounted_iff (suite : Suite) {report : Report} (h : suite.EndsWith report) :
    (∀ path ∈ suite.scope,
      (∃ result ∈ report.results, result.path = path) ∨ suite.planOf path = .notApplicable ↔
        suite.planOf path ≠ .run [] ∨ path ∈ suite.settings.directories ∧
          ∃ cause, suite.world.tests suite.settings.root path = .error cause) ∧
    report.notApplicable =
      suite.scope.countP (fun path => (suite.planOf path).isNotApplicable) ∧
    (∀ path, suite.planOf path = .run [] ↔
      ∃ source, suite.world.read (Files.join suite.settings.root path) = .ok source ∧
        Plan.ofSource suite.settings path source = .run []) ∧
    ∀ path source, Plan.ofSource suite.settings path source = .run [] ↔
      suite.settings.skipList.reason? path = none ∧
        ∃ matter, FrontMatter.extract source = .ok matter ∧
          (matter.editionId suite.settings.edition).isSome ∧
          (∀ feature ∈ matter.features, feature ∉ suite.settings.unsupported) ∧
          matter.flags.contains .onlyStrict = true ∧ matter.flags.contains .noStrict = true ∧
          matter.flags.contains .raw = false := by
  refine ⟨?_, h.notApplicable_eq.trans suite.countP_isLeftOut, fun path => Plan.ofFile_eq_run_iff,
    ?_⟩
  · intro path hpath
    rw [h.exists_result_iff]
    by_cases hnone : suite.planOf path = .notApplicable
    · simp [hnone]
    · simp [hnone, hpath, or_comm]
  · intro path source
    simp only [Plan.ofSource_eq_run_iff, Plan.ofFrontMatter, List.map_eq_nil_iff,
      FrontMatter.variants_eq_nil_iff]

/-- A corpus of one test, which asks for strict runs alone and for none of them. -/
def silent : Suite where
  engine := Scripted.engine
  world := .ofTree (.directory [("corpus", .directory [("test", .directory [
    ("a.js", .file (.ok "/*---\nes5id: 1\nflags: [onlyStrict, noStrict]\n---*/\n"))])])]) "/"
  settings := { Settings.standard with root := "/corpus", directories := ["test"] }

/-- Nothing tells of the one test of that corpus. -/
theorem silent_report : Suite.silent.scope = ["test/a.js"] ∧
    Suite.silent.EndsWith (Suite.silent.performAll Suite.silent.corpusTasks).report ∧
    (Suite.silent.performAll Suite.silent.corpusTasks).report.results = [] ∧
    (Suite.silent.performAll Suite.silent.corpusTasks).report.notApplicable = 0 := by
  have hrun := Suite.silent.run_eq_completed rfl (by decide +kernel)
  exact ⟨by decide +kernel, .corpus trivial hrun, by decide +kernel, by decide +kernel⟩

theorem accounted_iff_silent :
    Suite.silent.EndsWith (Suite.silent.performAll Suite.silent.corpusTasks).report ∧
      Suite.silent.planOf "test/a.js" = .run [] := by
  have hrun := Suite.silent.run_eq_completed rfl (by decide +kernel)
  refine ⟨.corpus trivial hrun, ?_⟩
  have haccounted := (accounted_iff .silent (.corpus trivial hrun)).1 "test/a.js" (by decide +kernel)
  have hresults : (Suite.silent.performAll Suite.silent.corpusTasks).report.results = [] := by
    decide +kernel
  have hnone : ¬ (Suite.silent.planOf "test/a.js").isNotApplicable := by decide +kernel
  apply Classical.byContradiction
  intro hruns
  rcases haccounted.2 (.inl hruns) with ⟨result, hresult, -⟩ | hnotApplicable
  · simp [hresults] at hresult
  · exact hnone ((Plan.isNotApplicable_iff _).2 hnotApplicable)

end Suite

end Conformance
