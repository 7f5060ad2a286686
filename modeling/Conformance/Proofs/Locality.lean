import Mathlib.Data.List.Basic
import Conformance.Proofs.Aborts
import Conformance.Proofs.Difference
import Conformance.Proofs.Scope
import Conformance.Proofs.Shares

/-!
# What one file has an influence on

An engine runs one corpus in two trees that differ in one file. Whatever stands in that file, and
however its own runs end, every result under a path that does not lead to it is the same, in the
same order, and the same tests are not applicable but for those paths: `AgreeElsewhere` says of two
suites what that takes, and `agreeElsewhere_onTree` that it is so. A run of the file can take the
other results with it in one way only, which is to abort the process.
-/

namespace Conformance

open Files (Entry)

/-- The results under other paths than those that are marked. -/
def elsewhere (marked : String → Bool) (results : List Result) : List Result :=
  results.filter fun result => !marked result.path

namespace Suite

/-- How many of the tests in scope under marked paths do not belong to the edition. -/
def notApplicableAt (suite : Suite) (marked : String → Bool) : Nat :=
  (suite.scope.filter marked).countP fun path => (suite.planOf path).isNotApplicable

/-- Two suites go through the same tests, and come to the same for each that is not marked. -/
structure AgreeElsewhere (marked : String → Bool) (a b : Suite) : Prop where
  obstacle_eq : a.obstacle? = b.obstacle?
  directories_eq : a.settings.directories = b.settings.directories
  directoryScope_eq : ∀ dir, a.directoryScope dir = b.directoryScope dir
  directoryNotes_eq : ∀ dir, a.directoryNotes dir = b.directoryNotes dir
  fileResults_eq : ∀ path ∈ a.scope, marked path = false → a.fileResults path = b.fileResults path
  abortsAt_eq : ∀ path ∈ a.scope, marked path = false → a.abortsAt path = b.abortsAt path
  isNotApplicable_eq : ∀ path ∈ a.scope, marked path = false →
    (a.planOf path).isNotApplicable = (b.planOf path).isNotApplicable

namespace AgreeElsewhere

variable {marked : String → Bool} {a b : Suite} (h : AgreeElsewhere marked a b)

include h

theorem scope_eq : a.scope = b.scope := by
  rw [scope, scope, ← h.directories_eq]
  exact List.flatMap_congr fun dir _ => h.directoryScope_eq dir

/-- Whether a test is marked or not, the same is left of its results. -/
theorem elsewhere_fileResults {path : String} (hpath : path ∈ a.scope) :
    elsewhere marked (a.fileResults path) = elsewhere marked (b.fileResults path) := by
  cases hmarked : marked path with
  | false => rw [h.fileResults_eq path hpath hmarked]
  | true =>
    -- a test hands in results under its own path only, so none of them is left
    have hnone : ∀ suite : Suite, elsewhere marked (suite.fileResults path) = [] := by
      intro suite
      apply List.filter_eq_nil_iff.2
      intro result hresult
      simp [suite.path_of_mem_fileResults hresult, hmarked]
    rw [hnone, hnone]

theorem elsewhere_results :
    elsewhere marked (a.performAll a.corpusTasks).results.toList =
      elsewhere marked (b.performAll b.corpusTasks).results.toList := by
  rw [a.results_performAll, b.results_performAll, corpusTasks, corpusTasks, ← h.directories_eq,
    List.flatMap_assoc, List.flatMap_assoc, elsewhere, elsewhere, List.filter_flatMap,
    List.filter_flatMap]
  apply List.flatMap_congr
  intro dir hdir
  have hfiles : (a.directoryScope dir).flatMap (fun path => elsewhere marked (a.fileResults path)) =
      (a.directoryScope dir).flatMap fun path => elsewhere marked (b.fileResults path) := by
    apply List.flatMap_congr
    intro path hpath
    exact h.elsewhere_fileResults (List.mem_flatMap.2 ⟨dir, hdir, hpath⟩)
  rw [a.results_directoryTasks, b.results_directoryTasks, ← h.directoryNotes_eq,
    ← h.directoryScope_eq, List.filter_append, List.filter_append, List.filter_flatMap,
    List.filter_flatMap]
  unfold elsewhere at hfiles
  rw [hfiles]

theorem notApplicable_add :
    (a.performAll a.corpusTasks).notApplicable + b.notApplicableAt marked =
      (b.performAll b.corpusTasks).notApplicable + a.notApplicableAt marked := by
  have hrest : (a.scope.filter fun path => !marked path).countP
        (fun path => (a.planOf path).isNotApplicable) =
      (a.scope.filter fun path => !marked path).countP
        fun path => (b.planOf path).isNotApplicable := by
    apply List.countP_congr
    intro path hpath
    obtain ⟨hscope, hmarked⟩ := List.mem_filter.1 hpath
    rw [h.isNotApplicable_eq path hscope (by simpa using hmarked)]
  have ha := List.countP_eq_countP_filter_add a.scope
    (fun path => (a.planOf path).isNotApplicable) marked
  have hb := List.countP_eq_countP_filter_add a.scope
    (fun path => (b.planOf path).isNotApplicable) marked
  rw [a.notApplicable_performAll, b.notApplicable_performAll, a.countP_isLeftOut,
    b.countP_isLeftOut, notApplicableAt, notApplicableAt, ← h.scope_eq, ha, hb]
  simp only [hrest]
  omega

/-- Unless the runs of a marked test abort one of the processes, both are aborted or neither. -/
theorem exit_eq_aborted_iff (hmarked : ∀ path ∈ a.scope, marked path = true →
      a.abortsAt path = false ∧ b.abortsAt path = false) :
    a.exit = .aborted ↔ b.exit = .aborted := by
  have haborts : ∀ path ∈ a.scope, a.abortsAt path = b.abortsAt path := by
    intro path hpath
    cases hmark : marked path with
    | false => exact h.abortsAt_eq path hpath hmark
    | true =>
      obtain ⟨ha, hb⟩ := hmarked path hpath hmark
      rw [ha, hb]
  rw [a.exit_eq_aborted_iff, b.exit_eq_aborted_iff, ← h.obstacle_eq, ← h.scope_eq]
  apply and_congr_right'
  constructor
  · rintro ⟨path, hpath, htrue⟩
    exact ⟨path, hpath, haborts path hpath ▸ htrue⟩
  · rintro ⟨path, hpath, htrue⟩
    exact ⟨path, hpath, (haborts path hpath).trans htrue⟩

/-- Two processes that are not aborted come to the same elsewhere. -/
theorem exit_cases :
    a.exit = .aborted ∨ b.exit = .aborted ∨
      (∃ reason, a.exit = .returned (.skipped reason) ∧ b.exit = .returned (.skipped reason)) ∨
      ∃ first second, a.exit = .returned (.completed first) ∧
        b.exit = .returned (.completed second) ∧
        elsewhere marked first.results.toList = elsewhere marked second.results.toList ∧
        first.notApplicable + b.notApplicableAt marked =
          second.notApplicable + a.notApplicableAt marked := by
  by_cases ha : a.exit = .aborted
  · exact .inl ha
  by_cases hb : b.exit = .aborted
  · exact .inr (.inl hb)
  rw [a.exit_of_ne_aborted ha, b.exit_of_ne_aborted hb, run, run, ← h.obstacle_eq]
  cases a.obstacle? with
  | some reason => exact .inr (.inr (.inl ⟨reason, rfl, rfl⟩))
  | none =>
    exact .inr (.inr (.inr ⟨_, _, rfl, rfl, h.elsewhere_results, h.notApplicable_add⟩))

end AgreeElsewhere

/-- A suite that runs its corpus in a tree. -/
def onTree (engine : Engine) (settings : Settings) (directory : String) (tree : Entry) : Suite where
  engine
  world := .ofTree tree directory
  settings

/-- Whether a path of a corpus leads to the end of a way, however it is spelled. -/
def leadsTo (settings : Settings) (directory : String) (tree : Entry) (way : List String)
    (path : String) : Bool :=
  tree.locate directory (Files.join settings.root path) = .ok way

section OneFile

variable {engine : Engine} {settings : Settings} {directory : String} {tree changed : Entry}
  {way : List String} (hdiffer : tree.DifferAt way changed)

include hdiffer

theorem directoryScope_onTree (dir : String) :
    (onTree engine settings directory tree).directoryScope dir =
      (onTree engine settings directory changed).directoryScope dir := by
  have htests := hdiffer.tests_eq directory settings.root dir
  unfold directoryScope onTree
  rw [htests]

theorem directoryNotes_onTree (dir : String) :
    (onTree engine settings directory tree).directoryNotes dir =
      (onTree engine settings directory changed).directoryNotes dir := by
  have htests := hdiffer.tests_eq directory settings.root dir
  unfold directoryNotes directoryResult onTree
  rw [htests]

theorem planOf_onTree {path : String} (hpath : leadsTo settings directory tree way path = false) :
    (onTree engine settings directory tree).planOf path =
      (onTree engine settings directory changed).planOf path := by
  have hread := hdiffer.read_eq directory (Files.join settings.root path)
    (by simpa [leadsTo] using hpath)
  simp only [planOf, Plan.ofFile, onTree, hread]

theorem fileTasks_onTree {path : String}
    (hpath : leadsTo settings directory tree way path = false) :
    (onTree engine settings directory tree).fileTasks path =
      (onTree engine settings directory changed).fileTasks path := by
  simp only [fileTasks, planOf_onTree hdiffer hpath]

theorem perform_onTree {spec : TestRun} (hloads : ∀ file ∈ spec.matter.harnessFiles,
      tree.locate directory (Files.join settings.harnessDirectory file) ≠ .ok way) :
    engine.perform (.ofTree tree directory) settings.harnessDirectory spec =
      engine.perform (.ofTree changed directory) settings.harnessDirectory spec := by
  apply Engine.perform_congr
  intro file hfile
  exact hdiffer.read_eq directory _ (hloads file hfile)

theorem task_onTree {path : String} (hloads : ∀ run ∈
      ((onTree engine settings directory tree).planOf path).runs,
      ∀ file ∈ run.matter.harnessFiles,
        tree.locate directory (Files.join settings.harnessDirectory file) ≠ .ok way)
    {task : Task} (htask : task ∈ (onTree engine settings directory tree).fileTasks path) :
    (onTree engine settings directory tree).resultsOf task =
        (onTree engine settings directory changed).resultsOf task ∧
      (onTree engine settings directory tree).aborts task =
        (onTree engine settings directory changed).aborts task := by
  cases task with
  | note result => exact ⟨rfl, rfl⟩
  | leaveOut => exact ⟨rfl, rfl⟩
  | run spec =>
    have hperform : engine.perform (.ofTree tree directory) settings.harnessDirectory spec =
        engine.perform (.ofTree changed directory) settings.harnessDirectory spec :=
      perform_onTree hdiffer (hloads spec (Plan.mem_runs_of_mem_tasks htask))
    simp only [resultsOf, resultOf, aborts, onTree, hperform, and_self]

theorem obstacle_onTree : (onTree engine settings directory tree).obstacle? =
    (onTree engine settings directory changed).obstacle? := by
  have hfound := Files.World.find_locate tree directory settings.root
  have hchanged := Files.World.find_locate changed directory settings.root
  rw [hdiffer.locate_eq] at hfound
  unfold obstacle? onTree
  dsimp only
  generalize (Files.World.ofTree tree directory).find settings.root = x at hfound ⊢
  generalize (Files.World.ofTree changed directory).find settings.root = y at hchanged ⊢
  generalize changed.locate directory settings.root = z at hfound hchanged
  cases hfound with
  | ok => cases hchanged; rfl
  | error cause => cases hchanged; rfl

/-- The two trees are alike for every test that is not the file, if no run of such a test loads
anything from it. -/
theorem agreeElsewhere_onTree
    (hbootstrap : ∀ file ∈ bootstrapFiles,
      tree.locate directory (Files.join settings.harnessDirectory file) ≠ .ok way)
    (hincludes : ∀ path ∈ (onTree engine settings directory tree).scope,
      leadsTo settings directory tree way path = false →
      ∀ run ∈ ((onTree engine settings directory tree).planOf path).runs,
        ∀ file ∈ run.matter.includes,
          tree.locate directory (Files.join settings.harnessDirectory file) ≠ .ok way) :
    AgreeElsewhere (leadsTo settings directory tree way) (onTree engine settings directory tree)
      (onTree engine settings directory changed) := by
  have htasks : ∀ path ∈ (onTree engine settings directory tree).scope,
      leadsTo settings directory tree way path = false →
      ∀ task ∈ (onTree engine settings directory tree).fileTasks path,
        (onTree engine settings directory tree).resultsOf task =
            (onTree engine settings directory changed).resultsOf task ∧
          (onTree engine settings directory tree).aborts task =
            (onTree engine settings directory changed).aborts task := by
    intro path hscope hpath task htask
    apply task_onTree hdiffer _ htask
    intro run hrun file hfile
    rcases List.mem_append.1 hfile with hmem | hmem
    · exact hbootstrap file hmem
    · exact hincludes path hscope hpath run hrun file hmem
  exact {
    obstacle_eq := obstacle_onTree hdiffer
    directories_eq := rfl
    directoryScope_eq := directoryScope_onTree hdiffer
    directoryNotes_eq := directoryNotes_onTree hdiffer
    fileResults_eq := by
      intro path hscope hpath
      rw [fileResults, fileResults, ← fileTasks_onTree hdiffer hpath]
      exact List.flatMap_congr fun task htask => (htasks path hscope hpath task htask).1
    abortsAt_eq := by
      intro path hscope hpath
      rw [abortsAt, abortsAt, ← fileTasks_onTree hdiffer hpath, Bool.eq_iff_iff,
        List.any_eq_true, List.any_eq_true]
      apply exists_congr
      intro task
      apply and_congr_right
      intro htask
      rw [(htasks path hscope hpath task htask).2]
    isNotApplicable_eq := by
      intro path hscope hpath
      rw [planOf_onTree hdiffer hpath] }

end OneFile

/-- Where runs go on one at a time, nothing that stands in one file of a tree has an influence on
the results under paths that do not lead to it, unless they are those of runs that load it. Which
paths do so is the same in both trees. Where contexts are isolated, no process is aborted; and where
they are not, nothing but the runs of that file aborts one process and not the other. Two processes
that are not aborted have the same results under other paths, in the same order, and as many tests
that are not applicable but for those under paths that lead to the file; and so have two schedules. -/
theorem elsewhere_eq (engine : Engine) (settings : Settings) (directory : String)
    {tree changed : Entry} {way : List String} (hdiffer : tree.DifferAt way changed)
    (hparallel : settings.parallel = false)
    (hbootstrap : ∀ file ∈ bootstrapFiles,
      tree.locate directory (Files.join settings.harnessDirectory file) ≠ .ok way)
    (hincludes : ∀ path ∈ (onTree engine settings directory tree).scope,
      leadsTo settings directory tree way path = false →
      ∀ run ∈ ((onTree engine settings directory tree).planOf path).runs,
        ∀ file ∈ run.matter.includes,
          tree.locate directory (Files.join settings.harnessDirectory file) ≠ .ok way) :
    leadsTo settings directory changed way = leadsTo settings directory tree way ∧
    (engine.IsIsolated →
      (onTree engine settings directory tree).exit ≠ .aborted ∧
        (onTree engine settings directory changed).exit ≠ .aborted) ∧
    ((∀ path ∈ (onTree engine settings directory tree).scope,
        leadsTo settings directory tree way path = true →
        (onTree engine settings directory tree).abortsAt path = false ∧
          (onTree engine settings directory changed).abortsAt path = false) →
      ((onTree engine settings directory tree).exit = .aborted ↔
        (onTree engine settings directory changed).exit = .aborted)) ∧
    ((onTree engine settings directory tree).exit = .aborted ∨
      (onTree engine settings directory changed).exit = .aborted ∨
      (∃ reason, (onTree engine settings directory tree).exit = .returned (.skipped reason) ∧
        (onTree engine settings directory changed).exit = .returned (.skipped reason)) ∨
      ∃ first second,
        (onTree engine settings directory tree).exit = .returned (.completed first) ∧
        (onTree engine settings directory changed).exit = .returned (.completed second) ∧
        elsewhere (leadsTo settings directory tree way) first.results.toList =
          elsewhere (leadsTo settings directory tree way) second.results.toList ∧
        first.notApplicable + (onTree engine settings directory changed).notApplicableAt
            (leadsTo settings directory tree way) =
          second.notApplicable + (onTree engine settings directory tree).notApplicableAt
            (leadsTo settings directory tree way)) ∧
    ((onTree engine settings directory tree).exit ≠ .aborted →
      (onTree engine settings directory changed).exit ≠ .aborted →
      ∀ (capacity other : Nat) (first second : Schedule.State),
        Schedule.Reaches (onTree engine settings directory tree) (· = engine)
          (.start (.ofCapacity capacity) (onTree engine settings directory tree).errands) first →
        first.IsFinal →
        Schedule.Reaches (onTree engine settings directory changed) (· = engine)
          (.start (.ofCapacity other) (onTree engine settings directory changed).errands) second →
        second.IsFinal →
        elsewhere (leadsTo settings directory tree way) first.results =
            elsewhere (leadsTo settings directory tree way) second.results ∧
          first.notApplicable + (onTree engine settings directory changed).notApplicableAt
              (leadsTo settings directory tree way) =
            second.notApplicable + (onTree engine settings directory tree).notApplicableAt
              (leadsTo settings directory tree way)) := by
  have hagree := agreeElsewhere_onTree hdiffer hbootstrap hincludes
  refine ⟨?_, ?_, hagree.exit_eq_aborted_iff, hagree.exit_cases, ?_⟩
  · funext path
    simp only [leadsTo, hdiffer.locate_eq]
  · intro hisolated
    have hexit : ∀ entry, (onTree engine settings directory entry).exit ≠ .aborted := by
      intro entry
      rw [exit_of_isIsolated _ hisolated]
      exact nofun
    exact ⟨hexit tree, hexit changed⟩
  · intro _ _ capacity other first second hfirst hfinal hsecond hend
    rw [Schedule.results_eq_of_complete hfirst hfinal hparallel,
      Schedule.results_eq_of_complete hsecond hend hparallel,
      Schedule.notApplicable_of_complete hfirst hfinal,
      Schedule.notApplicable_of_complete hsecond hend]
    exact ⟨hagree.elsewhere_results, hagree.notApplicable_add⟩

/-- A corpus of two tests, of which the second has that text. -/
def pairTree (text : Except Files.AccessFault String) : Entry :=
  .directory [("corpus", .directory [
    ("harness", .directory [("assert.js", .file (.ok "")), ("sta.js", .file (.ok ""))]),
    ("test", .directory [
      ("a.js", .file (.ok "/*---\nes5id: 1\nincludes: [sta.js]\n---*/\n")),
      ("b.js", .file text)])])]

theorem differAt_pairTree (text changed : Except Files.AccessFault String) :
    (pairTree text).DifferAt ["corpus", "test", "b.js"] (pairTree changed) := by
  refine @Entry.DifferAt.inside _ _ _ _ [] [] rfl ?_
  refine @Entry.DifferAt.inside _ _ _ _ [(_, _)] [] rfl ?_
  refine @Entry.DifferAt.inside _ _ _ _ [(_, _)] [] rfl ?_
  exact .file text changed

def pairSettings : Settings :=
  { Settings.standard with root := "/corpus", directories := ["test"], parallel := false }

def pairWay : List String := ["corpus", "test", "b.js"]

/-- A tree in which the runs of the second test panic at their end, and one in which it cannot be
read. -/
def pairTrees : Entry × Entry :=
  (pairTree (.ok "/*---\nes5id: 1\n---*/\n// @panic-drop\n"), pairTree (.error .notText))

theorem elsewhere_eq_pair : ∃ first second,
    (onTree Scripted.engine pairSettings "/" pairTrees.1).exit = .returned (.completed first) ∧
    (onTree Scripted.engine pairSettings "/" pairTrees.2).exit = .returned (.completed second) ∧
    first.results.size = 4 ∧ second.results.size = 3 ∧
    (elsewhere (leadsTo pairSettings "/" pairTrees.1 pairWay) first.results.toList).length = 2 ∧
    elsewhere (leadsTo pairSettings "/" pairTrees.1 pairWay) first.results.toList =
      elsewhere (leadsTo pairSettings "/" pairTrees.1 pairWay) second.results.toList := by
  have hdiffer : pairTrees.1.DifferAt pairWay pairTrees.2 := differAt_pairTree _ _
  have hisolated := Scripted.isIsolated_engine
  have hbefore := (onTree Scripted.engine pairSettings "/" pairTrees.1).exit_of_isIsolated hisolated
  have hafter := (onTree Scripted.engine pairSettings "/" pairTrees.2).exit_of_isIsolated hisolated
  rw [(onTree Scripted.engine pairSettings "/" pairTrees.1).run_eq_completed rfl
    (by decide +kernel)] at hbefore
  rw [(onTree Scripted.engine pairSettings "/" pairTrees.2).run_eq_completed rfl
    (by decide +kernel)] at hafter
  obtain ⟨-, hlives, -, hexits, -⟩ := elsewhere_eq Scripted.engine pairSettings "/" hdiffer rfl
    (by decide +kernel) (by decide +kernel)
  obtain ⟨hfirst, hsecond⟩ := hlives hisolated
  rcases hexits with haborted | haborted | ⟨reason, hskipped, -⟩ |
    ⟨first, second, hreturned, hother, hresults, -⟩
  · exact absurd haborted hfirst
  · exact absurd haborted hsecond
  · rw [hbefore] at hskipped
    cases hskipped
  · rw [hbefore] at hreturned
    rw [hafter] at hother
    cases hreturned
    cases hother
    exact ⟨_, _, hbefore, hafter, by decide +kernel, by decide +kernel, by decide +kernel,
      hresults⟩

/-- The scripted engine, but for contexts that panic however they are given up. -/
def reckless : Engine :=
  { Scripted.engine with drop := fun _ context => Scripted.drop false context }

/-- Isolation is needed: here the body of the second test takes the results of the first with it. -/
theorem exit_reckless :
    (onTree reckless pairSettings "/"
        (pairTree (.ok "/*---\nes5id: 1\n---*/\n// @panic-drop\n// @panic\n"))).exit = .aborted ∧
      (onTree reckless pairSettings "/" pairTrees.2).exit ≠ .aborted := by
  rw [ne_eq, exit_eq_aborted_iff, exit_eq_aborted_iff]
  decide +kernel

end Suite

end Conformance
