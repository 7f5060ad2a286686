import Conformance.Proofs.Activity
import Conformance.Proofs.Permits
import Conformance.Proofs.Tasks

/-!
# What a schedule comes to

`State.forecast` lists the results that there are and those that are still to come, each of them
what its run gives when it is performed alone. No step changes more than their order, and without
parallel runs not even that. `State.leftOut` counts the tests without a result in the same way.

Where runs meet different engines, so much is still true of whatever can be told of a run's result
before it is run: `State.prospect` lists that, and `forecast` is the case that all can be told.
-/

namespace Conformance

section Views

variable {β : Type} (view : Result → β) (foreseen : TestRun → β)

/-- What a view shows of the results that come of a task, where it shows of a run's result what is
foreseen. -/
def Task.prospect : Task → List β
  | .note result => [view result]
  | .leaveOut => []
  | .run spec => [foreseen spec]

end Views

/-- Whichever of the engines a run meets, a view shows of its result what is foreseen. -/
def Suite.Foresees (suite : Suite) (engines : Engine → Prop) {β : Type} (view : Result → β)
    (foreseen : TestRun → β) : Prop :=
  ∀ engine, engines engine → ∀ spec,
    view (engine.perform suite.world suite.settings.harnessDirectory spec).result = foreseen spec

theorem Suite.foresees_resultOf (suite : Suite) :
    suite.Foresees (· = suite.engine) id suite.resultOf := by
  rintro engine rfl spec
  rfl

theorem Suite.resultsOf_eq (suite : Suite) (task : Task) :
    suite.resultsOf task = task.prospect id suite.resultOf := by
  cases task <;> rfl

namespace Schedule

variable {suite : Suite}

namespace State

variable (suite) (s : State)

/-- The result that a worker still has to hand in. -/
def outstanding (worker : Worker) : List Result :=
  (worker.activity.outlook suite.world suite.settings.harnessDirectory worker.spec).toList.map
    (·.result)

/-- The results handed in and those that are to come. -/
def forecast : List Result :=
  s.results ++ s.workers.flatMap (outstanding suite) ++ s.hand.toList.map suite.resultOf ++
    (s.tasks suite).flatMap suite.resultsOf

/-- How many tests have been left out or will be. -/
def leftOut : Nat :=
  s.notApplicable + (s.tasks suite).countP (·.isLeftOut)

/-- What a view shows of the results handed in and of those that are to come. -/
def prospect {β : Type} (view : Result → β) (foreseen : TestRun → β) : List β :=
  s.results.map view ++ (s.workers.flatMap (outstanding suite)).map view ++
    s.hand.toList.map foreseen ++ (s.tasks suite).flatMap (Task.prospect view foreseen)

theorem forecast_eq : s.forecast suite = s.prospect suite id suite.resultOf := by
  have hresults : suite.resultsOf = Task.prospect id suite.resultOf := funext suite.resultsOf_eq
  simp only [forecast, prospect, hresults, List.map_id]

end State

variable {s t : State} {rest : List Errand}

theorem outstanding_advance {engine : Engine} {spec : TestRun} {activity next : Activity engine}
    (h : activity.advance suite.world suite.settings.harnessDirectory spec = some next) :
    State.outstanding suite ⟨engine, spec, next⟩ =
      State.outstanding suite ⟨engine, spec, activity⟩ := by
  simp [State.outstanding, Activity.outlook_advance h]

section Views

variable {β : Type} {view : Result → β} {foreseen : TestRun → β}

/-- A result that is known without a run is handed in before those that are under way. -/
theorem prospect_note {result : Result} (herrands : s.errands = .task (.note result) :: rest)
    (hhand : s.hand = none) :
    ∃ under later, s.prospect suite view foreseen =
        s.results.map view ++ (under ++ view result :: later) ∧
      State.prospect suite { s with errands := rest, results := s.results ++ [result] }
        view foreseen = s.results.map view ++ view result :: (under ++ later) ∧
      under = (s.workers.flatMap (State.outstanding suite)).map view := by
  refine ⟨_, (rest.flatMap suite.tasksOf).flatMap (Task.prospect view foreseen), ?_, ?_, rfl⟩
  · simp [State.prospect, tasks_task herrands, hhand, Task.prospect]
  · simp [State.prospect, State.tasks, hhand]

theorem prospect_deliver {before after : List Worker} {engine : Engine} {spec : TestRun} {ran : Ran}
    (hworkers : s.workers = before ++ ⟨engine, spec, .settled ran⟩ :: after) :
    ∃ under later, s.prospect suite view foreseen =
        s.results.map view ++ (under ++ view ran.result :: later) ∧
      State.prospect suite { s with
          workers := before ++ ⟨engine, spec, .delivered⟩ :: after
          results := s.results ++ [ran.result] } view foreseen =
        s.results.map view ++ view ran.result :: (under ++ later) ∧
      under = (before.flatMap (State.outstanding suite)).map view := by
  refine ⟨_, (after.flatMap (State.outstanding suite)).map view ++ s.hand.toList.map foreseen ++
    (s.tasks suite).flatMap (Task.prospect view foreseen), ?_, ?_, rfl⟩
  · simp [State.prospect, hworkers, State.outstanding, Activity.outlook]
  · simp [State.prospect, State.tasks, State.outstanding, Activity.outlook]

section Foreseen

variable {engines : Engine → Prop} {capacity : Nat}
  (hview : suite.Foresees engines view foreseen) (hadmits : Admits suite capacity s)

include hview hadmits

/-- A step changes at most the order of what a view shows, and not that as long as there is one run
at a time. -/
theorem prospect_step (h : Step suite engines s t) :
    (t.prospect suite view foreseen).Perm (s.prospect suite view foreseen) ∧
      (suite.settings.parallel = false →
        t.prospect suite view foreseen = s.prospect suite view foreseen) := by
  -- only handing in a result can change the order
  have hequal : t.prospect suite view foreseen = s.prospect suite view foreseen →
      (t.prospect suite view foreseen).Perm (s.prospect suite view foreseen) ∧
        (suite.settings.parallel = false →
          t.prospect suite view foreseen = s.prospect suite view foreseen) :=
    fun heq => ⟨heq ▸ .refl _, fun _ => heq⟩
  cases h with
  | walk herrands hfree =>
    apply hequal
    simp only [State.prospect, tasks_walk herrands]
  | plan herrands hfree =>
    apply hequal
    simp only [State.prospect, tasks_plan herrands]
  | note herrands hfree =>
    obtain ⟨-, hhand, halone⟩ := hfree
    obtain ⟨under, later, hbefore, hafter, hunder⟩ := prospect_note herrands hhand
    rw [hbefore, hafter]
    refine ⟨List.perm_middle.symm.append_left _, fun hparallel => ?_⟩
    have hnone : s.workers = [] := by simpa [hparallel] using halone
    simp [hunder, hnone]
  | leaveOut herrands hfree =>
    apply hequal
    simp [State.prospect, State.tasks, herrands, Suite.tasksOf, Task.prospect]
  | enter herrands hfree hlt =>
    apply hequal
    simp [State.prospect, State.tasks, herrands, Suite.tasksOf, Task.prospect, hfree.2.1]
  | block => exact hequal rfl
  | enterWoken herrands hwoken hlt =>
    have hhand := hadmits.hand_of_woken hwoken
    apply hequal
    simp [State.prospect, State.tasks, herrands, Suite.tasksOf, Task.prospect, hhand]
  | blockAgain => exact hequal rfl
  | stir => exact hequal rfl
  | @spawn spec engine hhand hengine =>
    have houtstanding : (State.outstanding suite ⟨engine, spec, .running .opening⟩).map view =
        [foreseen spec] := congrArg (fun seen => [seen]) (hview engine hengine spec)
    apply hequal
    simp [State.prospect, State.tasks, hhand, houtstanding]
  | work hworkers hadvance =>
    apply hequal
    simp [State.prospect, State.tasks, hworkers, outstanding_advance hadvance]
  | @deliver before after engine spec ran hworkers =>
    obtain ⟨under, later, hbefore, hafter, hunder⟩ := prospect_deliver hworkers
    rw [hbefore, hafter]
    refine ⟨List.perm_middle.symm.append_left _, fun hparallel => ?_⟩
    have hholders := (hadmits.alone hparallel).2
    have hfirst : before = [] := by
      simp only [State.holders, hworkers, List.length_append, List.length_cons] at hholders
      exact List.eq_nil_of_length_eq_zero (by omega)
    simp [hunder, hfirst]
  | giveBack hworkers =>
    apply hequal
    simp [State.prospect, State.tasks, hworkers, State.outstanding, Activity.outlook]

theorem prospect_perm_of_reaches (h : Reaches suite engines s t) :
    (t.prospect suite view foreseen).Perm (s.prospect suite view foreseen) := by
  induction h with
  | refl => exact .refl _
  | step hreaches hstep ih =>
    exact (prospect_step hview (hadmits.reaches hreaches) hstep).1.trans ih

theorem prospect_eq_of_reaches (h : Reaches suite engines s t)
    (hparallel : suite.settings.parallel = false) :
    t.prospect suite view foreseen = s.prospect suite view foreseen := by
  induction h with
  | refl => rfl
  | step hreaches hstep ih =>
    exact ((prospect_step hview (hadmits.reaches hreaches) hstep).2 hparallel).trans ih

end Foreseen

theorem prospect_start (gate : Gate) (errands : List Errand) :
    State.prospect suite (.start gate errands) view foreseen =
      (errands.flatMap suite.tasksOf).flatMap (Task.prospect view foreseen) := by
  simp [State.prospect, State.tasks, State.start]

theorem prospect_final (h : s.IsFinal) :
    s.prospect suite view foreseen = s.results.map view := by
  obtain ⟨herrands, hhand, hworkers⟩ := h
  simp [State.prospect, State.tasks, herrands, hhand, hworkers]

end Views

theorem leftOut_step {engines : Engine → Prop} (h : Step suite engines s t) :
    t.leftOut suite = s.leftOut suite := by
  cases h with
  | walk herrands hfree => simp only [State.leftOut, tasks_walk herrands]
  | plan herrands hfree => simp only [State.leftOut, tasks_plan herrands]
  | note herrands hfree =>
    simp [State.leftOut, State.tasks, herrands, Suite.tasksOf, Task.isLeftOut]
  | leaveOut herrands hfree =>
    simp [State.leftOut, State.tasks, herrands, Suite.tasksOf, Task.isLeftOut]
    omega
  | enter herrands hfree hlt =>
    simp [State.leftOut, State.tasks, herrands, Suite.tasksOf, Task.isLeftOut]
  | enterWoken herrands hwoken hlt =>
    simp [State.leftOut, State.tasks, herrands, Suite.tasksOf, Task.isLeftOut]
  | block => rfl
  | blockAgain => rfl
  | stir => rfl
  | spawn => rfl
  | work => rfl
  | deliver => rfl
  | giveBack => rfl

section Forecast

variable {capacity : Nat} (hadmits : Admits suite capacity s)
  (h : Reaches suite (· = suite.engine) s t)

include hadmits h

theorem forecast_perm_of_reaches : (t.forecast suite).Perm (s.forecast suite) := by
  rw [State.forecast_eq, State.forecast_eq]
  exact prospect_perm_of_reaches suite.foresees_resultOf hadmits h

theorem forecast_eq_of_reaches (hparallel : suite.settings.parallel = false) :
    t.forecast suite = s.forecast suite := by
  rw [State.forecast_eq, State.forecast_eq]
  exact prospect_eq_of_reaches suite.foresees_resultOf hadmits h hparallel

end Forecast

theorem leftOut_of_reaches {engines : Engine → Prop} (h : Reaches suite engines s t) :
    t.leftOut suite = s.leftOut suite := by
  induction h with
  | refl => rfl
  | step _ hstep ih => exact (leftOut_step hstep).trans ih

theorem forecast_start (gate : Gate) (errands : List Errand) :
    State.forecast suite (.start gate errands) =
      (suite.performAll (errands.flatMap suite.tasksOf)).results.toList := by
  simp [State.forecast, State.tasks, State.start, suite.results_performAll]

theorem leftOut_start (gate : Gate) (errands : List Errand) :
    State.leftOut suite (.start gate errands) =
      (suite.performAll (errands.flatMap suite.tasksOf)).notApplicable := by
  simp [State.leftOut, State.tasks, State.start, suite.notApplicable_performAll]

theorem forecast_final (h : s.IsFinal) : s.forecast suite = s.results := by
  obtain ⟨herrands, hhand, hworkers⟩ := h
  simp [State.forecast, State.tasks, herrands, hhand, hworkers]

theorem leftOut_final (h : s.IsFinal) : s.leftOut suite = s.notApplicable := by
  simp [State.leftOut, State.tasks, h.1]

section Ends

variable {engines : Engine → Prop} {capacity : Nat} {errands : List Errand}
  (h : Reaches suite engines (.start (.ofCapacity capacity) errands) s) (hfinal : s.IsFinal)

include h hfinal

/-- Whatever engines the runs meet, a schedule that has seen to all errands has handed in a result
for each task that has one, as far as the result can be foreseen. -/
theorem views_perm_of_end {β : Type} {view : Result → β} {foreseen : TestRun → β}
    (hview : suite.Foresees engines view foreseen) :
    (s.results.map view).Perm
      ((errands.flatMap suite.tasksOf).flatMap (Task.prospect view foreseen)) := by
  rw [← prospect_final hfinal, ← prospect_start (.ofCapacity capacity)]
  exact prospect_perm_of_reaches hview (admits_start suite capacity errands) h

theorem notApplicable_of_end :
    s.notApplicable = (suite.performAll (errands.flatMap suite.tasksOf)).notApplicable := by
  rw [← leftOut_final hfinal, ← leftOut_start (.ofCapacity capacity)]
  exact leftOut_of_reaches h

end Ends

theorem notApplicable_of_complete {engines : Engine → Prop} {capacity : Nat}
    (h : Reaches suite engines (.start (.ofCapacity capacity) suite.errands) s)
    (hfinal : s.IsFinal) :
    s.notApplicable = (suite.performAll suite.corpusTasks).notApplicable := by
  rw [← suite.flatMap_errands]
  exact notApplicable_of_end h hfinal

section Complete

variable {capacity : Nat}
  (h : Reaches suite (· = suite.engine) (.start (.ofCapacity capacity) suite.errands) s)
  (hfinal : s.IsFinal)

include h hfinal

/-- A complete schedule hands in what the tasks come to when they are performed in order. -/
theorem results_perm_of_complete :
    s.results.Perm (suite.performAll suite.corpusTasks).results.toList := by
  rw [← forecast_final hfinal, ← suite.flatMap_errands, ← forecast_start (.ofCapacity capacity)]
  exact forecast_perm_of_reaches (admits_start suite capacity suite.errands) h

/-- Without parallel runs results are handed in in order. -/
theorem results_eq_of_complete (hparallel : suite.settings.parallel = false) :
    s.results = (suite.performAll suite.corpusTasks).results.toList := by
  rw [← forecast_final hfinal, ← suite.flatMap_errands, ← forecast_start (.ofCapacity capacity)]
  exact forecast_eq_of_reaches (admits_start suite capacity suite.errands) h hparallel

end Complete

end Schedule

end Conformance
