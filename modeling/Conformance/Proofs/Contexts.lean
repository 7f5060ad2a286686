import Conformance.Proofs.Completion

/-!
# Contexts and permits

Every context that lives belongs to a worker, and every worker has a permit, so there are never
more contexts than permits that are out. Each run that is planned makes its context once, and the
context is gone before its permit is back, however the engine fails.
-/

namespace Conformance

/-- Whether a task is a run. -/
def Task.isRun : Task → Bool
  | .run _ => true
  | _ => false

namespace Suite

variable (suite : Suite)

/-- The runs that are planned for a directory. -/
def directoryRuns (dir : String) : List TestRun :=
  match suite.world.tests suite.settings.root dir with
  | .error _ => []
  | .ok files => (files.filter suite.settings.admits).flatMap fun path => (suite.planOf path).runs

/-- The runs that are planned for a corpus. -/
def runs : List TestRun :=
  suite.settings.directories.flatMap suite.directoryRuns

theorem countP_fileTasks (path : String) :
    (suite.fileTasks path).countP (·.isRun) = (suite.planOf path).runs.length := by
  unfold fileTasks
  cases suite.planOf path with
  | skipped cause => rfl
  | notApplicable => rfl
  | invalid problem => rfl
  | run runs => simp [Plan.tasks, Plan.runs, List.countP_map, Function.comp_def, Task.isRun]

theorem countP_directoryTasks (dir : String) :
    (suite.directoryTasks dir).countP (·.isRun) = (suite.directoryRuns dir).length := by
  unfold directoryTasks directoryRuns
  cases suite.world.tests suite.settings.root dir with
  | error cause => rfl
  | ok files =>
    simp [List.countP_flatMap, List.length_flatMap, Function.comp_def, countP_fileTasks]

theorem countP_corpusTasks : suite.corpusTasks.countP (·.isRun) = suite.runs.length := by
  simp [corpusTasks, runs, List.countP_flatMap, List.length_flatMap, Function.comp_def,
    countP_directoryTasks]

end Suite

namespace Schedule

variable {suite : Suite} {engines : Engine → Prop} {s t : State}

/-- The contexts that are still to be made: for the runs that the first thread has not turned to,
for the one in its hand, and by workers that have not begun. -/
def State.pending (suite : Suite) (s : State) : Nat :=
  (s.tasks suite).countP (·.isRun) + s.hand.toList.length + (s.workers.map (·.activity.due)).sum

/-- What holds of the contexts of a schedule. -/
structure Accounts (suite : Suite) (engines : Engine → Prop) (s : State) : Prop where
  live_eq : s.usage.live = (s.workers.map (·.activity.contexts)).sum
  /-- Where no engine panics in making a context, every run makes one. -/
  created_eq : (∀ engine, engines engine → engine.yield = 1) →
    s.usage.created + s.pending suite = suite.runs.length

namespace Accounts

theorem congr (h : Accounts suite engines s) (husage : t.usage = s.usage)
    (hworkers : (t.workers.map (·.activity.contexts)).sum =
      (s.workers.map (·.activity.contexts)).sum)
    (hpending : (∀ engine, engines engine → engine.yield = 1) →
      t.pending suite = s.pending suite) : Accounts suite engines t where
  live_eq := by rw [husage, hworkers, h.live_eq]
  created_eq := fun hcreates => by rw [husage, hpending hcreates, h.created_eq hcreates]

theorem step {capacity : Nat} (h : Accounts suite engines s) (hadmits : Admits suite capacity s)
    (hstep : Step suite engines s t) : Accounts suite engines t := by
  cases hstep with
  | walk herrands hfree =>
    refine h.congr rfl rfl fun _ => ?_
    simp only [State.pending, tasks_walk herrands]
  | plan herrands hfree =>
    refine h.congr rfl rfl fun _ => ?_
    simp only [State.pending, tasks_plan herrands]
  | note herrands hfree =>
    refine h.congr rfl rfl fun _ => ?_
    simp [State.pending, State.tasks, herrands, Suite.tasksOf, Task.isRun]
  | leaveOut herrands hfree =>
    refine h.congr rfl rfl fun _ => ?_
    simp [State.pending, State.tasks, herrands, Suite.tasksOf, Task.isRun]
  | enter herrands hfree hlt =>
    refine h.congr rfl rfl fun _ => ?_
    simp [State.pending, State.tasks, herrands, Suite.tasksOf, Task.isRun, hfree.2.1]
  | block => exact h.congr rfl rfl fun _ => rfl
  | enterWoken herrands hwoken hlt =>
    have hhand := hadmits.hand_of_woken hwoken
    refine h.congr rfl rfl fun _ => ?_
    simp [State.pending, State.tasks, herrands, Suite.tasksOf, Task.isRun, hhand]
  | blockAgain => exact h.congr rfl rfl fun _ => rfl
  | stir => exact h.congr rfl rfl fun _ => rfl
  | spawn hhand hengine =>
    refine h.congr rfl ?_ fun hcreates => ?_
    · simp [Activity.contexts]
    · simp [State.pending, State.tasks, hhand, Activity.due, hcreates _ hengine]
      omega
  | @work before after engine spec activity next hworkers hadvance =>
    obtain ⟨hlive, hcreated⟩ := h
    simp only [State.pending, State.tasks, hworkers, List.map_append, List.map_cons,
      List.sum_append, List.sum_cons] at hlive hcreated
    have hcontexts : activity.contexts ≤ s.usage.live := by omega
    obtain ⟨hmoves, hmoved⟩ := Activity.moves_advance hadvance hcontexts
    constructor
    · simp only [List.map_append, List.map_cons, List.sum_append, List.sum_cons]
      omega
    · intro hcreates
      specialize hcreated hcreates
      simp only [State.pending, State.tasks, List.map_append, List.map_cons, List.sum_append,
        List.sum_cons]
      omega
  | deliver hworkers =>
    refine h.congr rfl ?_ fun _ => ?_
    · simp [hworkers, Activity.contexts]
    · simp [State.pending, State.tasks, hworkers, Activity.due]
  | giveBack hworkers =>
    refine h.congr rfl ?_ fun _ => ?_
    · simp [hworkers, Activity.contexts]
    · simp [State.pending, State.tasks, hworkers, Activity.due]

/-- Every context that lives belongs to a worker of its own. -/
theorem live_le (h : Accounts suite engines s) : s.usage.live ≤ s.workers.length := by
  rw [h.live_eq]
  induction s.workers with
  | nil => exact Nat.le_refl 0
  | cons worker rest ih =>
    have hcontexts := worker.activity.contexts_le_one
    simp only [List.map_cons, List.sum_cons, List.length_cons]
    omega

theorem live_final (h : Accounts suite engines s) (hfinal : s.IsFinal) : s.usage.live = 0 := by
  simp [h.live_eq, hfinal.2.2]

theorem created_final (h : Accounts suite engines s) (hfinal : s.IsFinal)
    (hcreates : ∀ engine, engines engine → engine.yield = 1) :
    s.usage.created = suite.runs.length := by
  obtain ⟨herrands, hhand, hworkers⟩ := hfinal
  simpa [State.pending, State.tasks, herrands, hhand, hworkers] using h.created_eq hcreates

end Accounts

theorem accounts_start (suite : Suite) (engines : Engine → Prop) (gate : Gate) :
    Accounts suite engines (.start gate suite.errands) where
  live_eq := rfl
  created_eq := by
    simp [State.pending, State.tasks, State.start, suite.flatMap_errands,
      suite.countP_corpusTasks]

theorem accounts_of_reaches {capacity : Nat}
    (h : Reaches suite engines (.start (.ofCapacity capacity) suite.errands) s) :
    Accounts suite engines s := by
  induction h with
  | refl => exact accounts_start suite engines _
  | step hreaches hstep ih => exact ih.step (admits_of_reaches hreaches) hstep

/-- Whatever the engines answer and whichever thread comes first: there are never more contexts than
permits that are out, nor more of those than the gate admits, and one at most without parallel runs.
The first thread waits for a permit only while a worker has one to give back, and the schedule can
be completed from wherever it has come. At the end no context and no permit is left, and every
planned run has made its context, if no engine panicked in making one. -/
theorem contexts_bounded (suite : Suite) (engines : Engine → Prop) (capacity : Nat) {s : State}
    (hreaches : Reaches suite engines (.start (.ofCapacity capacity) suite.errands) s) :
    s.usage.live ≤ s.gate.held ∧ s.gate.held ≤ max capacity 1 ∧
      (suite.settings.parallel = false → s.gate.held ≤ 1) ∧
      (s.IsBlocked → s.workers ≠ []) ∧
      ((∃ engine, engines engine) → ∃ final, Reaches suite engines s final ∧ final.IsFinal) ∧
      (s.IsFinal → s.usage.live = 0 ∧ s.gate.held = 0 ∧
        ((∀ engine, engines engine → ∃ context, engine.create = .returned context) →
          s.usage.created = suite.runs.length)) := by
  have hadmits := admits_of_reaches hreaches
  have haccounts := accounts_of_reaches hreaches
  have hheld : s.gate.held = s.workers.length + s.hand.toList.length := hadmits.held_eq
  refine ⟨?_, hadmits.capacity_eq ▸ hadmits.sound.held_le, ?_, hadmits.workers_ne_nil,
    fun hengines => exists_final hengines hadmits,
    fun hfinal => ⟨haccounts.live_final hfinal, ?_, ?_⟩⟩
  · have hlive := haccounts.live_le
    omega
  · intro hparallel
    exact hadmits.held_eq ▸ (hadmits.alone hparallel).2
  · simp [hheld, hfinal.2.1, hfinal.2.2]
  · intro hcreates
    apply haccounts.created_final hfinal
    intro engine hengine
    obtain ⟨context, hcontext⟩ := hcreates engine hengine
    simp [Engine.yield, hcontext]

theorem contexts_bounded_sample : ∃ final,
    Reaches .sample (· = Scripted.engine) (.start (.ofCapacity 0) Suite.sample.errands) final ∧
      final.IsFinal ∧ final.usage.created = Suite.sample.runs.length ∧
      final.usage.live = 0 ∧ final.gate.held = 0 := by
  have hengines : ∃ engine, engine = Scripted.engine := ⟨_, rfl⟩
  obtain ⟨final, hreaches, hfinal⟩ :=
    exists_final_of_start .sample 0 Suite.sample.errands hengines
  have hbounded := contexts_bounded .sample _ 0 hreaches
  obtain ⟨hlive, hheld, hcreated⟩ := hbounded.2.2.2.2.2 hfinal
  refine ⟨final, hreaches, hfinal, hcreated ?_, hlive, hheld⟩
  rintro engine rfl
  exact ⟨_, rfl⟩

end Schedule

end Conformance
