import Mathlib.Algebra.Ring.Nat
import Conformance.Engine.Scripted
import Conformance.Proofs.Activity
import Conformance.Proofs.Permits
import Conformance.Proofs.Tasks

/-!
# Schedules come to an end

`State.remaining` counts the steps that are left, apart from waits. In every state that the gate
admits and that is not final some step lowers it, so a schedule can be completed from wherever it
has come: `exists_final`.
-/

namespace Conformance

/-- The steps that a task takes at most: for a run the permit, the way to a worker, the worker's own
steps, and the permit back. -/
def Task.remaining : Task → Nat
  | .note _ => 1
  | .leaveOut => 1
  | .run spec => spec.actions.length + 6

namespace Suite

variable (suite : Suite)

/-- The steps that an errand takes at most until only tasks are left of it. -/
def detour : Errand → Nat
  | .walk dir => (suite.walk dir).length + 1
  | .plan _ => 1
  | .task _ => 0

theorem sum_detour_walk_le (dir : String) :
    ((suite.walk dir).map suite.detour).sum ≤ (suite.walk dir).length := by
  unfold walk
  cases suite.world.tests suite.settings.root dir with
  | error cause => simp [detour]
  | ok files => simp [Function.comp_def, detour, List.map_const']

theorem sum_detour_plan (path : String) : ((suite.plan path).map suite.detour).sum = 0 := by
  simp [plan, Function.comp_def, detour, List.map_const']

end Suite

namespace Schedule

variable {suite : Suite} {engines : Engine → Prop} {capacity : Nat} {s : State}

/-- The steps that are left, waits aside. -/
def State.remaining (suite : Suite) (s : State) : Nat :=
  (s.errands.map suite.detour).sum + ((s.tasks suite).map (·.remaining)).sum +
    (s.hand.toList.map fun spec => spec.actions.length + 5).sum +
    (s.workers.map fun worker => worker.activity.rank worker.spec + 1).sum

theorem exists_step_of_worker {worker : Worker} {after : List Worker}
    (hworkers : s.workers = worker :: after) :
    ∃ t, Step suite engines s t ∧ t.remaining suite < s.remaining suite := by
  obtain ⟨engine, spec, activity⟩ := worker
  have hfirst : s.workers = [] ++ ⟨engine, spec, activity⟩ :: after := hworkers
  cases hadvance : activity.advance suite.world suite.settings.harnessDirectory spec with
  | some next =>
    refine ⟨_, .work hfirst hadvance, ?_⟩
    have hrank := Activity.rank_advance hadvance
    simp [State.remaining, State.tasks, hworkers]
    omega
  | none =>
    cases activity with
    | settled ran =>
      refine ⟨_, .deliver hfirst, ?_⟩
      simp [State.remaining, State.tasks, hworkers, Activity.rank]
    | delivered =>
      refine ⟨_, .giveBack hfirst, ?_⟩
      simp [State.remaining, State.tasks, hworkers, Activity.rank]
    | running => cases hadvance
    | ended => cases hadvance
    | judged => cases hadvance

theorem exists_step_of_free {errand : Errand} {rest : List Errand}
    (herrands : s.errands = errand :: rest) (hfree : s.IsFree suite.settings.parallel)
    (hlt : s.gate.inUse < s.gate.capacity) :
    ∃ t, Step suite engines s t ∧ t.remaining suite < s.remaining suite := by
  cases errand with
  | walk dir =>
    refine ⟨_, .walk herrands hfree, ?_⟩
    have hdetour := suite.sum_detour_walk_le dir
    simp [State.remaining, State.tasks, herrands, suite.flatMap_walk, Suite.tasksOf, Suite.detour]
    omega
  | plan path =>
    refine ⟨_, .plan herrands hfree, ?_⟩
    have hdetour := suite.sum_detour_plan path
    simp [State.remaining, State.tasks, herrands, suite.flatMap_plan, Suite.tasksOf, Suite.detour]
    omega
  | task task =>
    cases task with
    | note result =>
      refine ⟨_, .note herrands hfree, ?_⟩
      simp [State.remaining, State.tasks, herrands, Suite.tasksOf, Suite.detour, Task.remaining]
    | leaveOut =>
      refine ⟨_, .leaveOut herrands hfree, ?_⟩
      simp [State.remaining, State.tasks, herrands, Suite.tasksOf, Suite.detour, Task.remaining]
    | run spec =>
      refine ⟨_, .enter herrands hfree hlt, ?_⟩
      simp [State.remaining, State.tasks, herrands, Suite.tasksOf, Suite.detour, Task.remaining,
        hfree.2.1]
      omega

/-- The first thread can go on with an errand when nobody holds a permit: if it has waited for one,
it has been woken. -/
theorem exists_step_of_errand {errand : Errand} {rest : List Errand}
    (hadmits : Admits suite capacity s) (herrands : s.errands = errand :: rest)
    (hhand : s.hand = none) (hworkers : s.workers = []) :
    ∃ t, Step suite engines s t ∧ t.remaining suite < s.remaining suite := by
  have hlt := hadmits.lt_of_holders_eq (by simp [State.holders, hhand, hworkers])
  rcases Nat.eq_zero_or_pos s.gate.waiting with hnone | hwaiting
  · exact exists_step_of_free herrands ⟨hnone, hhand, .inr hworkers⟩ hlt
  · obtain ⟨-, spec, rest', hrun⟩ := hadmits.awaits hwaiting
    have hwoken : 0 < s.gate.woken := by
      rcases Nat.eq_zero_or_pos s.gate.woken with hnone | hwoken
      · simp only [Gate.waiting, hnone] at hwaiting
        have hcapacity := hadmits.sound.capacity_le hwaiting
        omega
      · exact hwoken
    refine ⟨_, .enterWoken hrun hwoken hlt, ?_⟩
    simp [State.remaining, State.tasks, hrun, Suite.tasksOf, Suite.detour, Task.remaining, hhand]
    omega

theorem exists_step (hengines : ∃ engine, engines engine) (hadmits : Admits suite capacity s)
    (hfinal : ¬ s.IsFinal) :
    ∃ t, Step suite engines s t ∧ t.remaining suite < s.remaining suite := by
  cases hworkers : s.workers with
  | cons worker after => exact exists_step_of_worker hworkers
  | nil =>
    cases hhand : s.hand with
    | some spec =>
      obtain ⟨engine, hengine⟩ := hengines
      refine ⟨_, .spawn hhand hengine, ?_⟩
      simp [State.remaining, State.tasks, hhand, hworkers, Activity.rank_opening]
    | none =>
      cases herrands : s.errands with
      | cons errand rest => exact exists_step_of_errand hadmits herrands hhand hworkers
      | nil => exact absurd ⟨herrands, hhand, hworkers⟩ hfinal

theorem Reaches.trans {s t u : State} (hst : Reaches suite engines s t)
    (htu : Reaches suite engines t u) : Reaches suite engines s u := by
  induction htu with
  | refl => exact hst
  | step _ hstep ih => exact ih.step hstep

/-- A schedule can be completed from wherever it has come. -/
theorem exists_final (hengines : ∃ engine, engines engine) (hadmits : Admits suite capacity s) :
    ∃ final, Reaches suite engines s final ∧ final.IsFinal := by
  -- some step that is no wait is always possible, and each of those leaves less to be done
  induction hsize : s.remaining suite using Nat.strongRecOn generalizing s with
  | ind size ih =>
    by_cases hfinal : s.IsFinal
    · exact ⟨s, .refl s, hfinal⟩
    · obtain ⟨t, hstep, hlt⟩ := exists_step hengines hadmits hfinal
      obtain ⟨final, hreaches, hend⟩ := ih _ (hsize ▸ hlt) (hadmits.step hstep) rfl
      exact ⟨final, ((Reaches.refl s).step hstep).trans hreaches, hend⟩

theorem exists_final_of_start (suite : Suite) (capacity : Nat) (errands : List Errand)
    (hengines : ∃ engine, engines engine) :
    ∃ final, Reaches suite engines (.start (.ofCapacity capacity) errands) final ∧ final.IsFinal :=
  exists_final hengines (admits_start suite capacity errands)

end Schedule

/-- A corpus of one test, whose contexts panic when they are given up, and of a directory that is
not there. -/
def Suite.sample : Suite where
  engine := Scripted.engine
  world := .ofTree (.directory [("corpus", .directory [
    ("harness", .directory [("assert.js", .file (.ok "")), ("sta.js", .file (.ok ""))]),
    ("test", .directory [
      ("a.js", .file (.ok "/*---\nes5id: 1.1\ndescription: a\n---*/\n// @panic-drop\n"))])])]) "/"
  settings := { Settings.standard with root := "/corpus", directories := ["test", "missing"] }

end Conformance
