import Conformance.Proofs.Calls
import Conformance.Proofs.Course
import Conformance.Run.Schedule

/-!
# What a worker does

Whatever other threads do in between, a worker's steps come to what its run gives when it is
performed alone: `outlook_advance`. They come to an end by `rank_advance`.
A context is made at most once and given up before the result is handed in, however the engine
fails: `moves_advance` says what each step does to the number of contexts.
-/

namespace Conformance

/-- How many contexts a run makes: none where the engine panics instead. -/
def Engine.yield (engine : Engine) : Nat :=
  match engine.create with
  | .returned _ => 1
  | .panicked _ => 0

namespace Activity

variable {engine : Engine} {world : Files.World} {harness : String} {spec : TestRun}

/-- What the worker still comes to; nothing once its result has been handed in. -/
def outlook (world : Files.World) (harness : String) (spec : TestRun) :
    Activity engine → Option Ran
  | .running course =>
    let execution := course.execution world harness spec
    some (execution.conclude spec (execution.adjudicate spec))
  | .ended execution => some (execution.conclude spec (execution.adjudicate spec))
  | .judged execution adjudication => some (execution.conclude spec adjudication)
  | .settled ran => some ran
  | .delivered => none

theorem outlook_ofAttempt (phase : Phase) (attempt : Attempt engine) :
    outlook world harness spec (ofAttempt phase attempt) =
      let execution := Course.executionAfter world harness spec phase attempt
      some (execution.conclude spec (execution.adjudicate spec)) := by
  cases attempt <;> rfl

/-- A step of the worker does not change what it comes to. -/
theorem outlook_advance {activity next : Activity engine}
    (h : activity.advance world harness spec = some next) :
    next.outlook world harness spec = activity.outlook world harness spec := by
  cases activity with
  | running course =>
    cases h
    rw [outlook_ofAttempt, outlook, Course.execution_eq]
  | ended execution => cases h; rfl
  | judged execution adjudication => cases h; rfl
  | settled ran => cases h
  | delivered => cases h

/-- How many steps are left at most, up to the result that can be handed in. -/
def rank (spec : TestRun) : Activity engine → Nat
  | .running course => (course.actions spec).length + 3
  | .ended _ => 3
  | .judged .. => 2
  | .settled _ => 1
  | .delivered => 0

theorem rank_opening : rank spec (.running (.opening : Course engine)) = spec.actions.length + 3 :=
  rfl

theorem rank_advance {activity next : Activity engine}
    (h : activity.advance world harness spec = some next) :
    next.rank spec < activity.rank spec := by
  cases activity with
  | running course =>
    cases h
    obtain ⟨later, hactions, -⟩ := course.actions_eq spec
    cases hattempt : course.attempt world harness spec with
    | went next => simp [rank, ofAttempt, Course.actions_of_went hattempt]
    | finished session => simp [rank, ofAttempt, hactions]
    | stopped stop session => simp [rank, ofAttempt, hactions]
    | unopened panic => simp [rank, ofAttempt, hactions]
  | ended execution => cases h; simp [rank]
  | judged execution adjudication => cases h; simp [rank]
  | settled ran => cases h
  | delivered => cases h

/-- How many contexts the worker has. -/
def contexts : Activity engine → Nat
  | .running .opening => 0
  | .running _ => 1
  | .ended execution => if execution.context.isSome then 1 else 0
  | .judged execution _ => if execution.context.isSome then 1 else 0
  | _ => 0

/-- How many contexts the worker is still to make. -/
def due : Activity engine → Nat
  | .running .opening => engine.yield
  | _ => 0

theorem contexts_le_one (activity : Activity engine) : activity.contexts ≤ 1 := by
  unfold contexts
  split <;> (try split) <;> omega

theorem contexts_running {course : Course engine} (h : course ≠ .opening) :
    contexts (.running course) = 1 := by
  cases course <;> simp_all [contexts]

theorem due_running {course : Course engine} (h : course ≠ .opening) :
    due (.running course) = 0 := by
  cases course <;> simp_all [due]

/-- The contexts that there are and those that were made move with the worker: what it makes it
has, and what it has it gives up before there is a result to be handed in. -/
def Moves (activity next : Activity engine) (usage after : Usage) : Prop :=
  after.live + activity.contexts = usage.live + next.contexts ∧
    after.created + next.due = usage.created + activity.due

theorem moves_opening (usage : Usage) :
    Moves (.running .opening)
      (ofAttempt .early (Course.attempt world harness spec (.opening : Course engine))) usage
      (observe (.running .opening)
        (ofAttempt .early (Course.attempt world harness spec (.opening : Course engine)))
        usage) := by
  unfold observe
  simp only [Moves, Course.attempt, contexts, due, Engine.yield]
  cases engine.create with
  | returned context => simp [ofAttempt, calls, Course.calls, Usage.observe]
  | panicked panic => simp [ofAttempt, Execution.unopened]

theorem observe_of_calls_eq {activity next : Activity engine} {added : List Call}
    (h : activity ≠ .running .opening) (hcalls : next.calls = activity.calls ++ added)
    (usage : Usage) : observe activity next usage = added.foldl Usage.observe usage := by
  unfold observe
  split
  · exact absurd rfl h
  · rw [hcalls, List.drop_left]

theorem moves_of_quiet {activity next : Activity engine} {added : List Call}
    (h : activity ≠ .running .opening) (hcalls : next.calls = activity.calls ++ added)
    (hquiet : ∀ call ∈ added, call.IsQuiet) (hcontexts : next.contexts = activity.contexts)
    (hdue : next.due = activity.due) {usage : Usage} :
    Moves activity next usage (observe activity next usage) := by
  rw [observe_of_calls_eq h hcalls, Usage.foldl_observe_of_quiet hquiet]
  simp only [Moves, hcontexts, hdue, and_self]

theorem moves_of_drop {activity next : Activity engine} {added : List Call}
    (h : activity ≠ .running .opening) (hcalls : next.calls = activity.calls ++ (added ++ [.drop]))
    (hquiet : ∀ call ∈ added, call.IsQuiet) (hcontexts : activity.contexts = 1)
    (hnone : next.contexts = 0) (hdue : next.due = activity.due) {usage : Usage}
    (hlive : activity.contexts ≤ usage.live) :
    Moves activity next usage (observe activity next usage) := by
  rw [observe_of_calls_eq h hcalls, List.foldl_append, Usage.foldl_observe_of_quiet hquiet]
  simp only [Moves, List.foldl_cons, List.foldl_nil, Usage.observe, hcontexts, hnone, hdue,
    and_true]
  omega

/-- A later step of a run gives the context up where it panics. -/
theorem moves_running {course : Course engine} (h : course ≠ .opening) {usage : Usage}
    (hlive : contexts (.running course) ≤ usage.live) :
    Moves (.running course) (ofAttempt course.phase (course.attempt world harness spec)) usage
      (observe (.running course) (ofAttempt course.phase (course.attempt world harness spec))
        usage) := by
  have hactivity : running course ≠ .running .opening := fun heq => h (running.inj heq)
  have hcontexts := contexts_running h
  have hdue := due_running h
  cases hattempt : course.attempt world harness spec with
  | went next =>
    obtain ⟨added, hquiet, hcalls⟩ := Course.adds_of_attempt h hattempt
    have hnext := Course.ne_opening_of_went hattempt
    refine moves_of_quiet hactivity ?_ hquiet ?_ ?_
    · exact hcalls
    · exact (contexts_running hnext).trans hcontexts.symm
    · exact (due_running hnext).trans hdue.symm
  | finished session =>
    obtain ⟨added, hquiet, hcalls⟩ := Course.adds_of_attempt h hattempt
    refine moves_of_quiet hactivity ?_ hquiet ?_ ?_
    · exact hcalls
    · exact hcontexts.symm
    · exact hdue.symm
  | stopped stop session =>
    obtain ⟨added, hquiet, hcalls⟩ := Course.adds_of_attempt h hattempt
    cases stop with
    | failed failure =>
      refine moves_of_quiet hactivity ?_ hquiet ?_ ?_
      · exact hcalls
      · exact hcontexts.symm
      · exact hdue.symm
    | panicked panic =>
      refine moves_of_drop hactivity ?_ hquiet hcontexts ?_ ?_ hlive
      · rw [← List.append_assoc]
        exact congrArg (· ++ [Call.drop]) hcalls
      · rfl
      · exact hdue.symm
  | unopened panic => exact absurd (Course.eq_opening_of_unopened hattempt) h

theorem moves_judged (execution : Execution engine) (adjudication : Adjudication) {usage : Usage}
    (hlive : contexts (.judged execution adjudication) ≤ usage.live) :
    Moves (.judged execution adjudication) (.settled (execution.conclude spec adjudication)) usage
      (observe (.judged execution adjudication)
        (.settled (execution.conclude spec adjudication)) usage) := by
  have hopening : judged execution adjudication ≠ .running .opening := by simp
  have hquiet : ∀ call ∈ execution.listingCalls adjudication.inquiries, call.IsQuiet := by
    unfold Execution.listingCalls
    split <;> simp [Call.IsQuiet]
  have hcalls : calls (.settled (execution.conclude spec adjudication) : Activity engine) =
      execution.calls ++ (execution.listingCalls adjudication.inquiries ++
        (execution.giveUp adjudication.verdict.isPanicked).2) := by
    rw [← List.append_assoc]
    rfl
  cases hcontext : execution.context with
  | none =>
    rw [Execution.giveUp, hcontext, List.append_nil] at hcalls
    refine moves_of_quiet hopening hcalls hquiet ?_ rfl
    simp [contexts, hcontext]
  | some context =>
    rw [Execution.giveUp, hcontext] at hcalls
    refine moves_of_drop hopening hcalls hquiet ?_ rfl rfl hlive
    simp [contexts, hcontext]

theorem moves_advance {activity next : Activity engine}
    (h : activity.advance world harness spec = some next) {usage : Usage}
    (hlive : activity.contexts ≤ usage.live) :
    Moves activity next usage (observe activity next usage) := by
  cases activity with
  | running course =>
    cases h
    by_cases hopening : course = .opening
    · subst hopening
      exact moves_opening usage
    · exact moves_running hopening hlive
  | ended execution =>
    cases h
    have hcalls : (judged execution (execution.adjudicate spec)).calls =
        (ended execution).calls ++ [] := by simp [calls]
    exact moves_of_quiet (by simp) hcalls (by simp) rfl rfl
  | judged execution adjudication =>
    cases h
    exact moves_judged execution adjudication hlive
  | settled ran => cases h
  | delivered => cases h

end Activity

end Conformance
