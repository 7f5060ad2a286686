import Conformance.Proofs.Course

/-!
# When a run passes

`perform_eq_pass_iff` says exactly which runs pass, in terms of the steps of a run and the first
one that fails. `perform_eq_error_iff` says which runs end in an error of the harness; a run is
never skipped.
-/

namespace Conformance

/-- Whether a failure shows that type of error: as a thrown object of that constructor, or as a
compile error of the kind that stands for it. -/
def Failure.Shows (failure : Failure) (errorType : String) : Prop :=
  (∃ value, failure = .thrown value ∧ value.constructorName = .returned (.ok errorType)) ∨
  ∃ error, failure = .compile error ∧
    (error.kind = .grammar ∧ errorType = "SyntaxError" ∨
      error.kind = .reference ∧ errorType = "ReferenceError")

theorem Answer.map_eq_returned_iff {α β : Type} {f : α → β} {answer : Answer α} {value : β} :
    answer.map f = .returned value ↔ ∃ a, answer = .returned a ∧ f a = value := by
  cases answer <;> simp [Answer.map, Answer.bind]

theorem errorType_eq_ok_iff (failure : Failure) (errorType : String) :
    failure.errorType = .returned (.ok errorType) ↔ failure.Shows errorType := by
  cases failure with
  | thrown value =>
    simp only [Failure.errorType, Answer.map_eq_returned_iff, Failure.Shows]
    constructor
    · rintro ⟨name | name, hname, h⟩
      · cases h
      · cases h
        exact .inl ⟨value, rfl, hname⟩
    · rintro (⟨other, h, hname⟩ | ⟨error, h, -⟩)
      · cases h
        exact ⟨.ok errorType, hname, rfl⟩
      · cases h
  | compile error =>
    obtain ⟨kind, detail⟩ := error
    cases kind <;> simp [Failure.errorType, Failure.Shows, CompileErrorKind.errorType?, eq_comm]
  | load path cause => simp [Failure.errorType, Failure.Shows]
  | panicked message => simp [Failure.errorType, Failure.Shows]

variable {name : String} {negative : Option Negative} {dump : Answer (Option String)}

theorem withDump_ne_pass {verdict : Option String → Verdict}
    (h : ∀ listing, verdict listing ≠ .pass) :
    (Adjudication.withDump verdict dump).verdict ≠ .returned .pass := by
  intro hpass
  obtain ⟨listing, -, hlisting⟩ := Answer.map_eq_returned_iff.1 hpass
  exact h listing hlisting

theorem adjudicateType_eq_pass_iff (expected : Negative) (failure : Failure) :
    (adjudicateType name expected failure dump).verdict = .returned .pass ↔
      failure.errorType = .returned (.ok expected.errorType) := by
  unfold adjudicateType
  cases failure.errorType with
  | panicked panic => simp
  | returned answer =>
    cases answer with
    | error odd =>
      simp only [Adjudication.after]
      exact ⟨fun h => absurd h (withDump_ne_pass (by simp)), fun h => by simp at h⟩
    | ok errorType =>
      simp only [Adjudication.after]
      by_cases h : errorType = expected.errorType
      · simp [h, Adjudication.settled]
      · simp only [h, if_false]
        exact ⟨fun h' => absurd h' (withDump_ne_pass (by simp)), fun h' => by simp [h] at h'⟩

/-- A verdict is a pass where nothing was expected and nothing failed, or where the failure is of
the phase and type that were expected. -/
theorem adjudicate_eq_pass_iff (outcome : Outcome) :
    (adjudicate name negative outcome dump).verdict = .returned .pass ↔
      negative = none ∧ outcome = .success ∨
      ∃ expected failure, negative = some expected ∧ outcome = .failure failure expected.phase ∧
        failure.Shows expected.errorType := by
  cases outcome with
  | success => cases negative <;> simp [adjudicate, Adjudication.settled]
  | failure failure phase =>
    cases negative with
    | none => simp [adjudicate, Adjudication.settled]
    | some expected =>
      simp only [adjudicate]
      by_cases h : phase = expected.phase
      · simp [h, adjudicateType_eq_pass_iff, errorType_eq_ok_iff]
      · simp only [h, if_false]
        constructor
        · exact fun h' => absurd h' (withDump_ne_pass (by simp))
        · rintro (⟨h', -⟩ | ⟨other, failure', h', hphase, -⟩)
          · cases h'
          · cases h'
            cases hphase
            exact absurd rfl h

variable {engine : Engine}

/-- The grade that an adjudication comes to; a panic is an error. -/
def Adjudication.grade (adjudication : Adjudication) : Grade :=
  match adjudication.verdict with
  | .panicked _ => .error
  | .returned verdict => .ofVerdict verdict

@[simp] theorem grade_settled (verdict : Verdict) :
    (Adjudication.settled verdict).grade = .ofVerdict verdict := rfl

@[simp] theorem grade_after (inquiries : List Inquiry) (adjudication : Adjudication) :
    (adjudication.after inquiries).grade = adjudication.grade := rfl

theorem grade_conclude (execution : Execution engine) (spec : TestRun)
    (adjudication : Adjudication) :
    (execution.conclude spec adjudication).result.grade =
      match (execution.giveUp false).1 with
      | .panicked _ => .error
      | .returned () => adjudication.grade := by
  unfold Execution.conclude Adjudication.grade
  cases adjudication.verdict with
  | panicked panic => cases (execution.giveUp false).1 <;> rfl
  | returned verdict =>
    simp only [Answer.isPanicked]
    cases (execution.giveUp false).1 <;> rfl

theorem grade_eq_pass_iff (adjudication : Adjudication) :
    adjudication.grade = .pass ↔ adjudication.verdict = .returned .pass := by
  unfold Adjudication.grade
  cases adjudication.verdict with
  | panicked panic => simp
  | returned verdict => cases verdict <;> simp [Grade.ofVerdict]

theorem conclude_eq_pass_iff (execution : Execution engine) (spec : TestRun)
    (adjudication : Adjudication) :
    (execution.conclude spec adjudication).result.grade = .pass ↔
      adjudication.verdict = .returned .pass ∧ (execution.giveUp false).1 = .returned () := by
  rw [grade_conclude, ← grade_eq_pass_iff]
  cases (execution.giveUp false).1 <;> simp

theorem conclude_adjudicate_eq_pass_iff (execution : Execution engine) (spec : TestRun) :
    (execution.conclude spec (execution.adjudicate spec)).result.grade = .pass ↔
      (spec.matter.negative = none ∧ execution.outcome = .success ∨
        ∃ expected failure, spec.matter.negative = some expected ∧
          execution.outcome = .failure failure expected.phase ∧
          failure.Shows expected.errorType) ∧ (execution.giveUp false).1 = .returned () := by
  rw [conclude_eq_pass_iff, Execution.adjudicate, adjudicate_eq_pass_iff]

variable {world : Files.World} {harness : String} {spec : TestRun}

open Course

theorem perform_of_completes {actions : List Action} {session : Session engine}
    (h : Completes world harness spec .opening actions session) :
    (engine.perform world harness spec).result.grade = .pass ↔
      spec.matter.negative = none ∧ engine.drop false session.context = .returned () := by
  have hexecution := h.execution
  rw [execution_opening] at hexecution
  simp [Engine.perform, conclude_adjudicate_eq_pass_iff, hexecution, Execution.ofEnd,
    Execution.giveUp, Engine.giveUp]

theorem perform_of_failed {phase : Phase} {failure : Failure} {session : Session engine}
    (h : engine.execute world harness spec = .ofEnd phase (.error (.failed failure), session)) :
    (engine.perform world harness spec).result.grade = .pass ↔
      (∃ errorType, spec.matter.negative = some ⟨phase, errorType⟩ ∧ failure.Shows errorType) ∧
        engine.drop false session.context = .returned () := by
  simp only [Engine.perform, conclude_adjudicate_eq_pass_iff, h, Execution.ofEnd, Execution.giveUp,
    Engine.giveUp, reduceCtorEq, and_false, false_or, Outcome.failure.injEq]
  apply and_congr_left'
  constructor
  · rintro ⟨⟨_, errorType⟩, _, hnegative, ⟨rfl, rfl⟩, hshows⟩
    exact ⟨errorType, hnegative, hshows⟩
  · rintro ⟨errorType, hnegative, hshows⟩
    exact ⟨_, failure, hnegative, ⟨rfl, rfl⟩, hshows⟩

theorem perform_of_panicked {phase : Phase} {message : String}
    (h : (engine.execute world harness spec).outcome = .failure (.panicked message) phase) :
    (engine.perform world harness spec).result.grade ≠ .pass := by
  simp [Engine.perform, conclude_adjudicate_eq_pass_iff, h, Failure.Shows]

theorem last_action {before : List Action} {action : Action}
    (h : spec.actions = before ++ [action]) : action = .runBody := by
  have hlast := congrArg List.getLast? h
  simpa [TestRun.actions, Action.loadingAll, List.getLast?_cons, eq_comm] using hlast

/-- A run passes if and only if its context can be given up and it either comes to its end, where
no failure is declared, or stops at the failure that is declared: before its body runs, by a throw
or a compile error of that type, or in its body, by a throw of that type. -/
theorem perform_eq_pass_iff (engine : Engine) (world : Files.World) (harness : String)
    (spec : TestRun) :
    (engine.perform world harness spec).result.grade = .pass ↔
      ∃ session : Session engine, engine.drop false session.context = .returned () ∧
        (spec.matter.negative = none ∧
            Completes world harness spec .opening spec.actions session ∨
          (∃ errorType before action after failure,
            spec.matter.negative = some ⟨.early, errorType⟩ ∧
            spec.actions = before ++ action :: after ∧ after ≠ [] ∧
            Stops world harness spec .opening before action (.failed failure) session ∧
            failure.Shows errorType) ∨
          ∃ errorType before value,
            spec.matter.negative = some ⟨.runtime, errorType⟩ ∧
            spec.actions = before ++ [.runBody] ∧
            Stops world harness spec .opening before .runBody (.failed (.thrown value)) session ∧
            value.constructorName = .returned (.ok errorType)) := by
  constructor
  · intro hpass
    rcases ends world harness spec (.opening : Course engine) with
      ⟨actions, session, h⟩ | ⟨before, action, stop, session, h⟩ | ⟨panic, h⟩
    · obtain ⟨hnegative, hdrop⟩ := (perform_of_completes h).1 hpass
      obtain rfl := h.actions_eq
      exact ⟨session, hdrop, .inl ⟨hnegative, h⟩⟩
    · obtain ⟨phase, later, hexecution, hactions, hlater⟩ := h.execution
      rw [execution_opening] at hexecution
      cases stop with
      | panicked panic =>
        exact absurd hpass (perform_of_panicked (congrArg Execution.outcome hexecution))
      | failed failure =>
        obtain ⟨⟨errorType, hnegative, hshows⟩, hdrop⟩ := (perform_of_failed hexecution).1 hpass
        refine ⟨session, hdrop, .inr ?_⟩
        cases phase with
        | early =>
          have hne : later ≠ [] := fun hnil => by simpa using hlater.2 hnil
          exact .inl
            ⟨errorType, before, action, later, failure, hnegative, hactions, hne, h, hshows⟩
        | runtime =>
          rw [hlater.1 rfl] at hactions
          obtain ⟨value, rfl⟩ := h.thrown hactions
          obtain rfl := last_action hactions
          have hname : value.constructorName = .returned (.ok errorType) := by
            simpa [Failure.Shows] using hshows
          exact .inr ⟨errorType, before, value, hnegative, hactions, h, hname⟩
    · rw [execution_opening] at h
      exact absurd hpass (perform_of_panicked (congrArg Execution.outcome h))
  · rintro ⟨session, hdrop, ⟨hnegative, h⟩ |
      ⟨errorType, before, action, after, failure, hnegative, hactions, hafter, h, hshows⟩ |
      ⟨errorType, before, value, hnegative, hactions, h, hname⟩⟩
    · exact (perform_of_completes h).2 ⟨hnegative, hdrop⟩
    · obtain ⟨phase, later, hexecution, hactions', hlater⟩ := h.execution
      rw [execution_opening] at hexecution
      have hsame : later = after := by simpa [actions, hactions] using hactions'.symm
      cases phase with
      | early => exact (perform_of_failed hexecution).2 ⟨⟨errorType, hnegative, hshows⟩, hdrop⟩
      | runtime => exact absurd (hsame ▸ hlater.1 rfl) hafter
    · obtain ⟨phase, later, hexecution, hactions', hlater⟩ := h.execution
      rw [execution_opening] at hexecution
      have hnil : later = [] := by simpa [actions, hactions] using hactions'.symm
      have hshows : (Failure.thrown value).Shows errorType := .inl ⟨value, rfl, hname⟩
      obtain rfl := hlater.2 hnil
      exact (perform_of_failed hexecution).2 ⟨⟨errorType, hnegative, hshows⟩, hdrop⟩

theorem grade_withDump (verdict : Option String → Verdict) :
    (Adjudication.withDump verdict dump).grade =
      match dump with
      | .panicked _ => .error
      | .returned listing => .ofVerdict (verdict listing) := by
  cases dump <;> rfl

theorem grade_withDump_fail {message : String} :
    (Adjudication.withDump (.fail message) dump).grade = .error ↔
      ∃ panic, dump = .panicked panic := by
  cases dump <;> simp [grade_withDump, Grade.ofVerdict]

/-- Judging comes to an error where the type of a failure of the right phase cannot be read, or
where the listing of a failure that does not pass cannot be had. -/
theorem grade_adjudicate_eq_error_iff (name : String) (outcome : Outcome) :
    (adjudicate name negative outcome dump).grade = .error ↔
      ∃ expected failure phase, negative = some expected ∧ outcome = .failure failure phase ∧
        (phase = expected.phase ∧ (∀ errorType, ¬ failure.Shows errorType) ∨
          ¬ (phase = expected.phase ∧ failure.Shows expected.errorType) ∧
            ∃ panic, dump = .panicked panic) := by
  cases outcome with
  | success =>
    cases negative <;> simp [adjudicate, Grade.ofVerdict]
  | failure failure phase =>
    cases negative with
    | none => simp [adjudicate, Grade.ofVerdict]
    | some expected =>
      suffices hsuffices : (adjudicate name (some expected) (.failure failure phase) dump).grade =
          .error ↔ phase = expected.phase ∧ (∀ errorType, ¬ failure.Shows errorType) ∨
            ¬ (phase = expected.phase ∧ failure.Shows expected.errorType) ∧
              ∃ panic, dump = .panicked panic by
        rw [hsuffices]
        constructor
        · exact fun h => ⟨expected, failure, phase, rfl, rfl, h⟩
        · rintro ⟨_, _, _, ⟨⟩, ⟨⟩, h⟩
          exact h
      simp only [← errorType_eq_ok_iff, adjudicate]
      by_cases hphase : phase = expected.phase
      · simp only [hphase, if_true, adjudicateType, true_and]
        rcases failure.errorType with (odd | errorType) | panic
        · cases dump <;> simp [grade_withDump, Grade.ofVerdict]
        · by_cases htype : errorType = expected.errorType
          · simp [htype, Grade.ofVerdict]
          · simp [htype, grade_withDump_fail]
        · simp [Adjudication.grade]
      · simp [hphase, grade_withDump_fail]

/-- A run ends in an error if and only if its context cannot be given up, or a failure is declared
and the run fails in a way that cannot be judged: in the phase declared and with no type, or with
another failure than that and no listing to be had. -/
theorem perform_eq_error_iff (engine : Engine) (world : Files.World) (harness : String)
    (spec : TestRun) :
    (engine.perform world harness spec).result.grade = .error ↔
      (∃ panic, ((engine.execute world harness spec).giveUp false).1 = .panicked panic) ∨
      ∃ expected failure phase, spec.matter.negative = some expected ∧
        (engine.execute world harness spec).outcome = .failure failure phase ∧
        (phase = expected.phase ∧ (∀ errorType, ¬ failure.Shows errorType) ∨
          ¬ (phase = expected.phase ∧ failure.Shows expected.errorType) ∧
            ∃ panic, (engine.execute world harness spec).dump = .panicked panic) := by
  rw [Engine.perform, grade_conclude, Execution.adjudicate,
    ← grade_adjudicate_eq_error_iff spec.name]
  cases ((engine.execute world harness spec).giveUp false).1 <;> simp

theorem perform_ne_skip (engine : Engine) (world : Files.World) (harness : String)
    (spec : TestRun) : (engine.perform world harness spec).result.grade ≠ .skip := by
  have hverdict : ∀ verdict, Grade.ofVerdict verdict ≠ .skip := by
    intro verdict
    cases verdict <;> simp [Grade.ofVerdict]
  rw [Engine.perform, grade_conclude]
  split
  · simp
  · unfold Adjudication.grade
    split
    · simp
    · exact hverdict _

end Conformance
