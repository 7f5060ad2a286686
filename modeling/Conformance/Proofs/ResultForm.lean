import Conformance.Proofs.Adjudication
import Conformance.Proofs.Endings
import Conformance.Proofs.Scope

/-!
# The form of results

A result is either a note, of a whole file or directory that led to no run, or that of a run, and
each kind has its form: `Result.IsNote` and `Suite.IsRunResult`. Whatever the engines do, messages
begin with the name of the run they are about, and a listing comes only with a failure that the test
declares (`Engine.isSound_perform`); so all results of all reports are well formed
(`Suite.Ends.results_wellFormed`).
-/

namespace Conformance

/-- A message about the run of that name. -/
def IsMessageOf (name message : String) : Prop :=
  ∃ text, message = name ++ ": " ++ text

namespace IsMessageOf

variable {name message : String}

theorem append (h : IsMessageOf name message) (later : String) :
    IsMessageOf name (message ++ later) := by
  obtain ⟨text, rfl⟩ := h
  exact ⟨text ++ later, String.append_assoc⟩

theorem of_text (name text : String) : IsMessageOf name (name ++ (": " ++ text)) :=
  ⟨text, String.append_assoc.symm⟩

end IsMessageOf

/-! ### Verdicts -/

/-- A verdict on the run of that name against the failure that its test declares. -/
structure Verdict.IsOn (name : String) (negative : Option Negative) (verdict : Verdict) : Prop where
  message : ∀ message, verdict.message? = some message → IsMessageOf name message
  diagnostics : verdict.diagnostics?.isSome → negative.isSome

/-- Whatever verdict an adjudication comes to is one on that run. -/
def Adjudication.IsOn (name : String) (negative : Option Negative) (adjudication : Adjudication) :
    Prop :=
  ∀ verdict, adjudication.verdict = .returned verdict → verdict.IsOn name negative

section Adjudicate

variable {name message : String} {negative : Option Negative} {dump : Answer (Option String)}

theorem isOn_pass : Verdict.pass.IsOn name negative where
  message := fun _ h => by cases h
  diagnostics := fun h => by cases h

/-- A failure and an error alike, by what they say. -/
theorem isOn_of_message {verdict : Verdict} (heq : verdict.message? = some message)
    (hmessage : IsMessageOf name message)
    (h : verdict.diagnostics?.isSome → negative.isSome) : verdict.IsOn name negative where
  message := fun _ hother => Option.some.inj (heq.symm.trans hother) ▸ hmessage
  diagnostics := h

theorem isOn_settled {verdict : Verdict} (h : verdict.IsOn name negative) :
    (Adjudication.settled verdict).IsOn name negative := by
  intro other hother
  cases hother
  exact h

theorem isOn_withDump {verdict : Option String → Verdict}
    (h : ∀ listing, (verdict listing).IsOn name negative) :
    (Adjudication.withDump verdict dump).IsOn name negative := by
  intro other hother
  obtain ⟨listing, -, rfl⟩ := Answer.map_eq_returned_iff.1 hother
  exact h listing

theorem isOn_after {adjudication : Adjudication} (h : adjudication.IsOn name negative)
    (inquiries : List Inquiry) : (adjudication.after inquiries).IsOn name negative := h

theorem isOn_adjudicateType (name : String) (expected : Negative) (failure : Failure) :
    (adjudicateType name expected failure dump).IsOn name (some expected) := by
  unfold adjudicateType
  dsimp only
  split
  · intro verdict hverdict
    cases hverdict
  · apply isOn_after
    apply isOn_withDump
    intro listing
    apply isOn_of_message rfl _ fun _ => rfl
    exact ⟨_, rfl⟩
  · apply isOn_after
    split
    · exact isOn_settled isOn_pass
    · apply isOn_withDump
      intro listing
      apply isOn_of_message rfl _ fun _ => rfl
      have hname := IsMessageOf.of_text name "unexpected error type ("
      exact (((hname.append _).append _).append _).append _

theorem isOn_adjudicate (name : String) (negative : Option Negative) (outcome : Outcome) :
    (adjudicate name negative outcome dump).IsOn name negative := by
  cases outcome with
  | success =>
    cases negative with
    | none => exact isOn_settled isOn_pass
    | some expected =>
      apply isOn_settled
      apply isOn_of_message rfl _ fun h => by cases h
      have hname := IsMessageOf.of_text name "expected failure did not occur (expected "
      exact (((hname.append _).append _).append _).append _
  | failure failure phase =>
    cases negative with
    | none =>
      apply isOn_settled
      apply isOn_of_message rfl _ fun h => by cases h
      exact ⟨_, rfl⟩
    | some expected =>
      unfold adjudicate
      dsimp only
      split
      · exact isOn_adjudicateType name expected failure
      · apply isOn_withDump
        intro listing
        apply isOn_of_message rfl _ fun _ => rfl
        have hname := IsMessageOf.of_text name "error "
        exact (((hname.append _).append _).append _).append _

end Adjudicate

/-! ### Results -/

namespace Result

/-- The form of a result of a whole file or directory. -/
structure IsNote (result : Result) : Prop where
  grade_eq : result.grade = .skip ∨ result.grade = .error
  name_eq : result.name = result.path
  error_isSome : result.error.isSome
  diagnostics_eq : result.diagnostics = none
  expected_eq : result.expected = none

theorem isNote_ofFile (path : String) {grade : Grade} (h : grade = .skip ∨ grade = .error)
    (message : String) : (ofFile path grade (some message)).IsNote where
  grade_eq := h
  name_eq := rfl
  error_isSome := rfl
  diagnostics_eq := rfl
  expected_eq := rfl

/-- What holds of a run's result by itself, whatever its test is. -/
structure IsSound (result : Result) : Prop where
  grade_ne : result.grade ≠ .skip
  error_isSome_iff : result.error.isSome ↔ result.grade ≠ .pass
  error_isMessage : ∀ message, result.error = some message → IsMessageOf result.name message
  diagnostics_isSome : result.diagnostics.isSome →
    result.expected.isSome ∧ (result.grade = .fail ∨ result.grade = .error)

end Result

namespace TestRun

variable {spec : TestRun}

theorem isSound_resultOf {verdict : Verdict} (h : verdict.IsOn spec.name spec.matter.negative) :
    (spec.resultOf verdict).IsSound where
  grade_ne := by cases verdict <;> simp [resultOf, Grade.ofVerdict]
  error_isSome_iff := by cases verdict <;> simp [resultOf, Grade.ofVerdict, Verdict.message?]
  error_isMessage := h.message
  diagnostics_isSome := by
    intro hlisting
    refine ⟨h.diagnostics hlisting, ?_⟩
    cases verdict with
    | pass => cases hlisting
    | fail message listing => exact .inl rfl
    | fatal message listing => exact .inr rfl

theorem isSound_panicResult (panic : Panic) : (spec.panicResult panic).IsSound where
  grade_ne := by simp [panicResult]
  error_isSome_iff := by simp [panicResult]
  error_isMessage := by
    intro message h
    have hname := IsMessageOf.of_text spec.name "engine panic: "
    exact Option.some.inj h ▸ hname.append panic.message
  diagnostics_isSome := fun hlisting => by cases hlisting

end TestRun

/-- The result of a run is sound whatever the engine does. -/
theorem Engine.isSound_perform (engine : Engine) (world : Files.World) (harness : String)
    (spec : TestRun) : (engine.perform world harness spec).result.IsSound := by
  unfold Engine.perform
  rcases Execution.result_conclude (engine.execute world harness spec) spec _ with
    ⟨panic, h⟩ | ⟨verdict, hverdict, h⟩
  · exact h ▸ TestRun.isSound_panicResult panic
  · exact h ▸ TestRun.isSound_resultOf (isOn_adjudicate _ _ _ verdict hverdict)

/-- What can be told of a result before it is known: its outline, and that it is sound if it is that
of a run. -/
def Result.guarantee (result : Result) : Result × Prop :=
  (result.outline, result.variant.isSome → result.IsSound)

theorem Engine.guarantee_perform (engine : Engine) (world : Files.World) (harness : String)
    (spec : TestRun) :
    (engine.perform world harness spec).result.guarantee = (spec.resultOf .pass, True) := by
  have hsound := engine.isSound_perform world harness spec
  exact Prod.ext (engine.outline_perform world harness spec) (eq_true fun _ => hsound)

namespace Suite

variable (suite : Suite)

/-- What is known of a task before it is performed: a note has its form, and a run goes by the front
matter of a file that can be read. -/
inductive Plans : Task → Prop where
  | note {result : Result} : result.variant = none → result.IsNote → Plans (.note result)
  | leaveOut : Plans .leaveOut
  | run {spec : TestRun} {source : String} :
    suite.world.read (Files.join suite.settings.root spec.path) = .ok source →
    FrontMatter.extract source = .ok spec.matter → Plans (.run spec)

variable {suite}

theorem plans_of_mem_fileTasks {path : String} {task : Task} (h : task ∈ suite.fileTasks path) :
    suite.Plans task := by
  unfold fileTasks at h
  cases hplan : suite.planOf path with
  | skipped cause =>
    rw [hplan] at h
    rw [List.mem_singleton.1 h]
    exact .note rfl (Result.isNote_ofFile path (.inl rfl) _)
  | notApplicable =>
    rw [hplan] at h
    rw [List.mem_singleton.1 h]
    exact .leaveOut
  | invalid problem =>
    rw [hplan] at h
    rw [List.mem_singleton.1 h]
    exact .note rfl (Result.isNote_ofFile path (.inr rfl) _)
  | run runs =>
    rw [hplan] at h
    obtain ⟨spec, hspec, rfl⟩ := List.mem_map.1 h
    obtain ⟨source, hread, hsource⟩ := Plan.ofFile_eq_run_iff.1 hplan
    obtain ⟨-, matter, hmatter, -, -, rfl⟩ := Plan.ofSource_eq_run_iff.1 hsource
    obtain ⟨variant, -, rfl⟩ := List.mem_map.1 hspec
    exact .run hread hmatter

theorem plans_of_mem_directoryTasks {dir : String} {task : Task}
    (h : task ∈ suite.directoryTasks dir) : suite.Plans task := by
  rw [directoryTasks_eq] at h
  rcases List.mem_append.1 h with hnote | hfile
  · obtain ⟨result, hresult, rfl⟩ := List.mem_map.1 hnote
    obtain ⟨cause, -, rfl⟩ := suite.mem_directoryNotes.1 hresult
    exact .note rfl (Result.isNote_ofFile dir (.inr rfl) _)
  · obtain ⟨path, -, htask⟩ := List.mem_flatMap.1 hfile
    exact plans_of_mem_fileTasks htask

theorem plans_of_mem_tasksFor {target : Target} {task : Task} (h : task ∈ suite.tasksFor target) :
    suite.Plans task := by
  cases target with
  | file path => exact plans_of_mem_fileTasks h
  | corpus =>
    obtain ⟨dir, -, htask⟩ := List.mem_flatMap.1 h
    exact plans_of_mem_directoryTasks htask

variable (suite)

/-- The form of the result of a run of that variant. -/
structure IsRunResult (variant : Variant) (result : Result) : Prop extends result.IsSound where
  name_eq : result.name = variant.runName result.path
  matter : ∃ source matter,
    suite.world.read (Files.join suite.settings.root result.path) = .ok source ∧
      FrontMatter.extract source = .ok matter ∧ result.description = matter.description ∧
      result.expected = matter.negative

variable {suite}

/-- A result of a report has the outline of a task, and is sound if it is that of a run. -/
theorem Ends.exists_task {engines : Engine → Prop} {target : Target} {report : Report}
    (h : suite.Ends engines target report) {result : Result} (hresult : result ∈ report.results) :
    ∃ task ∈ suite.tasksFor target, result.outline ∈ task.outlines ∧
      (result.variant.isSome → result.IsSound) := by
  have hguarantees := h.views_perm fun engine _ spec => engine.guarantee_perform _ _ spec
  have hmem := hguarantees.subset (List.mem_map_of_mem hresult)
  obtain ⟨task, htask, hprospect⟩ := List.mem_flatMap.1 hmem
  refine ⟨task, htask, ?_⟩
  cases plans_of_mem_tasksFor htask with
  | leaveOut => cases hprospect
  | @note noted hvariant hnote =>
    obtain ⟨houtline, -⟩ := Prod.mk.inj (List.mem_singleton.1 hprospect)
    refine ⟨List.mem_singleton.2 houtline, ?_⟩
    intro hsome
    rw [← result.variant_outline, houtline, noted.variant_outline, hvariant] at hsome
    cases hsome
  | @run spec source hread hmatter =>
    obtain ⟨houtline, hsound⟩ := Prod.mk.inj (List.mem_singleton.1 hprospect)
    exact ⟨List.mem_singleton.2 houtline, of_eq_true hsound⟩

/-- Every result in a report of a corpus or of one file is well formed, whichever engines its runs
meet and in whatever order they go on. -/
theorem Ends.results_wellFormed {suite : Suite} {engines : Engine → Prop} {target : Target}
    {report : Report} (h : suite.Ends engines target report) :
    ∀ result ∈ report.results,
      (result.variant = none → result.IsNote) ∧
      ∀ variant, result.variant = some variant → suite.IsRunResult variant result := by
  intro result hresult
  obtain ⟨task, htask, houtline, hsound⟩ := h.exists_task hresult
  cases plans_of_mem_tasksFor htask with
  | leaveOut => cases houtline
  | @note noted hvariant hnote =>
    have heq := List.mem_singleton.1 houtline
    have hnone : result.variant = none := by
      rw [← result.variant_outline, heq, noted.variant_outline, hvariant]
    rw [result.outline_of_none hnone, noted.outline_of_none hvariant] at heq
    subst heq
    refine ⟨fun _ => hnote, ?_⟩
    intro variant hsome
    rw [hnone] at hsome
    cases hsome
  | @run spec source hread hmatter =>
    have heq := List.mem_singleton.1 houtline
    have hsome : result.variant = some spec.variant :=
      result.variant_outline.symm.trans (congrArg Result.variant heq)
    have hpath : result.path = spec.path :=
      result.path_outline.symm.trans (congrArg Result.path heq)
    have hname : result.name = spec.name :=
      result.name_outline.symm.trans (congrArg Result.name heq)
    have hdescription : result.description = spec.matter.description :=
      result.description_outline.symm.trans (congrArg Result.description heq)
    have hexpected : result.expected = spec.matter.negative :=
      result.expected_outline.symm.trans (congrArg Result.expected heq)
    constructor
    · intro hnone
      rw [hsome] at hnone
      cases hnone
    · intro variant hvariant
      obtain rfl : spec.variant = variant := Option.some.inj (hsome.symm.trans hvariant)
      rw [← hpath] at hread
      refine { hsound (by simp [hsome]) with name_eq := ?_, matter := ?_ }
      · rw [hname, hpath, TestRun.name]
      · exact ⟨source, spec.matter, hread, hmatter, hdescription, hexpected⟩

theorem Ends.results_wellFormed_sample : ∃ report, sample.Ends (fun _ => True) .corpus report ∧
    (∃ result ∈ report.results, result.path = "missing" ∧ result.IsNote) ∧
    ∃ result ∈ report.results, result.grade = .error ∧ sample.IsRunResult .strict result := by
  have hrun := sample.run_eq_completed rfl (by decide +kernel)
  have hends : sample.Ends (fun _ => True) .corpus _ := .corpus trivial hrun
  obtain ⟨note, hnote, hpath, hnone⟩ :
      ∃ result ∈ (sample.performAll sample.corpusTasks).report.results,
        result.path = "missing" ∧ result.variant = none := by
    decide +kernel
  obtain ⟨ran, hran, herror, hstrict⟩ :
      ∃ result ∈ (sample.performAll sample.corpusTasks).report.results,
        result.grade = .error ∧ result.variant = some .strict := by
    decide +kernel
  exact ⟨_, hends, ⟨note, hnote, hpath, (Ends.results_wellFormed hends note hnote).1 hnone⟩,
    ran, hran, herror, (Ends.results_wellFormed hends ran hran).2 .strict hstrict⟩

end Suite

end Conformance
