import Mathlib.Data.List.Sublists
import Conformance.Proofs.Scope

/-!
# How a test is planned

A test is held back by the first gate that it does not pass: the skip list, the reading of its front
matter, the edition, the features it uses. `PlannedAs` says of each plan when a source has it, and
`FoundAs` says it of a file. What passes all gates has one run for each variant that its flags leave,
each with a source of its own (`RunsAs`).
-/

namespace Conformance

namespace FrontMatter

variable {matter : FrontMatter} {edition : Edition}

/-- The id that front matter gives for an edition, as it stands there. -/
def givenId (matter : FrontMatter) : Edition → Option String
  | .es5 => matter.es5id
  | .es6 => matter.es6id
  | .current => matter.esid

theorem editionId_eq (matter : FrontMatter) (edition : Edition) :
    matter.editionId edition = (matter.givenId edition).filter (· ≠ "") := by
  cases edition <;> rfl

/-- An empty id is as good as none. -/
theorem editionId_eq_none_iff : matter.editionId edition = none ↔
    matter.givenId edition = none ∨ matter.givenId edition = some "" := by
  rw [editionId_eq]
  cases matter.givenId edition <;> simp

theorem editionId_eq_some_iff {id : String} :
    matter.editionId edition = some id ↔ matter.givenId edition = some id ∧ id ≠ "" := by
  rw [editionId_eq, Option.filter_eq_some_iff]
  simp

theorem variants_sublist (matter : FrontMatter) :
    matter.variants.Sublist [.nonStrict, .strict] := by
  unfold variants
  cases matter.flags.contains .raw <;> cases matter.flags.contains .onlyStrict <;>
    cases matter.flags.contains .noStrict <;> decide

theorem nonStrict_mem_variants_iff : Variant.nonStrict ∈ matter.variants ↔
    matter.flags.contains .raw = true ∨ matter.flags.contains .onlyStrict = false := by
  unfold variants
  cases matter.flags.contains .raw <;> cases matter.flags.contains .onlyStrict <;>
    cases matter.flags.contains .noStrict <;> decide

theorem strict_mem_variants_iff : Variant.strict ∈ matter.variants ↔
    matter.flags.contains .raw = false ∧ matter.flags.contains .noStrict = false := by
  unfold variants
  cases matter.flags.contains .raw <;> cases matter.flags.contains .onlyStrict <;>
    cases matter.flags.contains .noStrict <;> decide

end FrontMatter

namespace Plan

/-- The runs of a test: at most one for each variant, with the source of that variant. -/
structure RunsAs (path source : String) (matter : FrontMatter) (runs : List TestRun) : Prop where
  sublist : (runs.map (·.variant)).Sublist [.nonStrict, .strict]
  nonStrict_iff : Variant.nonStrict ∈ runs.map (·.variant) ↔
    matter.flags.contains .raw = true ∨ matter.flags.contains .onlyStrict = false
  strict_iff : Variant.strict ∈ runs.map (·.variant) ↔
    matter.flags.contains .raw = false ∧ matter.flags.contains .noStrict = false
  path_eq : ∀ run ∈ runs, run.path = path
  matter_eq : ∀ run ∈ runs, run.matter = matter
  plain : ∀ run ∈ runs, run.variant = .nonStrict → run.source = source
  strict : ∀ run ∈ runs, run.variant = .strict → run.source = "'use strict';\n" ++ source

/-- The plan for a source, by the first gate that it does not pass. -/
inductive PlannedAs (settings : Settings) (path source : String) : Plan → Prop
  | listed {reason : String} : settings.skipList.reason? path = some reason →
    PlannedAs settings path source (.skipped (.listed reason))
  | malformed {problem : Problem} : settings.skipList.reason? path = none →
    FrontMatter.extract source = .error problem →
    PlannedAs settings path source (.invalid problem)
  | foreign {matter : FrontMatter} : settings.skipList.reason? path = none →
    FrontMatter.extract source = .ok matter →
    matter.givenId settings.edition = none ∨ matter.givenId settings.edition = some "" →
    PlannedAs settings path source .notApplicable
  | unsupported {matter : FrontMatter} {id feature : String} {before after : List String} :
    settings.skipList.reason? path = none → FrontMatter.extract source = .ok matter →
    matter.givenId settings.edition = some id → id ≠ "" →
    matter.features = before ++ feature :: after → feature ∈ settings.unsupported →
    (∀ other ∈ before, other ∉ settings.unsupported) →
    PlannedAs settings path source (.skipped (.unsupported feature))
  | run {matter : FrontMatter} {id : String} {runs : List TestRun} :
    settings.skipList.reason? path = none → FrontMatter.extract source = .ok matter →
    matter.givenId settings.edition = some id → id ≠ "" →
    (∀ feature ∈ matter.features, feature ∉ settings.unsupported) →
    RunsAs path source matter runs →
    PlannedAs settings path source (.run runs)

/-- The plan for a file: a listed one is not looked for, and one that is read is planned by what is
read. -/
inductive FoundAs (world : Files.World) (settings : Settings) (path : String) : Plan → Prop
  | listed {reason : String} : settings.skipList.reason? path = some reason →
    FoundAs world settings path (.skipped (.listed reason))
  | unreadable {cause : Files.AccessFault} : settings.skipList.reason? path = none →
    world.read (Files.join settings.root path) = .error cause →
    FoundAs world settings path (.invalid (.access (Files.join settings.root path) cause))
  | read {source : String} {plan : Plan} : settings.skipList.reason? path = none →
    world.read (Files.join settings.root path) = .ok source →
    PlannedAs settings path source plan → FoundAs world settings path plan

variable {settings : Settings} {path source : String} {matter : FrontMatter}

theorem eq_of_sublist {variants : List Variant} (h : variants.Sublist [.nonStrict, .strict]) :
    variants = (if Variant.nonStrict ∈ variants then [Variant.nonStrict] else []) ++
      if Variant.strict ∈ variants then [Variant.strict] else [] := by
  have hall : ∀ variants ∈ List.sublists [Variant.nonStrict, Variant.strict],
      variants = (if Variant.nonStrict ∈ variants then [Variant.nonStrict] else []) ++
        if Variant.strict ∈ variants then [Variant.strict] else [] := by decide
  exact hall variants (List.mem_sublists.2 h)

theorem runsAs_iff {runs : List TestRun} :
    RunsAs path source matter runs ↔ ofFrontMatter path source matter = runs := by
  constructor
  · intro h
    have hvariants : matter.variants = runs.map (·.variant) := by
      rw [eq_of_sublist h.sublist, eq_of_sublist matter.variants_sublist]
      simp only [h.nonStrict_iff, h.strict_iff, FrontMatter.nonStrict_mem_variants_iff,
        FrontMatter.strict_mem_variants_iff]
    have hruns : ∀ run ∈ runs,
        TestRun.mk path run.variant (run.variant.sourceOf source) matter = run := by
      intro run hrun
      have hsource : run.variant.sourceOf source = run.source := by
        cases hvariant : run.variant with
        | nonStrict => exact (h.plain run hrun hvariant).symm
        | strict => exact (h.strict run hrun hvariant).symm
      rw [hsource, ← h.path_eq run hrun, ← h.matter_eq run hrun]
    rw [ofFrontMatter, hvariants, List.map_map]
    exact (List.map_congr_left hruns).trans (List.map_id runs)
  · rintro rfl
    have hvariants : (ofFrontMatter path source matter).map (·.variant) = matter.variants := by
      simp [ofFrontMatter, Function.comp_def]
    have hruns : ∀ run ∈ ofFrontMatter path source matter,
        run.path = path ∧ run.matter = matter ∧ run.source = run.variant.sourceOf source := by
      intro run hrun
      obtain ⟨variant, -, rfl⟩ := List.mem_map.1 hrun
      exact ⟨rfl, rfl, rfl⟩
    refine ⟨hvariants ▸ matter.variants_sublist, hvariants ▸ FrontMatter.nonStrict_mem_variants_iff,
      hvariants ▸ FrontMatter.strict_mem_variants_iff, fun run h => (hruns run h).1,
      fun run h => (hruns run h).2.1, ?_, ?_⟩
    · intro run hrun hvariant
      rw [(hruns run hrun).2.2, hvariant]
      rfl
    · intro run hrun hvariant
      rw [(hruns run hrun).2.2, hvariant]
      rfl

theorem PlannedAs.eq {plan : Plan} (h : PlannedAs settings path source plan) :
    ofSource settings path source = plan := by
  unfold ofSource
  cases h with
  | listed hreason => rw [hreason]
  | malformed hreason hextract => simp only [hreason, hextract]
  | foreign hreason hextract hid =>
    simp only [hreason, hextract, FrontMatter.editionId_eq_none_iff.2 hid]
  | @unsupported matter id feature before after hreason hextract hid hne hsplit hmem hbefore =>
    have hfeature : matter.features.find? (settings.unsupported.contains ·) = some feature := by
      rw [List.find?_eq_some_iff_append]
      exact ⟨by simpa using hmem, before, after, hsplit, by simpa using hbefore⟩
    simp only [hreason, hextract, FrontMatter.editionId_eq_some_iff.2 ⟨hid, hne⟩, hfeature]
  | @run matter id runs hreason hextract hid hne hfeatures hruns =>
    exact ofSource_eq_run_iff.2 ⟨hreason, matter, hextract,
      Option.isSome_of_mem (FrontMatter.editionId_eq_some_iff.2 ⟨hid, hne⟩), hfeatures,
      runsAs_iff.1 hruns⟩

theorem exists_plannedAs (settings : Settings) (path source : String) :
    ∃ plan, PlannedAs settings path source plan := by
  cases hreason : settings.skipList.reason? path with
  | some reason => exact ⟨_, .listed hreason⟩
  | none =>
    cases hextract : FrontMatter.extract source with
    | error problem => exact ⟨_, .malformed hreason hextract⟩
    | ok matter =>
      cases hid : matter.editionId settings.edition with
      | none => exact ⟨_, .foreign hreason hextract (FrontMatter.editionId_eq_none_iff.1 hid)⟩
      | some id =>
        obtain ⟨hgiven, hne⟩ := FrontMatter.editionId_eq_some_iff.1 hid
        cases hfeature : matter.features.find? (settings.unsupported.contains ·) with
        | some feature =>
          obtain ⟨hmem, before, after, hsplit, hbefore⟩ :=
            List.find?_eq_some_iff_append.1 hfeature
          exact ⟨_, .unsupported hreason hextract hgiven hne hsplit (by simpa using hmem)
            (by simpa using hbefore)⟩
        | none =>
          exact ⟨_, .run hreason hextract hgiven hne (by simpa using hfeature)
            (runsAs_iff.2 rfl)⟩

theorem ofSource_eq_iff {plan : Plan} :
    ofSource settings path source = plan ↔ PlannedAs settings path source plan := by
  obtain ⟨planned, hplanned⟩ := exists_plannedAs settings path source
  constructor
  · rintro rfl
    rwa [hplanned.eq]
  · exact PlannedAs.eq

variable {world : Files.World}

theorem ofFile_eq_iff {plan : Plan} :
    ofFile world settings path = plan ↔ FoundAs world settings path plan := by
  constructor
  · rintro rfl
    unfold ofFile
    cases hreason : settings.skipList.reason? path with
    | some reason => exact .listed hreason
    | none =>
      cases hread : world.read (Files.join settings.root path) with
      | error cause =>
        simp only [hread]
        exact .unreadable hreason hread
      | ok source =>
        simp only [hread]
        exact .read hreason hread (ofSource_eq_iff.1 rfl)
  · intro h
    unfold ofFile
    cases h with
    | listed hreason => rw [hreason]
    | unreadable hreason hread => simp only [hreason, hread]
    | read hreason hread hplanned => simp only [hreason, hread, hplanned.eq]

/-- A file that can be read is planned as its text, listed or not. -/
theorem ofFile_eq_ofSource (hread : world.read (Files.join settings.root path) = .ok source) :
    ofFile world settings path = ofSource settings path source := by
  unfold ofFile
  cases hreason : settings.skipList.reason? path with
  | some reason => simp [ofSource, hreason]
  | none => simp only [hread]

/-- A test is planned by the first gate that it does not pass, whether its source is given or read
from a file; of a listed path no file is looked for, and both ways of planning agree on what is
read. -/
theorem planned_by_first_gate (settings : Settings) (path : String) :
    (∀ source plan, ofSource settings path source = plan ↔ PlannedAs settings path source plan) ∧
    (∀ world plan, ofFile world settings path = plan ↔ FoundAs world settings path plan) ∧
    (∀ reason, settings.skipList.reason? path = some reason →
      ∀ world, ofFile world settings path = .skipped (.listed reason)) ∧
    (∀ world source, world.read (Files.join settings.root path) = .ok source →
      ofFile world settings path = ofSource settings path source) ∧
    (∀ reason, (SkipCause.listed reason).message = "Test is on skip list (" ++ reason ++ ")") ∧
    ∀ feature, (SkipCause.unsupported feature).message = "unsupported feature: " ++ feature :=
  ⟨fun _ _ => ofSource_eq_iff, fun _ _ => ofFile_eq_iff,
    fun _ hreason _ => ofFile_eq_iff.2 (.listed hreason), fun _ _ => ofFile_eq_ofSource,
    fun _ => rfl, fun _ => rfl⟩

/-- A corpus of one test that has no front matter. -/
def bareTree : Files.Entry :=
  .directory [("corpus", .directory [("test", .directory [("a.js", .file (.ok "1;\n"))])])]

def bareSettings : Settings :=
  { Settings.standard with root := "/corpus", skipList := .insert .empty "test/gone.js" "flaky" }

theorem planned_by_first_gate_bare :
    bareSettings.skipList.reason? "test/gone.js" = some "flaky" ∧
    ofFile (.ofTree bareTree "/") bareSettings "test/gone.js" = .skipped (.listed "flaky") ∧
    (Files.World.ofTree bareTree "/").read "/corpus/test/a.js" = .ok "1;\n" ∧
    ofFile (.ofTree bareTree "/") bareSettings "test/a.js" =
      .invalid (.format (.region .startMissing)) := by
  obtain ⟨-, -, hlisted, -⟩ := planned_by_first_gate bareSettings "test/gone.js"
  obtain ⟨hplan, -, -, hread, -⟩ := planned_by_first_gate bareSettings "test/a.js"
  have hreason : bareSettings.skipList.reason? "test/gone.js" = some "flaky" := by decide +kernel
  have hnone : bareSettings.skipList.reason? "test/a.js" = none := by decide +kernel
  have htext : (Files.World.ofTree bareTree "/").read "/corpus/test/a.js" = .ok "1;\n" := by
    decide +kernel
  refine ⟨hreason, hlisted _ hreason _, htext, ?_⟩
  rw [hread _ _ htext, hplan]
  exact .malformed hnone rfl

end Plan

end Conformance
