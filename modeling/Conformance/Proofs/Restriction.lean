import Conformance.Proofs.Contexts
import Conformance.Proofs.Outlines
import Conformance.Proofs.Planning
import Conformance.Proofs.SkipListed

/-!
# Settings that keep back more tests

A test can be kept back at both ends of planning: by the skip list before its file is looked for, by
its features after all other gates. Settings with a longer skip list and more unsupported features
(`Settings.Narrows`) change the plan of a path in few ways (`Plan.Narrowed`), and none of them leads
to a run. So the runs of a suite under such settings are those that it had, without those of the
tests that are kept back now: `Suite.runs_of_narrows`.
-/

namespace Conformance

open Files (Entry)

namespace SkipList

variable {list : SkipList} {path reason : String}

theorem reason?_insert_of_ne {other : String} (h : other ≠ path) :
    (list.insert path reason).reason? other = list.reason? other := by
  have hne : (other == path) = false := by simpa using h
  rw [← reason?_without_of_ne h list]
  simp [insert, without, reason?, List.lookup_cons, hne]

theorem reason?_insertAll {entries : List (String × String)}
    (hnew : ∀ entry ∈ entries, list.reason? entry.1 = none)
    (h : list.reason? path = some reason) :
    (list.insertAll entries).reason? path = some reason := by
  -- each insertion keeps what is said of the path, so the induction is over all lists that say it
  have hne : ∀ entry ∈ entries, path ≠ entry.1 := by
    rintro entry hentry rfl
    rw [hnew entry hentry] at h
    cases h
  clear hnew
  induction entries generalizing list with
  | nil => exact h
  | cons entry rest ih =>
    apply ih
    · rw [reason?_insert_of_ne (hne entry List.mem_cons_self)]
      exact h
    · exact fun other hother => hne other (List.mem_cons_of_mem _ hother)

end SkipList

namespace Settings

/-- Settings that keep back more tests and are the same otherwise: the skip list has entries for
further paths, and further features are not supported. -/
structure Narrows (settings narrower : Settings) : Prop where
  same : narrower =
    { settings with skipList := narrower.skipList, unsupported := narrower.unsupported }
  listed : ∀ path reason, settings.skipList.reason? path = some reason →
    narrower.skipList.reason? path = some reason
  unsupported : settings.unsupported ⊆ narrower.unsupported

namespace Narrows

variable {settings narrower : Settings} (h : settings.Narrows narrower)

include h

theorem root_eq : narrower.root = settings.root := by
  rw [h.same]

theorem edition_eq : narrower.edition = settings.edition := by
  rw [h.same]

theorem directories_eq : narrower.directories = settings.directories := by
  rw [h.same]

theorem admits_eq : narrower.admits = settings.admits := by
  rw [h.same]
  rfl

/-- A reason on the longer list is an additional one, or was there before. -/
theorem reason?_eq_some {path reason : String}
    (hreason : narrower.skipList.reason? path = some reason) :
    settings.skipList.reason? path = none ∨ settings.skipList.reason? path = some reason := by
  cases hknown : settings.skipList.reason? path with
  | none => exact .inl rfl
  | some known =>
    have heq := h.listed path known hknown
    rw [hreason] at heq
    exact .inr heq.symm

theorem reason?_eq_none {path : String} (hnone : narrower.skipList.reason? path = none) :
    settings.skipList.reason? path = none := by
  cases hknown : settings.skipList.reason? path with
  | none => rfl
  | some known =>
    rw [h.listed path known hknown] at hnone
    cases hnone

end Narrows

/-- More entries for the skip list, and more unsupported features. -/
def narrow (settings : Settings) (entries : List (String × String)) (features : List String) :
    Settings :=
  { settings with
    skipList := settings.skipList.insertAll entries
    unsupported := settings.unsupported ++ features }

theorem narrows_narrow (settings : Settings) {entries : List (String × String)}
    (hnew : ∀ entry ∈ entries, settings.skipList.reason? entry.1 = none)
    (features : List String) : settings.Narrows (settings.narrow entries features) where
  same := rfl
  listed := fun _ _ => SkipList.reason?_insertAll hnew
  unsupported := List.subset_append_left _ _

/-- A path for which the skip list has an additional entry. -/
def Lists (settings narrower : Settings) (path : String) : Prop :=
  settings.skipList.reason? path = none ∧ (narrower.skipList.reason? path).isSome

/-- An additional unsupported feature. -/
def Rejects (settings narrower : Settings) (feature : String) : Prop :=
  feature ∈ narrower.unsupported ∧ feature ∉ settings.unsupported

theorem supported_or_first (settings : Settings) (features : List String) :
    (∀ feature ∈ features, feature ∉ settings.unsupported) ∨
    ∃ before feature after, features = before ++ feature :: after ∧
      feature ∈ settings.unsupported ∧ ∀ other ∈ before, other ∉ settings.unsupported := by
  cases hfind : features.find? (settings.unsupported.contains ·) with
  | none => exact .inl (by simpa using hfind)
  | some feature =>
    obtain ⟨hmem, before, after, hsplit, hbefore⟩ := List.find?_eq_some_iff_append.1 hfind
    exact .inr ⟨before, feature, after, hsplit, by simpa using hmem, by simpa using hbefore⟩

end Settings

/-- The features that the front matter of a source names. -/
def FrontMatter.featuresIn (source : String) : List String :=
  match extract source with
  | .error _ => []
  | .ok matter => matter.features

/-- The features of a file, if it can be read. -/
def Files.World.featuresOf (world : Files.World) (path : String) : List String :=
  match world.read path with
  | .error _ => []
  | .ok source => FrontMatter.featuresIn source

namespace Plan

/-- How the plan of a path with those features changes under settings that keep back more tests. -/
inductive Narrowed (settings narrower : Settings) (path : String) (features : List String) :
    Plan → Plan → Prop
  | same {plan : Plan} : Narrowed settings narrower path features plan plan
  /-- The path is one of the additional entries. -/
  | listed {plan : Plan} {reason : String} : settings.skipList.reason? path = none →
    narrower.skipList.reason? path = some reason →
    Narrowed settings narrower path features plan (.skipped (.listed reason))
  /-- A test that was run uses an additional feature. -/
  | withdrawn {runs : List TestRun} {feature : String} : feature ∈ features →
    settings.Rejects narrower feature →
    Narrowed settings narrower path features (.run runs) (.skipped (.unsupported feature))
  /-- A test is skipped for a feature as before, but an additional one comes earlier. -/
  | earlier {before middle after : List String} {first feature : String} :
    features = before ++ first :: (middle ++ feature :: after) →
    settings.Rejects narrower first → feature ∈ settings.unsupported →
    Narrowed settings narrower path features (.skipped (.unsupported feature))
      (.skipped (.unsupported first))

def isRun : Plan → Bool
  | .run _ => true
  | _ => false

theorem isRun_iff {plan : Plan} : plan.isRun = true ↔ ∃ runs, plan = .run runs := by
  cases plan <;> simp [isRun]

/-- What narrower settings withdraw: the path of an additional entry, or a test that was run and
uses an additional feature. -/
def IsWithdrawn (world : Files.World) (settings narrower : Settings) (path : String) : Prop :=
  settings.Lists narrower path ∨
    (ofFile world settings path).isRun = true ∧
      ∃ feature ∈ world.featuresOf (Files.join settings.root path),
        settings.Rejects narrower feature

instance (world : Files.World) (settings narrower : Settings) (path : String) :
    Decidable (IsWithdrawn world settings narrower path) :=
  inferInstanceAs (Decidable ((_ ∧ _) ∨ _ ∧ ∃ feature ∈ _, _ ∧ _))

variable {world : Files.World} {settings narrower : Settings} {path : String}

theorem supported_of_run {runs : List TestRun} (hplan : ofFile world settings path = .run runs) :
    ∀ feature ∈ world.featuresOf (Files.join settings.root path),
      feature ∉ settings.unsupported := by
  obtain ⟨source, hread, hsource⟩ := ofFile_eq_run_iff.1 hplan
  obtain ⟨-, matter, hextract, -, hfeatures, -⟩ := ofSource_eq_run_iff.1 hsource
  simp only [Files.World.featuresOf, hread, FrontMatter.featuresIn, hextract]
  exact hfeatures

section Narrows

variable (h : settings.Narrows narrower)

include h

theorem narrowed_listed {features : List String} {plan : Plan} {reason : String}
    (hplan : ∀ known, settings.skipList.reason? path = some known →
      plan = .skipped (.listed known))
    (hreason : narrower.skipList.reason? path = some reason) :
    Narrowed settings narrower path features plan (.skipped (.listed reason)) := by
  rcases h.reason?_eq_some hreason with hnone | hknown
  · exact .listed hnone hreason
  · rw [hplan reason hknown]
    exact .same

theorem narrowed_ofSource (path source : String) :
    Narrowed settings narrower path (FrontMatter.featuresIn source)
      (ofSource settings path source) (ofSource narrower path source) := by
  cases hnarrower : narrower.skipList.reason? path with
  | some reason =>
    rw [(PlannedAs.listed hnarrower).eq]
    exact narrowed_listed h (fun known hknown => (PlannedAs.listed hknown).eq) hnarrower
  | none =>
    obtain ⟨plan, hplan⟩ := exists_plannedAs settings path source
    rw [hplan.eq]
    cases hplan with
    | listed hreason =>
      rw [h.reason?_eq_none hnarrower] at hreason
      cases hreason
    | malformed hreason hextract =>
      rw [(PlannedAs.malformed hnarrower hextract).eq]
      exact .same
    | foreign hreason hextract hid =>
      rw [← h.edition_eq] at hid
      rw [(PlannedAs.foreign hnarrower hextract hid).eq]
      exact .same
    | @unsupported matter id feature before after hreason hextract hid hne hsplit hmem hbefore =>
      rw [← h.edition_eq] at hid
      -- the same feature decides unless one before it is unsupported now
      rcases narrower.supported_or_first before with
        hall | ⟨head, first, middle, rfl, hfirst, hhead⟩
      · rw [(PlannedAs.unsupported hnarrower hextract hid hne hsplit (h.unsupported hmem) hall).eq]
        exact .same
      · have hfeatures : FrontMatter.featuresIn source =
            head ++ first :: (middle ++ feature :: after) := by
          simp [FrontMatter.featuresIn, hextract, hsplit]
        rw [List.append_assoc, List.cons_append] at hsplit
        rw [(PlannedAs.unsupported hnarrower hextract hid hne hsplit hfirst hhead).eq]
        exact .earlier hfeatures ⟨hfirst, hbefore first (by simp)⟩ hmem
    | @run matter id runs hreason hextract hid hne hfeatures hruns =>
      rw [← h.edition_eq] at hid
      rcases narrower.supported_or_first matter.features with
        hall | ⟨before, feature, after, hsplit, hmem, hbefore⟩
      · rw [(PlannedAs.run hnarrower hextract hid hne hall hruns).eq]
        exact .same
      · have hfeature : feature ∈ matter.features := by simp [hsplit]
        rw [(PlannedAs.unsupported hnarrower hextract hid hne hsplit hmem hbefore).eq]
        refine .withdrawn ?_ ⟨hmem, hfeatures feature hfeature⟩
        simpa only [FrontMatter.featuresIn, hextract] using hfeature

theorem narrowed_ofFile (world : Files.World) (path : String) :
    Narrowed settings narrower path (world.featuresOf (Files.join settings.root path))
      (ofFile world settings path) (ofFile world narrower path) := by
  cases hread : world.read (Files.join settings.root path) with
  | ok source =>
    have hnarrower : world.read (Files.join narrower.root path) = .ok source := by
      rw [h.root_eq, hread]
    rw [ofFile_eq_ofSource hread, ofFile_eq_ofSource hnarrower]
    simp only [Files.World.featuresOf, hread]
    exact narrowed_ofSource h path source
  | error cause =>
    cases hreason : narrower.skipList.reason? path with
    | some reason =>
      rw [ofFile_eq_iff.2 (.listed hreason)]
      exact narrowed_listed h (fun known hknown => ofFile_eq_iff.2 (.listed hknown)) hreason
    | none =>
      have hnone := h.reason?_eq_none hreason
      have hnarrower : world.read (Files.join narrower.root path) = .error cause := by
        rw [h.root_eq, hread]
      rw [ofFile_eq_iff.2 (.unreadable hreason hnarrower),
        ofFile_eq_iff.2 (.unreadable hnone hread), h.root_eq]
      exact .same

theorem exists_skipped_of_isWithdrawn (hpath : IsWithdrawn world settings narrower path) :
    ∃ cause, ofFile world narrower path = .skipped cause := by
  rcases hpath with ⟨-, hlisted⟩ | ⟨hrun, feature, hfeature, hunsupported, -⟩
  · obtain ⟨reason, hreason⟩ := Option.isSome_iff_exists.1 hlisted
    exact ⟨_, ofFile_eq_iff.2 (.listed hreason)⟩
  · obtain ⟨runs, hplan⟩ := isRun_iff.1 hrun
    have hnarrowed := narrowed_ofFile h world path
    rw [hplan] at hnarrowed
    generalize hplan' : ofFile world narrower path = plan' at hnarrowed
    cases hnarrowed with
    | same =>
      have hsupported := supported_of_run hplan'
      rw [h.root_eq] at hsupported
      exact absurd hunsupported (hsupported feature hfeature)
    | listed => exact ⟨_, rfl⟩
    | withdrawn => exact ⟨_, rfl⟩

/-- The runs of a path under narrower settings are those that it had, or none. -/
theorem runs_ofFile_of_narrows (world : Files.World) (path : String) :
    (ofFile world narrower path).runs = if IsWithdrawn world settings narrower path then [] else
      (ofFile world settings path).runs := by
  split
  case isTrue hpath =>
    obtain ⟨cause, hcause⟩ := exists_skipped_of_isWithdrawn h hpath
    rw [hcause]
    rfl
  case isFalse hpath =>
    have hnarrowed := narrowed_ofFile h world path
    generalize hplan : ofFile world settings path = plan at hnarrowed
    generalize ofFile world narrower path = plan' at hnarrowed
    cases hnarrowed with
    | same => rfl
    | listed hnone hreason => exact absurd (.inl ⟨hnone, Option.isSome_of_mem hreason⟩) hpath
    | withdrawn hfeature hrejects =>
      exact absurd (.inr ⟨isRun_iff.2 ⟨_, hplan⟩, _, hfeature, hrejects⟩) hpath
    | earlier => rfl

end Narrows

end Plan

namespace Suite

/-- The suite with other settings. -/
def under (suite : Suite) (settings : Settings) : Suite :=
  { suite with settings }

/-- The runs that are planned for a target. -/
def runsFor (suite : Suite) : Target → List TestRun
  | .corpus => suite.runs
  | .file path => (suite.planOf path).runs

variable {suite : Suite}

theorem path_of_mem_runs {path : String} {run : TestRun} (h : run ∈ (suite.planOf path).runs) :
    run.path = path := by
  cases hplan : suite.planOf path with
  | run runs =>
    rw [hplan] at h
    exact Plan.path_of_mem_run hplan h
  | _ =>
    rw [hplan] at h
    cases h

section Prospects

variable {view : Result → Result} {foreseen : TestRun → Result}
  (hview : ∀ result, (view result).variant = result.variant)
  (hforeseen : ∀ spec, (foreseen spec).path = spec.path ∧ (foreseen spec).variant.isSome)
  (keep : String → Bool)

include hview hforeseen

theorem filter_prospects_fileTasks (path : String) :
    ((suite.fileTasks path).flatMap (Task.prospect view foreseen)).filter
        (fun result => result.variant.isSome && keep result.path) =
      ((suite.planOf path).runs.filter (keep ·.path)).map foreseen := by
  unfold fileTasks
  cases suite.planOf path with
  | run runs =>
    simp [Plan.tasks, Plan.runs, List.flatMap_map, Task.prospect, ← List.map_eq_flatMap,
      List.filter_map, Function.comp_def, hforeseen]
  | _ => simp [Plan.tasks, Plan.runs, Task.prospect, hview, Result.ofFile]

theorem filter_prospects_directoryTasks (dir : String) :
    ((suite.directoryTasks dir).flatMap (Task.prospect view foreseen)).filter
        (fun result => result.variant.isSome && keep result.path) =
      ((suite.directoryRuns dir).filter (keep ·.path)).map foreseen := by
  unfold directoryTasks directoryRuns
  cases suite.world.tests suite.settings.root dir with
  | error refusal => simp [Task.prospect, hview, directoryResult, Result.ofFile]
  | ok files =>
    dsimp only
    rw [List.flatMap_assoc, List.filter_flatMap, List.filter_flatMap, List.map_flatMap]
    simp only [filter_prospects_fileTasks hview hforeseen]

theorem filter_prospects (target : Target) :
    ((suite.tasksFor target).flatMap (Task.prospect view foreseen)).filter
        (fun result => result.variant.isSome && keep result.path) =
      ((suite.runsFor target).filter (keep ·.path)).map foreseen := by
  cases target with
  | file path => exact filter_prospects_fileTasks hview hforeseen keep path
  | corpus =>
    rw [tasksFor, corpusTasks, runsFor, runs, List.flatMap_assoc, List.filter_flatMap,
      List.filter_flatMap, List.map_flatMap]
    simp only [filter_prospects_directoryTasks hview hforeseen]

end Prospects

/-- The results of runs in a report, as far as they can be foreseen, are those of the runs that are
planned. -/
theorem Ends.runs_perm {engines : Engine → Prop} {target : Target} {report : Report}
    (h : suite.Ends engines target report) {view : Result → Result} {foreseen : TestRun → Result}
    (hview : suite.Foresees engines view foreseen)
    (hkeeps : ∀ result, (view result).path = result.path ∧ (view result).variant = result.variant)
    (hforeseen : ∀ spec, (foreseen spec).path = spec.path ∧ (foreseen spec).variant.isSome)
    (keep : String → Bool) :
    ((report.results.filter fun result => result.variant.isSome && keep result.path).map view).Perm
      (((suite.runsFor target).filter (keep ·.path)).map foreseen) := by
  have hviews := (h.views_perm hview).filter
    fun result => result.variant.isSome && keep result.path
  rw [filter_prospects (fun result => (hkeeps result).2) hforeseen] at hviews
  simpa [List.filter_map, Function.comp_def, hkeeps] using hviews

section Narrows

variable {narrower : Settings} (h : suite.settings.Narrows narrower)

include h

theorem runs_planOf_of_narrows (path : String) :
    ((suite.under narrower).planOf path).runs = (suite.planOf path).runs.filter fun run =>
      ¬ Plan.IsWithdrawn suite.world suite.settings narrower run.path := by
  refine (Plan.runs_ofFile_of_narrows h suite.world path).trans (.symm ?_)
  split
  case isTrue hwithdrawn =>
    refine List.filter_eq_nil_iff.2 fun run hrun => ?_
    rw [path_of_mem_runs hrun]
    simpa using hwithdrawn
  case isFalse hwithdrawn =>
    refine List.filter_eq_self.2 fun run hrun => ?_
    rw [path_of_mem_runs hrun]
    simpa using hwithdrawn

theorem directoryRuns_of_narrows (dir : String) :
    (suite.under narrower).directoryRuns dir = (suite.directoryRuns dir).filter fun run =>
      ¬ Plan.IsWithdrawn suite.world suite.settings narrower run.path := by
  have htests : (suite.under narrower).world.tests narrower.root dir =
      suite.world.tests suite.settings.root dir := by
    rw [h.root_eq]
    rfl
  unfold directoryRuns
  rw [show (suite.under narrower).settings = narrower from rfl, htests, h.admits_eq]
  cases suite.world.tests suite.settings.root dir with
  | error refusal => rfl
  | ok files =>
    dsimp only
    rw [List.filter_flatMap]
    simp only [runs_planOf_of_narrows h]

theorem runsFor_of_narrows (target : Target) :
    (suite.under narrower).runsFor target = (suite.runsFor target).filter fun run =>
      ¬ Plan.IsWithdrawn suite.world suite.settings narrower run.path := by
  cases target with
  | file path => exact runs_planOf_of_narrows h path
  | corpus =>
    have hdirectories : (suite.under narrower).settings.directories = suite.settings.directories :=
      h.directories_eq
    rw [runsFor, runs, runsFor, runs, hdirectories, List.filter_flatMap]
    congr 1
    funext dir
    exact directoryRuns_of_narrows h dir

theorem obstacleTo?_of_narrows (target : Target) :
    (suite.under narrower).obstacleTo? target = suite.obstacleTo? target := by
  cases target with
  | file path => rfl
  | corpus =>
    unfold obstacleTo? obstacle? under
    rw [h.same]

theorem Ends.runs_perm_of_narrows {engines : Engine → Prop} {target : Target}
    {report narrowed : Report} (hreport : suite.Ends engines target report)
    (hnarrowed : (suite.under narrower).Ends engines target narrowed)
    {view : Result → Result} {foreseen : TestRun → Result}
    (hview : suite.Foresees engines view foreseen)
    (hkeeps : ∀ result, (view result).path = result.path ∧ (view result).variant = result.variant)
    (hforeseen : ∀ spec, (foreseen spec).path = spec.path ∧ (foreseen spec).variant.isSome) :
    ((narrowed.results.filter fun result => result.variant.isSome).map view).Perm
      ((report.results.filter fun result => result.variant.isSome &&
        ¬ Plan.IsWithdrawn suite.world suite.settings narrower result.path).map view) := by
  have hharness : (suite.under narrower).settings.harnessDirectory =
      suite.settings.harnessDirectory :=
    congrArg (Files.join · "harness") h.root_eq
  have hview' : (suite.under narrower).Foresees engines view foreseen := by
    intro engine hengine spec
    rw [hharness]
    exact hview engine hengine spec
  have hall := hnarrowed.runs_perm hview' hkeeps hforeseen fun _ => true
  have hkept := hreport.runs_perm hview hkeeps hforeseen fun path =>
    ¬ Plan.IsWithdrawn suite.world suite.settings narrower path
  simp only [Bool.and_true, List.filter_true] at hall
  rw [runsFor_of_narrows h] at hall
  exact hall.trans hkept.symm

end Narrows

/-- Settings with a longer skip list and more unsupported features change the plan of a path only by
keeping it back: for an additional entry, for an additional feature of a test that was run, or for
another reason than before, which comes earlier among its features. All those that are so withdrawn
are skipped, and the runs for a corpus or a file are those that there were without those of tests
that are withdrawn. So it is with the results of runs in all reports: with the whole results where
the runs meet one engine, and with their outlines whichever engines they meet. -/
theorem runs_of_narrows (suite : Suite) {narrower : Settings}
    (h : suite.settings.Narrows narrower) :
    (∀ path, Plan.Narrowed suite.settings narrower path
      (suite.world.featuresOf (Files.join suite.settings.root path))
      (suite.planOf path) ((suite.under narrower).planOf path)) ∧
    (∀ path, Plan.IsWithdrawn suite.world suite.settings narrower path →
      ∃ cause, (suite.under narrower).planOf path = .skipped cause) ∧
    ∀ target,
      ((suite.under narrower).runsFor target = (suite.runsFor target).filter fun run =>
        ¬ Plan.IsWithdrawn suite.world suite.settings narrower run.path) ∧
      (suite.under narrower).obstacleTo? target = suite.obstacleTo? target ∧
      (∀ report narrowed, suite.Ends (· = suite.engine) target report →
        (suite.under narrower).Ends (· = suite.engine) target narrowed →
        (narrowed.results.filter fun result => result.variant.isSome).Perm
          (report.results.filter fun result => result.variant.isSome &&
            ¬ Plan.IsWithdrawn suite.world suite.settings narrower result.path)) ∧
      ∀ report narrowed, suite.Ends (fun _ => True) target report →
        (suite.under narrower).Ends (fun _ => True) target narrowed →
        ((narrowed.results.filter fun result => result.variant.isSome).map Result.outline).Perm
          ((report.results.filter fun result => result.variant.isSome &&
            ¬ Plan.IsWithdrawn suite.world suite.settings narrower result.path).map
              Result.outline) := by
  refine ⟨Plan.narrowed_ofFile h suite.world, fun path => Plan.exists_skipped_of_isWithdrawn h,
    fun target => ⟨runsFor_of_narrows h target, obstacleTo?_of_narrows h target, ?_, ?_⟩⟩
  · intro report narrowed hreport hnarrowed
    have hrun : ∀ spec, (suite.resultOf spec).path = spec.path ∧
        (suite.resultOf spec).variant.isSome := by
      intro spec
      have houtline : (suite.resultOf spec).outline = spec.resultOf .pass :=
        suite.engine.outline_perform _ _ spec
      rw [← Result.path_outline, ← Result.variant_outline, houtline]
      exact ⟨rfl, rfl⟩
    simpa using hreport.runs_perm_of_narrows h hnarrowed suite.foresees_resultOf
      (fun result => ⟨rfl, rfl⟩) hrun
  · intro report narrowed hreport hnarrowed
    have hview : suite.Foresees (fun _ => True) Result.outline (·.resultOf .pass) :=
      fun engine _ spec => engine.outline_perform _ _ spec
    exact hreport.runs_perm_of_narrows h hnarrowed hview
      (fun result => ⟨result.path_outline, result.variant_outline⟩) fun spec => ⟨rfl, rfl⟩

/-- A test that is run, two that use features, and one without front matter. -/
def mixedTree : Entry :=
  .directory [("corpus", .directory [
    ("harness", .directory [("assert.js", .file (.ok "")), ("sta.js", .file (.ok ""))]),
    ("test", .directory [
      ("a.js", .file (.ok "/*---\nes5id: 1\n---*/\n")),
      ("b.js", .file (.ok "/*---\nes5id: 1\nfeatures: [Atomics]\n---*/\n")),
      ("c.js", .file (.ok "/*---\nes5id: 1\nfeatures: [Atomics, Symbol]\n---*/\n")),
      ("d.js", .file (.ok "var x;\n"))])])]

def mixed : Suite where
  engine := Scripted.engine
  world := .ofTree mixedTree "/"
  settings := { Settings.standard with
    root := "/corpus", directories := ["test"], unsupported := ["Symbol"] }

/-- The settings with one more entry and one more feature. -/
def mixedSettings : Settings :=
  mixed.settings.narrow [("test/d.js", "broken")] ["Atomics"]

/-- The second test is withdrawn for its feature; the runs of the first remain. -/
theorem runs_of_narrows_mixed : mixed.settings.Narrows mixedSettings ∧
    (∃ cause, (mixed.under mixedSettings).planOf "test/b.js" = .skipped cause) ∧
    (mixed.runsFor .corpus).map (·.path) = ["test/a.js", "test/a.js", "test/b.js", "test/b.js"] ∧
    ((mixed.under mixedSettings).runsFor .corpus).map (·.path) = ["test/a.js", "test/a.js"] ∧
    ∃ report, (mixed.under mixedSettings).Ends (· = mixed.engine) .corpus report ∧
      (report.results.filter fun result => result.variant.isSome).length = 2 := by
  have hnarrows : mixed.settings.Narrows mixedSettings :=
    mixed.settings.narrows_narrow (by decide +kernel) ["Atomics"]
  obtain ⟨-, hskipped, htargets⟩ := runs_of_narrows mixed hnarrows
  obtain ⟨hruns, hobstacle, hresults, -⟩ := htargets .corpus
  have hnone : mixed.obstacleTo? .corpus = none := by decide +kernel
  obtain ⟨report, hreport⟩ := @exists_ends (mixed.under mixedSettings) (· = mixed.engine) rfl
    .corpus (hobstacle.trans hnone)
  have hrun := mixed.run_eq_completed rfl (by decide +kernel)
  have hlength : ((mixed.performAll mixed.corpusTasks).report.results.filter fun result =>
      result.variant.isSome && ¬ Plan.IsWithdrawn mixed.world mixed.settings mixedSettings
        result.path).length = 2 := by
    decide +kernel
  refine ⟨hnarrows, hskipped _ (by decide +kernel), by decide +kernel, ?_, report, hreport, ?_⟩
  · rw [hruns]
    decide +kernel
  · rw [(hresults _ report (.corpus rfl hrun) hreport).length_eq]
    exact hlength

end Suite

end Conformance
