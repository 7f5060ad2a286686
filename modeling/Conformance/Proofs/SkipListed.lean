import Conformance.Proofs.Scope
import Conformance.Proofs.Walking

/-!
# Files on the skip list

A skip list is looked up by the spelling of a path, and walking spells a path below its directory
as the directory is spelled. So an entry counts where the directory is spelled plainly, slashes at
its end apart, and for nothing where it is not: a listed file is run below `./test`
(`Suite.listed_of_isPlain`, `Suite.prefixed_report`).
-/

namespace Conformance

open Files (Entry IsPlain names spell)

namespace SkipList

/-- The list without what it says of a path. -/
def without (list : SkipList) (path : String) : SkipList :=
  ⟨list.entries.filter (·.1 ≠ path)⟩

theorem reason?_without_of_ne {path other : String} (h : other ≠ path) (list : SkipList) :
    (list.without path).reason? other = list.reason? other := by
  obtain ⟨entries⟩ := list
  unfold without reason?
  induction entries with
  | nil => rfl
  | cons entry rest ih =>
    obtain ⟨known, reason⟩ := entry
    by_cases hknown : known = path
    · subst hknown
      have hother : (other == known) = false := by simpa using h
      simpa [List.lookup_cons, hother] using ih
    · by_cases hother : other = known
      · simp [hknown, hother]
      · have hne : (other == known) = false := by simpa using hother
        simpa [List.lookup_cons, hknown, hne] using ih

end SkipList

namespace Suite

/-- A suite whose skip list says nothing of a path. -/
def unlisting (suite : Suite) (path : String) : Suite :=
  { suite with
    settings := { suite.settings with skipList := suite.settings.skipList.without path } }

variable {suite : Suite}

theorem planOf_unlisting {listed path : String} (h : path ≠ listed) :
    (suite.unlisting listed).planOf path = suite.planOf path := by
  have hreason := SkipList.reason?_without_of_ne h suite.settings.skipList
  unfold planOf unlisting Plan.ofFile Plan.ofSource
  rw [hreason]

theorem planOf_of_reason? {path reason : String}
    (h : suite.settings.skipList.reason? path = some reason) :
    suite.planOf path = .skipped (.listed reason) := by
  unfold planOf Plan.ofFile
  rw [h]

theorem EndsWith.exists_plan_of_run {report : Report} (h : suite.EndsWith report)
    {result : Result} (hresult : result ∈ report.results) (hvariant : result.variant.isSome) :
    result.path ∈ suite.scope ∧ ∃ runs, suite.planOf result.path = .run runs := by
  have houtline : result.outline ∈ suite.corpusTasks.flatMap Task.outlines :=
    h.outlines_perm.subset (List.mem_map_of_mem hresult)
  rw [← result.variant_outline] at hvariant
  rw [← result.path_outline]
  rcases suite.mem_outlines.1 houtline with ⟨dir, -, hnote⟩ | ⟨path, hpath, hplan⟩
  · obtain ⟨cause, -, heq⟩ := suite.mem_directoryNotes.1 hnote
    rw [heq] at hvariant
    cases hvariant
  · have heq := suite.path_of_mem_outlines hplan
    rw [heq]
    refine ⟨hpath, ?_⟩
    cases hruns : suite.planOf path with
    | run runs => exact ⟨runs, rfl⟩
    | notApplicable =>
      rw [hruns] at hplan
      cases hplan
    | skipped cause =>
      rw [hruns] at hplan
      rw [List.mem_singleton.1 hplan] at hvariant
      cases hvariant
    | invalid problem =>
      rw [hruns] at hplan
      rw [List.mem_singleton.1 hplan] at hvariant
      cases hvariant

section Tree

variable {tree : Entry} {directory : String} (hworld : suite.world = .ofTree tree directory)
  (htree : tree.isWellNamed = true) {listed : String} (hlisted : spell (names listed) = listed)

include hworld htree hlisted

/-- Walking a directory spells a path plainly if it spells the directory so. -/
theorem eq_listed_iff {dir : String} {files : List String}
    (hfiles : suite.world.tests suite.settings.root dir = .ok files) {path : String}
    (hpath : path ∈ files) (hnames : names path = names listed) :
    path = listed ↔ IsPlain dir := by
  rw [hworld] at hfiles
  obtain ⟨ways, -, hperm, hways⟩ := Files.World.exists_ways_of_tests htree hfiles
  obtain ⟨way, hway, rfl⟩ := List.mem_map.1 (hperm.subset hpath)
  obtain ⟨hne, hall⟩ := hways way hway
  have hsteps : ∀ name ∈ way, Files.IsStep name := fun name hname => (hall name hname).1
  rw [Files.names_foldl_below hne hsteps] at hnames
  rw [← hlisted, ← hnames]
  exact Files.foldl_below_eq_spell_iff hne hsteps dir

/-- Let a path without redundant parts be on the skip list. Where walking a directory comes to its
file, the file is skipped for the reason on the list if the directory is spelled plainly, slashes at
its end apart; otherwise the path is spelled otherwise too, and is planned as though the list did
not have it. So what is run of the file is run below directories that are spelled otherwise. -/
theorem listed_of_isPlain {reason : String}
    (hreason : suite.settings.skipList.reason? listed = some reason) :
    (∀ dir files, suite.world.tests suite.settings.root dir = .ok files →
      ∀ path ∈ files, names path = names listed →
        (IsPlain dir → path = listed ∧ suite.planOf path = .skipped (.listed reason)) ∧
        (¬ IsPlain dir →
          path ≠ listed ∧ suite.planOf path = (suite.unlisting listed).planOf path)) ∧
    ∀ report, suite.EndsWith report → ∀ result ∈ report.results,
      names result.path = names listed → result.variant.isSome →
        ∃ dir ∈ suite.settings.directories, ¬ IsPlain dir ∧ ∃ files,
          suite.world.tests suite.settings.root dir = .ok files ∧ result.path ∈ files := by
  have hplan : suite.planOf listed = .skipped (.listed reason) := planOf_of_reason? hreason
  constructor
  · intro dir files hfiles path hpath hnames
    have hiff := eq_listed_iff hworld htree hlisted hfiles hpath hnames
    constructor
    · intro hplain
      obtain rfl := hiff.2 hplain
      exact ⟨rfl, hplan⟩
    · intro hplain
      have hne := mt hiff.1 hplain
      exact ⟨hne, (planOf_unlisting hne).symm⟩
  · intro report hreport result hresult hnames hvariant
    obtain ⟨hscope, runs, hruns⟩ := hreport.exists_plan_of_run hresult hvariant
    obtain ⟨dir, hdir, files, hfiles, hpath, -⟩ := suite.mem_scope_iff.1 hscope
    refine ⟨dir, hdir, ?_, files, hfiles, hpath⟩
    intro hplain
    rw [(eq_listed_iff hworld htree hlisted hfiles hpath hnames).2 hplain, hplan] at hruns
    cases hruns

end Tree

def prefixedTree : Entry :=
  .directory [("corpus", .directory [
    ("harness", .directory [("assert.js", .file (.ok "")), ("sta.js", .file (.ok ""))]),
    ("test", .directory [("a.js", .file (.ok "/*---\nes5id: 1\n---*/\n"))])])]

/-- A corpus of one test, which is on the skip list, in a directory behind a dot. -/
def prefixed : Suite where
  engine := Scripted.engine
  world := .ofTree prefixedTree "/"
  settings := { Settings.standard with
    root := "/corpus"
    directories := ["./test"]
    skipList := .insert .empty "test/a.js" "flaky" }

/-- The listed test is run. -/
theorem prefixed_report :
    prefixed.settings.skipList.reason? "test/a.js" = some "flaky" ∧
    spell (names "test/a.js") = "test/a.js" ∧ names "./test/a.js" = names "test/a.js" ∧
    (prefixedTree.locate "/" "/corpus/./test/a.js" =
      prefixedTree.locate "/" "/corpus/test/a.js" ∧
      prefixedTree.locate "/" "/corpus/test/a.js" = .ok ["corpus", "test", "a.js"]) ∧
    prefixed.EndsWith (prefixed.performAll prefixed.corpusTasks).report ∧
    (prefixed.performAll prefixed.corpusTasks).report.results.map
        (fun result => (result.path, result.variant.isSome, result.grade)) =
      [("./test/a.js", true, .pass), ("./test/a.js", true, .pass)] := by
  have hrun := prefixed.run_eq_completed rfl (by decide +kernel)
  refine ⟨by decide +kernel, by decide +kernel, by decide +kernel, ⟨?_, ?_⟩, .corpus trivial hrun, ?_⟩
  · decide +kernel
  · decide +kernel
  · decide +kernel

/-- Below the directory in its plain spelling the same test would be skipped. -/
theorem listed_of_isPlain_prefixed :
    prefixed.world.tests "/corpus" "test" = .ok ["test/a.js"] ∧
      prefixed.planOf "test/a.js" = .skipped (.listed "flaky") ∧
      prefixed.world.tests "/corpus" "./test" = .ok ["./test/a.js"] ∧
      prefixed.planOf "./test/a.js" = (prefixed.unlisting "test/a.js").planOf "./test/a.js" ∧
      ∃ dir ∈ prefixed.settings.directories, ¬ IsPlain dir := by
  have hworld : prefixed.world = .ofTree prefixedTree "/" := rfl
  have hreason : prefixed.settings.skipList.reason? "test/a.js" = some "flaky" := by decide +kernel
  have hlisted : spell (names "test/a.js") = "test/a.js" := by decide +kernel
  have hnames : names "./test/a.js" = names "test/a.js" := by decide +kernel
  have hrun := prefixed.run_eq_completed rfl (by decide +kernel)
  have htest : prefixed.world.tests "/corpus" "test" = .ok ["test/a.js"] := by decide +kernel
  have hdot : prefixed.world.tests "/corpus" "./test" = .ok ["./test/a.js"] := by decide +kernel
  obtain ⟨hplans, hreports⟩ := listed_of_isPlain hworld (by decide +kernel) hlisted hreason
  obtain ⟨hplain, -⟩ := hplans "test" _ htest "test/a.js" (by decide) rfl
  obtain ⟨-, hother⟩ := hplans "./test" _ hdot "./test/a.js" (by decide) hnames
  obtain ⟨result, hresult, hpath, hvariant⟩ :
      ∃ result ∈ (prefixed.performAll prefixed.corpusTasks).report.results,
        result.path = "./test/a.js" ∧ result.variant.isSome := by
    decide +kernel
  rw [← hpath] at hnames
  obtain ⟨dir, hdir, hspelled, -⟩ := hreports _ (.corpus trivial hrun) result hresult hnames hvariant
  exact ⟨htest, (hplain (by decide +kernel)).2, hdot, (hother (by decide +kernel)).2, dir, hdir,
    hspelled⟩

end Suite

end Conformance
