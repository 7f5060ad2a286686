import Conformance.Proofs.Bookkeeping
import Conformance.Proofs.Enumeration
import Conformance.Proofs.Planning
import Conformance.Proofs.SingleFile

/-!
# The names of results

A run is named after the path of its test, and a strict run has a suffix behind it. Paths that are
listed end in `.js` and the suffix does not, so that a name tells path and variant
(`Variant.runName_injective`). Where no test is listed twice, no two results of a report share a
name: looking a result up by its name finds it, and the failing results ascend strictly.
-/

namespace Conformance

namespace Files

/-- A path that ends as the names of tests do. -/
def IsTestPath (path : String) : Prop :=
  ∃ stem, path = stem ++ ".js"

theorem World.isTestPath_of_tests {tree : Entry} {directory root dir : String}
    {files : List String} (htree : tree.isWellNamed = true)
    (h : (World.ofTree tree directory).tests root dir = .ok files) {path : String}
    (hpath : path ∈ files) : IsTestPath path := by
  obtain ⟨entries, hlist, -, hsorted⟩ := tests_eq_ok_iff.1 h
  have hentries := areWellNamed_of_list htree hlist
  rw [← hsorted, (Sorting.sort_perm _ _).mem_iff, tests_eq] at hpath
  obtain ⟨way, hway, rfl⟩ := List.mem_map.1 hpath
  obtain ⟨entry, -, -, before, stem, -, rfl⟩ := (mem_testWays_iff hentries).1 hway
  refine ⟨String.ofList (lead (before.foldl below dir)) ++ stem, ?_⟩
  rw [List.foldl_append, List.foldl_cons, List.foldl_nil, ← String.toList_inj, toList_below]
  simp

end Files

open Files (Entry IsTestPath)

namespace Variant

variable {path other : String}

/-- The suffix of a strict run does not end as the path of a test does. -/
theorem runName_strict_ne (h : IsTestPath path) : path ≠ Variant.strict.runName other := by
  obtain ⟨stem, rfl⟩ := h
  intro heq
  have hlast := congrArg (fun name => name.toList.getLast?) heq
  simp [runName, suffix] at hlast

/-- The name of a run tells the path of its test and its variant. -/
theorem runName_injective (hpath : IsTestPath path) (hother : IsTestPath other)
    {variant variant' : Variant} (h : variant.runName path = variant'.runName other) :
    path = other ∧ variant = variant' := by
  cases variant with
  | nonStrict =>
    cases variant' with
    | nonStrict => exact ⟨h, rfl⟩
    | strict => exact absurd h (runName_strict_ne hpath)
  | strict =>
    cases variant' with
    | nonStrict => exact absurd h.symm (runName_strict_ne hother)
    | strict =>
      refine ⟨?_, rfl⟩
      rw [← String.toList_inj] at h ⊢
      simpa [runName] using h

end Variant

namespace Report

variable {report : Report} (hnames : (report.results.map (·.name)).Nodup)

include hnames

theorem find?_name {result : Result} (h : result ∈ report.results) :
    report.find? result.name = some result := by
  unfold find?
  cases hfind : report.results.find? (·.name = result.name) with
  | none =>
    have hne := List.find?_eq_none.1 hfind result h
    simp at hne
  | some other =>
    have hname : other.name = result.name := by simpa using List.find?_some hfind
    rw [List.inj_on_of_nodup_map hnames (List.mem_of_find?_eq_some hfind) h hname]

theorem names_failing_lt : (report.failing.map (·.name)).Pairwise (· < ·) := by
  have hperm := (failing_perm report).map (·.name)
  have hsublist := (List.filter_sublist (p := (·.grade.isFailing)) (l := report.results)).map
    Result.name
  have hnodup : (report.failing.map (·.name)).Nodup := hperm.nodup_iff.2 (hnames.sublist hsublist)
  refine (report.ascending_names_failing.and hnodup).imp ?_
  rintro a b ⟨hle, hne⟩
  rcases Chapters.lt_or_eq_or_gt a b with hlt | heq | hgt
  · exact hlt
  · exact absurd heq hne
  · exact absurd hgt (String.not_lt.2 hle)

end Report

namespace Suite

variable {suite : Suite}

theorem names_outlines_sublist (suite : Suite) (path : String) :
    (((suite.planOf path).outlines path).map (·.name)).Sublist
      ([.nonStrict, .strict].map (Variant.runName path)) := by
  cases hplan : suite.planOf path with
  | skipped cause => simp [Variant.runName, Result.ofFile]
  | notApplicable => simp
  | invalid problem => simp [Variant.runName, Result.ofFile]
  | run runs =>
    obtain ⟨source, -, hsource⟩ := Plan.ofFile_eq_run_iff.1 hplan
    obtain ⟨-, matter, -, -, -, rfl⟩ := Plan.ofSource_eq_run_iff.1 hsource
    have hnames : ((Plan.ofFrontMatter path source matter).map (·.resultOf .pass)).map (·.name) =
        matter.variants.map (Variant.runName path) := by
      simp only [Plan.ofFrontMatter, List.map_map]
      rfl
    rw [Plan.outlines_run, hnames]
    exact matter.variants_sublist.map _

theorem nodup_names_outlines {paths : List String} (hnodup : paths.Nodup)
    (hpaths : ∀ path ∈ paths, IsTestPath path) :
    (paths.flatMap fun path => ((suite.planOf path).outlines path).map (·.name)).Nodup := by
  have hname : ∀ path, ∀ name ∈ ((suite.planOf path).outlines path).map (·.name),
      ∃ variant, Variant.runName path variant = name := by
    intro path name hmem
    obtain ⟨variant, -, hvariant⟩ :=
      List.mem_map.1 ((suite.names_outlines_sublist path).subset hmem)
    exact ⟨variant, hvariant⟩
  rw [List.nodup_flatMap]
  constructor
  · intro path hpath
    refine List.Nodup.sublist (suite.names_outlines_sublist path) ?_
    have hne : Variant.nonStrict.runName path ≠ Variant.strict.runName path :=
      Variant.runName_strict_ne (hpaths path hpath)
    simpa using hne
  · refine hnodup.imp_of_mem ?_
    intro a b ha hb hab name hname_a hname_b
    obtain ⟨variant, rfl⟩ := hname a name hname_a
    obtain ⟨variant', heq⟩ := hname b _ hname_b
    exact hab (Variant.runName_injective (hpaths a ha) (hpaths b hb) heq.symm).1

/-- In a corpus all of whose directories can be gone through and share no file, the results of a
report have different names, whichever engines its runs meet and whichever run comes first. So each
result is found by its name, and the failing ones ascend strictly by it. -/
theorem names_tell_results (suite : Suite) {tree : Entry} {directory : String}
    {files : String → List String} (hworld : suite.world = .ofTree tree directory)
    (htree : tree.isWellNamed = true)
    (hfiles : ∀ dir ∈ suite.settings.directories,
      suite.world.tests suite.settings.root dir = .ok (files dir))
    (hdisjoint : suite.settings.directories.Pairwise fun a b => (files a).Disjoint (files b)) :
    (suite.obstacle? = none → ∃ report, suite.EndsWith report) ∧
    ∀ report, suite.EndsWith report →
      (report.results.map (·.name)).Nodup ∧
      (∀ result ∈ report.results, report.find? result.name = some result) ∧
      (report.failing.map (·.name)).Pairwise (· < ·) := by
  have hscope := nodup_scope hfiles hworld htree hdisjoint
  have hpaths : ∀ path ∈ suite.scope, IsTestPath path := by
    intro path hpath
    obtain ⟨dir, -, listed, htests, hmem, -⟩ := suite.mem_scope_iff.1 hpath
    rw [hworld] at htests
    exact Files.World.isTestPath_of_tests htree htests hmem
  constructor
  · intro hobstacle
    have hrun : suite.run = .completed (suite.performAll suite.corpusTasks) := by
      rw [run, hobstacle]
    exact ⟨_, .corpus trivial hrun⟩
  · intro report hreport
    have hperm := hreport.outlines_perm.map Result.name
    have hnames : (report.results.map (·.name)).Nodup := by
      rw [outlines_corpusTasks hfiles, List.map_flatMap, List.map_map] at hperm
      have hsame : Result.name ∘ Result.outline = Result.name :=
        funext fun result => result.name_outline
      rw [hsame] at hperm
      exact hperm.nodup_iff.2 (nodup_names_outlines hscope hpaths)
    exact ⟨hnames, fun result => Report.find?_name hnames, Report.names_failing_lt hnames⟩

/-- Two directories: in the first a test and a directory that is named like one, in the second a
test that cannot be read. -/
def namesakeTree : Entry :=
  .directory [("corpus", .directory [
    ("test", .directory [
      ("a.js", .file (.ok "/*---\nes5id: 1\n---*/\n")),
      ("b.js", .directory [("strict mode.js", .file (.ok "/*---\nes5id: 1\n---*/\n"))])]),
    ("other", .directory [("a.js", .file (.ok "var x;\n"))])])]

def namesakes : Suite where
  engine := Scripted.engine
  world := .ofTree namesakeTree "/"
  settings := { Settings.standard with root := "/corpus", directories := ["test/", "other"] }

/-- There is no harness, so that all runs fail. -/
theorem names_tell_results_namesakes : ∃ report, namesakes.EndsWith report ∧
    report.failing.length = 5 ∧ (report.failing.map (·.name)).Pairwise (· < ·) ∧
    ∃ result, report.find? "test/a.js/strict mode" = some result ∧
      result.path = "test/a.js" ∧ result.variant = some .strict := by
  have hrun := namesakes.run_eq_completed rfl (by decide +kernel)
  have hfiles : ∀ dir ∈ namesakes.settings.directories,
      namesakes.world.tests namesakes.settings.root dir = .ok
        (if dir = "test/" then ["test/a.js", "test/b.js/strict mode.js"] else ["other/a.js"]) := by
    decide +kernel
  have hworld : namesakes.world = .ofTree namesakeTree "/" := rfl
  obtain ⟨-, hreports⟩ := names_tell_results namesakes hworld (by decide +kernel) hfiles
    (by simp [namesakes, List.Disjoint])
  obtain ⟨-, hfind, hascending⟩ := hreports _ (.corpus trivial hrun)
  obtain ⟨result, hresult, hname, hpath, hvariant⟩ :
      ∃ result ∈ (namesakes.performAll namesakes.corpusTasks).report.results,
        result.name = "test/a.js/strict mode" ∧ result.path = "test/a.js" ∧
          result.variant = some .strict := by
    decide +kernel
  exact ⟨_, .corpus trivial hrun, by decide +kernel, hascending, result, hname ▸ hfind result hresult,
    hpath, hvariant⟩

end Suite

end Conformance
