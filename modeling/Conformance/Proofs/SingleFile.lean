import Conformance.Proofs.Endings
import Conformance.Proofs.Prediction
import Conformance.Proofs.Walking

/-!
# One file alone

Asked for one file, a suite neither walks nor looks at its pattern. In a corpus whose directories
can be gone through and share no file, every test in scope comes up once (`Suite.nodup_scope`), so
what the suite reports of the file alone is what it reports of it among all others:
`Suite.file_agrees_with_corpus`.
-/

namespace Conformance

open Files (Entry)

namespace Suite

variable {suite : Suite} {files : String → List String}

/-- The tests that are counted as not applicable. -/
def notApplicablePaths (suite : Suite) : List String :=
  suite.scope.filter fun path => (suite.planOf path).isNotApplicable

section Walked

variable (hfiles : ∀ dir ∈ suite.settings.directories,
  suite.world.tests suite.settings.root dir = .ok (files dir))

include hfiles

theorem filter_path_corpusTasks (path : String) :
    (suite.corpusTasks.flatMap suite.resultsOf).filter (·.path = path) =
      (List.replicate (suite.scope.count path) (suite.fileResults path)).flatten := by
  rw [corpusTasks_eq hfiles, List.flatMap_assoc]
  exact filter_path_flatMap (fun other result => suite.path_of_mem_fileResults) suite.scope path

/-- In directories that share no file every test comes up once. -/
theorem nodup_scope {tree : Entry} {directory : String}
    (hworld : suite.world = .ofTree tree directory) (htree : tree.isWellNamed = true)
    (hdisjoint : suite.settings.directories.Pairwise fun a b => (files a).Disjoint (files b)) :
    suite.scope.Nodup := by
  rw [scope_eq hfiles, List.nodup_flatMap]
  constructor
  · intro dir hdir
    have htests := hfiles dir hdir
    rw [hworld] at htests
    exact (Files.World.tests_nodup htree htests).filter _
  · apply hdisjoint.imp
    intro a b hab path ha hb
    exact hab (List.mem_of_mem_filter ha) (List.mem_of_mem_filter hb)

end Walked

/-- In a corpus that is run, all of whose directories can be gone through and share no file, the
report of every test that its settings admit is the same alone and among the others, in whatever
order the runs go on in either: the same results come under its path, and it is not applicable
alone where it is one of the tests that the corpus counts as such. -/
theorem file_agrees_with_corpus (suite : Suite) {tree : Entry} {directory : String}
    {files : String → List String} (hworld : suite.world = .ofTree tree directory)
    (htree : tree.isWellNamed = true) (hshort : suite.settings.short = false)
    (hroot : (suite.world.find suite.settings.root).isOk)
    (hfiles : ∀ dir ∈ suite.settings.directories,
      suite.world.tests suite.settings.root dir = .ok (files dir))
    (hdisjoint : suite.settings.directories.Pairwise fun a b => (files a).Disjoint (files b)) :
    (∃ progress, suite.run = .completed progress) ∧
    (∀ target, ∃ report, suite.Ends (· = suite.engine) target report) ∧
    ∀ corpus, suite.Ends (· = suite.engine) .corpus corpus →
      corpus.notApplicable = suite.notApplicablePaths.length ∧ suite.notApplicablePaths.Nodup ∧
      ∀ dir ∈ suite.settings.directories, ∀ path ∈ files dir,
        suite.settings.admits path = true →
        ∀ alone, suite.Ends (· = suite.engine) (.file path) alone →
          alone.results.Perm (corpus.results.filter (·.path = path)) ∧
          alone.notApplicable ≤ 1 ∧
          (alone.notApplicable = 1 ↔ path ∈ suite.notApplicablePaths) := by
  have hrun := suite.run_eq_completed hshort hroot
  have hnodup := nodup_scope hfiles hworld htree hdisjoint
  refine ⟨⟨_, hrun⟩, ?_, ?_⟩
  · intro target
    have hobstacle : suite.obstacleTo? target = none := by
      cases target with
      | corpus => exact suite.obstacle_eq_none hshort hroot
      | file path => rfl
    refine suite.exists_ends ?_ hobstacle
    rfl
  · intro corpus hcorpus
    refine ⟨?_, hnodup.filter _, ?_⟩
    · rw [hcorpus.notApplicable_eq, notApplicablePaths, ← List.countP_eq_length_filter]
      exact suite.countP_isLeftOut
    · intro dir hdir path hpath hadmits alone halone
      have hscope : path ∈ suite.scope :=
        suite.mem_scope_iff.2 ⟨dir, hdir, files dir, hfiles dir hdir, hpath, hadmits⟩
      have hleftOut : alone.notApplicable =
          if (suite.planOf path).isNotApplicable then 1 else 0 :=
        halone.notApplicable_eq.trans (Plan.countP_isLeftOut path (suite.planOf path))
      have hcount : suite.scope.count path = 1 := List.count_eq_one_of_mem hnodup hscope
      refine ⟨?_, ?_, ?_⟩
      · have hcorpusResults := hcorpus.results_perm.filter (·.path = path)
        have hunder := filter_path_corpusTasks hfiles path
        rw [hcount, List.replicate_one, List.flatten_singleton] at hunder
        exact halone.results_perm.trans (.trans (.of_eq hunder.symm) hcorpusResults.symm)
      · rw [hleftOut]
        split <;> omega
      · rw [hleftOut, notApplicablePaths, List.mem_filter]
        simp [hscope]

/-- Two directories, with a test that is run, one that is not applicable and one that cannot be
read. -/
def apartTree : Entry :=
  .directory [("corpus", .directory [
    ("harness", .directory [("assert.js", .file (.ok "")), ("sta.js", .file (.ok ""))]),
    ("test", .directory [
      ("first", .directory [("a.js", .file (.ok "/*---\nes5id: 1\n---*/\n// @panic-drop\n")),
        ("new.js", .file (.ok "/*---\nesid: sec-x\n---*/\n"))]),
      ("second", .directory [("absent.js", .file (.ok "var x;\n"))])])])]

def apart : Suite where
  engine := Scripted.engine
  world := .ofTree apartTree "/"
  settings :=
    { Settings.standard with root := "/corpus", directories := ["test/first", "test/second"] }

/-- The runs of the first test panic at their end, alone and among the others; the second is not
applicable either way. -/
theorem file_agrees_with_corpus_apart : ∃ progress, apart.run = .completed progress ∧
    (apart.runFile "test/first/a.js").report.results.length = 2 ∧
    (apart.runFile "test/first/a.js").report.results.Perm
      (progress.report.results.filter (·.path = "test/first/a.js")) ∧
    (apart.runFile "test/first/new.js").report.notApplicable = 1 ∧
    (apart.runFile "test/second/absent.js").report.notApplicable ≠ 1 := by
  have hfiles : ∀ dir ∈ apart.settings.directories,
      apart.world.tests apart.settings.root dir = .ok
        (if dir = "test/first" then ["test/first/a.js", "test/first/new.js"]
          else ["test/second/absent.js"]) := by
    decide +kernel
  have hworld : apart.world = .ofTree apartTree "/" := rfl
  obtain ⟨⟨progress, hrun⟩, -, hreports⟩ := file_agrees_with_corpus apart hworld
    (by decide +kernel) rfl (by decide +kernel) hfiles (by simp [apart, List.Disjoint])
  obtain ⟨-, -, halone⟩ := hreports _ (.corpus rfl hrun)
  have hpaths : apart.notApplicablePaths = ["test/first/new.js"] := by decide +kernel
  obtain ⟨hfirst, -, -⟩ := halone "test/first" (by decide) "test/first/a.js" (by decide) rfl _
    (.file _ rfl)
  obtain ⟨-, -, hnew⟩ := halone "test/first" (by decide) "test/first/new.js" (by decide) rfl _
    (.file _ rfl)
  obtain ⟨-, -, habsent⟩ := halone "test/second" (by decide) "test/second/absent.js" (by decide)
    rfl _ (.file _ rfl)
  rw [hpaths] at hnew habsent
  exact ⟨progress, hrun, by decide +kernel, hfirst, hnew.2 (by decide), mt habsent.1 (by decide)⟩

end Suite

end Conformance
