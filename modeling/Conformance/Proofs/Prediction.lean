import Mathlib.Data.List.Basic
import Conformance.CommandLine.Response
import Conformance.Proofs.Scope

/-!
# An overview foretells the run

An overview lists the plans of the tests in scope and counts them, and a suite performs what the
same plans leave to be done. `Totals.Foretell` ties the counts to the results, plan by plan; so the
overview that the command line prints has the counters of every report that the suite can end with,
and lists for each test the variants that the report has results of.
-/

namespace Conformance

namespace CommandLine

/-- The words that ask a plan for an edition, a pattern, a root and directories. -/
def planWords (root : String) (directories : List String) (edition : Edition)
    (pattern : Option String) : List String :=
  "--edition" :: edition.key ::
    (pattern.toList.map ("--filter=" ++ ·) ++ "--" :: root :: directories)

/-- A command line that asks for an overview as JSON. -/
def planArguments (root : String) (directories : List String) (edition : Edition)
    (pattern : Option String) : List String :=
  "plan" :: "--json" :: planWords root directories edition pattern

theorem Word.ofText_filter (pattern : String) :
    Word.ofText ("--filter=" ++ pattern) = .long "filter" (some pattern) := by
  have hchars : ("--filter=" ++ pattern).toList =
      '-' :: '-' :: ("filter".toList ++ '=' :: pattern.toList) := by
    rw [String.toList_append]
    rfl
  unfold Word.ofText
  rw [hchars]
  simp

namespace Options

/-- Behind two hyphens every word counts as it stands; only the first must not be empty. -/
theorem read_words (options : Options) (words : List String)
    (h : options.words ≠ [] ∨ words.head? ≠ some "") :
    read .plan none true options words =
      .ok { options with words := options.words ++ words } := by
  induction words generalizing options with
  | nil => simp [read]
  | cons word rest ih =>
    have hpush : options.push .plan word =
        .ok { options with words := options.words ++ [word] } := by
      rcases h with h | h
      · simp [push, h]
      · have hword : word ≠ "" := by simpa using h
        simp [push, hword]
    have hrest := ih { options with words := options.words ++ [word] } (.inl (by simp))
    simp only [List.append_assoc, List.singleton_append] at hrest
    rw [read, hpush]
    exact hrest

end Options

theorem Options.read_planWords (json : Bool) {root : String} (hroot : root ≠ "")
    (directories : List String) (edition : Edition) (pattern : Option String) :
    Options.read .plan none false { json } (planWords root directories edition pattern) =
      .ok { edition, filter := pattern, json, words := root :: directories } := by
  have hedition : Word.ofText "--edition" = .long "edition" none := by decide
  have hstop : Word.ofText "--" = .stop := by decide
  have hkey : Word.ofText edition.key = .plain edition.key := by cases edition <;> decide
  have hvalue : Edition.ofText? edition.key = some edition := by cases edition <;> decide
  have hwords : ∀ options : Options, options.words = [] →
      Options.read .plan none false options ("--" :: root :: directories) =
        .ok { options with words := root :: directories } := by
    intro options hnone
    rw [Options.read, hstop]
    simp [Options.read_words, hnone, hroot]
  rw [planWords, Options.read, hedition]
  change Options.read .plan (some .edition) false { json } _ = _
  rw [Options.read, hkey]
  simp only [Options.assign, hvalue]
  cases pattern with
  | none => exact hwords _ rfl
  | some pattern =>
    change Options.read .plan none false { json, edition := some edition }
      (("--filter=" ++ pattern) :: "--" :: root :: directories) = _
    rw [Options.read, Word.ofText_filter]
    exact hwords _ rfl

theorem read_planArguments (root : String) (directories : List String) (edition : Edition)
    (pattern : Option String) (hroot : root ≠ "") (hdirectories : directories ≠ []) :
    Request.read (planArguments root directories edition pattern) =
      .ok (.plan { Settings.standard with root, directories, edition, pattern } true) := by
  have hplan : Word.ofText "plan" = .plain "plan" := by decide
  have hjson : Word.ofText "--json" = .long "json" none := by decide
  have hread : Options.read .plan none false {}
      ("--json" :: planWords root directories edition pattern) =
      .ok { edition, filter := pattern, json := true, words := root :: directories } := by
    rw [Options.read, hjson]
    exact Options.read_planWords true hroot directories edition pattern
  have hempty : directories.isEmpty = false := by simpa using hdirectories
  simp only [planArguments, Request.read, hplan, readCommand, hread]
  simp [planSettings, hempty, bind, Except.bind, pure, Except.pure]

end CommandLine

namespace Totals

/-- Totals of some plans, and the results and the tests without a result that the plans lead to. -/
structure Foretell (totals : Totals) (results : List Result) (leftOut : Nat) : Prop where
  skipped_eq : totals.skipped = results.countP (·.grade = .skip)
  notApplicable_eq : totals.notApplicable = leftOut
  invalid_eq : totals.invalid =
    results.countP fun result => result.variant = none ∧ result.grade = .error
  runs_eq : totals.runs = results.countP (·.variant.isSome)
  length_eq : results.length = totals.runs + totals.skipped + totals.invalid

theorem foretell_empty : Foretell {} [] 0 where
  skipped_eq := rfl
  notApplicable_eq := rfl
  invalid_eq := rfl
  runs_eq := rfl
  length_eq := rfl

theorem Foretell.add {totals : Totals} {results : List Result} {leftOut : Nat}
    (h : totals.Foretell results leftOut) (path : String) (plan : Plan) :
    (totals.add plan).Foretell (results ++ plan.outlines path)
      (leftOut + if plan.isNotApplicable then 1 else 0) := by
  obtain ⟨hskipped, hnotApplicable, hinvalid, hruns, hlength⟩ := h
  cases plan with
  | skipped cause =>
    constructor <;>
      simp [Totals.add, Plan.isNotApplicable, Result.ofFile, hskipped, hnotApplicable, hinvalid,
        hruns, hlength]
    omega
  | notApplicable =>
    constructor <;> simp [Totals.add, Plan.isNotApplicable, hskipped, hnotApplicable, hinvalid,
      hruns, hlength]
  | invalid problem =>
    constructor <;>
      simp [Totals.add, Plan.isNotApplicable, Result.ofFile, hskipped, hnotApplicable, hinvalid,
        hruns, hlength]
    omega
  | run runs =>
    -- a run is neither skipped before nor an error of the whole file
    constructor <;>
      simp [Totals.add, Plan.isNotApplicable, TestRun.resultOf, Grade.ofVerdict, List.countP_map,
        Function.comp_def, hskipped, hnotApplicable, hinvalid, hruns, hlength]
    omega

theorem Foretell.of_outlines {totals : Totals} {results outlines : List Result} {leftOut : Nat}
    (h : totals.Foretell outlines leftOut) (hperm : (results.map Result.outline).Perm outlines) :
    totals.Foretell results leftOut := by
  obtain ⟨hskipped, hnotApplicable, hinvalid, hruns, hlength⟩ := h
  have hcount : ∀ p : Result → Bool, (∀ result, p result.outline = p result) →
      outlines.countP p = results.countP p := by
    intro p hp
    rw [← hperm.countP_eq p, List.countP_map]
    exact List.countP_congr fun result _ => by simp [hp]
  refine ⟨?_, hnotApplicable, ?_, ?_, ?_⟩
  · rw [hskipped, hcount]
    simp
  · rw [hinvalid, hcount]
    intro result
    cases hvariant : result.variant <;> simp [hvariant, Result.outline_of_none]
  · rw [hruns, hcount]
    simp
  · rw [← hlength, ← hperm.length_eq, List.length_map]

end Totals

variable {world : Files.World} {settings : Settings}

namespace Overview

theorem toList_foldl_add (entries : List (String × Plan)) (overview : Overview) :
    (entries.foldl add overview).entries.toList = overview.entries.toList ++ entries := by
  induction entries generalizing overview with
  | nil => simp
  | cons entry rest ih => simp [ih, add]

/-- Where no directory is an obstacle, an overview holds the plans for all of them. -/
theorem extend_eq {files : String → List String} {directories : List String}
    (h : ∀ dir ∈ directories, world.tests settings.root dir = .ok (files dir))
    (overview : Overview) :
    extend world settings overview directories =
      ((directories.flatMap fun dir => Plan.ofPaths world settings (files dir)).foldl add overview,
        none) := by
  have hplans : ∀ dir ∈ directories, Plan.ofDirectory world settings dir =
      .ok (Plan.ofPaths world settings (files dir)) := by
    intro dir hdir
    unfold Plan.ofDirectory
    rw [h dir hdir]
  clear h
  fun_induction extend world settings overview directories with
  | case1 overview => rfl
  | case2 overview dir rest problem herror =>
    have hdir := hplans dir List.mem_cons_self
    rw [herror] at hdir
    cases hdir
  | case3 overview dir rest entries hok ih =>
    have hdir := hplans dir List.mem_cons_self
    rw [hok] at hdir
    cases hdir
    rw [List.flatMap_cons, List.foldl_append]
    exact ih fun later hlater => hplans later (List.mem_cons_of_mem dir hlater)

end Overview

namespace Suite

variable {suite : Suite} {files : String → List String}

/-- The plans for the tests in scope, in order. -/
def entries (suite : Suite) : List (String × Plan) :=
  suite.scope.map fun path => (path, suite.planOf path)

theorem totals_foretell (suite : Suite) (paths : List String) {overview : Overview}
    {results : List Result} {leftOut : Nat} (h : overview.totals.Foretell results leftOut) :
    ((paths.map fun path => (path, suite.planOf path)).foldl Overview.add overview).totals.Foretell
      (results ++ paths.flatMap fun path => (suite.planOf path).outlines path)
      (leftOut + paths.countP fun path => (suite.planOf path).isNotApplicable) := by
  induction paths generalizing overview results leftOut with
  | nil => simpa using h
  | cons path rest ih =>
    have hadd : (overview.add (path, suite.planOf path)).totals.Foretell
        (results ++ (suite.planOf path).outlines path)
        (leftOut + if (suite.planOf path).isNotApplicable then 1 else 0) :=
      h.add path (suite.planOf path)
    have hrest := ih hadd
    simp only [List.append_assoc, Nat.add_assoc] at hrest
    rw [List.flatMap_cons, List.countP_cons, Nat.add_comm (rest.countP _)]
    exact hrest

section Walked

variable (hfiles : ∀ dir ∈ suite.settings.directories,
  suite.world.tests suite.settings.root dir = .ok (files dir))

include hfiles

theorem scope_eq : suite.scope =
    suite.settings.directories.flatMap fun dir => (files dir).filter suite.settings.admits := by
  apply List.flatMap_congr
  intro dir hdir
  unfold directoryScope
  rw [hfiles dir hdir]

theorem corpusTasks_eq : suite.corpusTasks = suite.scope.flatMap suite.fileTasks := by
  rw [scope_eq hfiles, List.flatMap_assoc]
  apply List.flatMap_congr
  intro dir hdir
  unfold directoryTasks
  rw [hfiles dir hdir]

theorem entries_eq : suite.entries = suite.settings.directories.flatMap fun dir =>
    Plan.ofPaths suite.world suite.settings (files dir) := by
  rw [entries, scope_eq hfiles, List.map_flatMap]
  rfl

theorem outlines_corpusTasks : suite.corpusTasks.flatMap Task.outlines =
    suite.scope.flatMap fun path => (suite.planOf path).outlines path := by
  rw [corpusTasks_eq hfiles, List.flatMap_assoc]
  rfl

theorem EndsWith.foretold {report : Report} (h : suite.EndsWith report) :
    (suite.entries.foldl Overview.add {}).totals.Foretell report.results report.notApplicable := by
  have hempty : ({} : Overview).totals.Foretell [] 0 := Totals.foretell_empty
  have hplans := suite.totals_foretell suite.scope hempty
  have hleftOut : report.notApplicable = suite.corpusTasks.countP (·.isLeftOut) :=
    h.notApplicable_eq
  rw [Nat.zero_add, ← suite.countP_isLeftOut, ← hleftOut, List.nil_append,
    ← outlines_corpusTasks hfiles] at hplans
  exact hplans.of_outlines h.outlines_perm

end Walked

theorem variants_outlines (suite : Suite) (paths : List String) (path : String) :
    ((paths.flatMap fun other => (suite.planOf other).outlines other).filter
        (·.path = path)).map (·.variant) =
      (List.replicate (paths.count path)
        (((suite.planOf path).outlines path).map (·.variant))).flatten := by
  rw [filter_path_flatMap fun other result => suite.path_of_mem_outlines, List.map_flatten,
    List.map_replicate]

theorem EndsWith.variants_perm {suite : Suite} {files : String → List String}
    (hfiles : ∀ dir ∈ suite.settings.directories,
      suite.world.tests suite.settings.root dir = .ok (files dir))
    {report : Report} (h : suite.EndsWith report) {path : String} {runs : List TestRun}
    (hmem : (path, Plan.run runs) ∈ suite.entries) :
    ((report.results.filter (·.path = path)).map (·.variant)).Perm
      (List.replicate ((suite.entries.map (·.1)).count path)
        (runs.map fun run => some run.variant)).flatten := by
  have hplan : suite.planOf path = .run runs := by
    obtain ⟨other, -, hentry⟩ := List.mem_map.1 hmem
    obtain ⟨rfl, hruns⟩ := Prod.mk.inj hentry
    exact hruns
  have hpaths : suite.entries.map (·.1) = suite.scope := by simp [entries, Function.comp_def]
  have hvariants : ((suite.planOf path).outlines path).map (·.variant) =
      runs.map fun run => some run.variant := by
    simp [hplan, TestRun.resultOf]
  have hresults : ((report.results.map Result.outline).filter (·.path = path)).map (·.variant) =
      (report.results.filter (·.path = path)).map (·.variant) := by
    simp [List.filter_map, Function.comp_def]
  rw [hpaths, ← hvariants, ← suite.variants_outlines, ← outlines_corpusTasks hfiles, ← hresults]
  exact (h.outlines_perm.filter _).map _

/-- Where all directories can be gone through, the command line prints an overview of the plans of
the tests in scope, in order, and the overview foretells every report that the suite can end with,
whichever engines its runs meet and whichever run comes first: its counters, how many results of
whole files are errors, how many results are those of runs, and for each test that is to be run the
variants of its results, as often as it is come across. -/
theorem overview_foretells_report (suite : Suite) {files : String → List String}
    (hfiles : ∀ dir ∈ suite.settings.directories,
      suite.world.tests suite.settings.root dir = .ok (files dir)) :
    ∃ overview : Overview,
      CommandLine.respond suite.world (.plan suite.settings true) =
        .success ((overview.toJson suite.settings).pretty ++ "\n") ∧
      (∀ arguments, CommandLine.Request.read arguments = .ok (.plan suite.settings true) →
        CommandLine.run suite.world arguments =
          .success ((overview.toJson suite.settings).pretty ++ "\n")) ∧
      overview.entries.toList = (suite.settings.directories.flatMap fun dir =>
        Plan.ofPaths suite.world suite.settings (files dir)) ∧
      (suite.obstacle? = none → ∃ report, suite.EndsWith report) ∧
      ∀ report, suite.EndsWith report →
        report.skipped = overview.totals.skipped ∧
        report.notApplicable = overview.totals.notApplicable ∧
        report.results.countP (fun result => result.variant = none ∧ result.grade = .error) =
          overview.totals.invalid ∧
        report.results.countP (·.variant.isSome) = overview.totals.runs ∧
        report.total =
          overview.totals.runs + overview.totals.skipped + overview.totals.invalid ∧
        ∀ path runs, (path, Plan.run runs) ∈ overview.entries.toList →
          ((report.results.filter (·.path = path)).map (·.variant)).Perm
            (List.replicate ((overview.entries.toList.map (·.1)).count path)
              (runs.map fun run => some run.variant)).flatten := by
  have hentries := entries_eq hfiles
  have hrespond : CommandLine.respond suite.world (.plan suite.settings true) =
      .success (((suite.entries.foldl Overview.add {}).toJson suite.settings).pretty ++ "\n") := by
    rw [CommandLine.respond, CommandLine.showPlan, Overview.ofSettings, Overview.extend_eq hfiles,
      ← hentries]
    rfl
  have hlist : (suite.entries.foldl Overview.add {}).entries.toList = suite.entries := by
    rw [Overview.toList_foldl_add, List.nil_append]
  refine ⟨suite.entries.foldl Overview.add {}, hrespond, ?_, hlist.trans hentries, ?_, ?_⟩
  · intro arguments hread
    rw [CommandLine.run, hread]
    exact hrespond
  · intro hobstacle
    have hrun : suite.run = .completed (suite.performAll suite.corpusTasks) := by
      rw [run, hobstacle]
    exact ⟨_, .corpus trivial hrun⟩
  · intro report hends
    obtain ⟨hskipped, hnotApplicable, hinvalid, hruns, hlength⟩ := EndsWith.foretold hfiles hends
    refine ⟨hends.counted.skipped_eq.trans hskipped.symm, hnotApplicable.symm, hinvalid.symm,
      hruns.symm, hends.counted.total_eq.trans hlength, ?_⟩
    intro path runs hmem
    rw [hlist] at hmem ⊢
    exact EndsWith.variants_perm hfiles hends hmem

/-- A corpus of three tests, one of which is below two of the directories. -/
def survey : Suite where
  engine := Scripted.engine
  world := .ofTree (.directory [("corpus", .directory [("test", .directory [
    ("absent.js", .file (.ok "var x;\n")),
    ("new.js", .file (.ok "/*---\nesid: sec-x\n---*/\n")),
    ("twice", .directory [("plain.js", .file (.ok "/*---\nes5id: 1\n---*/\n"))])])])]) "/"
  settings := { Settings.standard with root := "/corpus", directories := ["test", "test/twice"] }

theorem overview_foretells_report_survey : ∃ progress overview,
    survey.run = .completed progress ∧
      CommandLine.run survey.world
          (CommandLine.planArguments "/corpus" ["test", "test/twice"] .es5 none) =
        .success ((Overview.toJson survey.settings overview).pretty ++ "\n") ∧
      progress.report.notApplicable = overview.totals.notApplicable ∧
      progress.report.total =
        overview.totals.runs + overview.totals.skipped + overview.totals.invalid := by
  have hrun := survey.run_eq_completed rfl (by decide +kernel)
  have hfiles : ∀ dir ∈ survey.settings.directories,
      survey.world.tests survey.settings.root dir = .ok
        (if dir = "test" then ["test/absent.js", "test/new.js", "test/twice/plain.js"]
          else ["test/twice/plain.js"]) := by
    decide +kernel
  obtain ⟨overview, -, hcommand, -, -, hreports⟩ := overview_foretells_report survey hfiles
  obtain ⟨-, hnotApplicable, -, -, htotal, -⟩ := hreports _ (.corpus trivial hrun)
  have hread := CommandLine.read_planArguments "/corpus" ["test", "test/twice"] .es5 none
    (by decide) (by decide)
  exact ⟨_, overview, hrun, hcommand _ hread, hnotApplicable, htotal⟩

end Suite

end Conformance
