import Conformance.Proofs.Prediction
import Conformance.Proofs.Walking

/-!
# The two forms of an overview

An overview is printed line by line, or as one JSON value once it is complete. What the lines say
can be told from the JSON value: each entry has the line of its file, and the totals are those of
its entries (`Overview.Told`). Where a directory cannot be gone through, both forms report the same,
and only the lines of the directories before it are printed by then.
-/

namespace Conformance

open Files (bind_eq_ok_iff)

namespace CommandLine

namespace Options

/-! Words that are read without JSON being asked for are read in the same way after it was asked for,
each option and each letter: the flag is looked at only where it would be raised once more. -/

/-- The same options, with JSON asked for. -/
def asJson (options : Options) : Options :=
  { options with json := true }

variable {level : Level} {options next : Options}

theorem raise_asJson {switch : Switch} (h : options.raise switch = .ok next)
    (hnext : next.json = false) :
    options.json = false ∧ options.asJson.raise switch = .ok next.asJson := by
  cases switch with
  | help => cases h
  | version => cases h
  | verbose =>
    cases h
    exact ⟨hnext, rfl⟩
  | json =>
    by_cases hjson : options.json
    · simp [raise, hjson] at h
    · simp only [raise, hjson] at h
      cases h
      cases hnext

theorem assign_asJson {value : String} {valued : Valued}
    (h : options.assign value valued = .ok next) (hnext : next.json = false) :
    options.json = false ∧ options.asJson.assign value valued = .ok next.asJson := by
  cases valued with
  | edition =>
    cases hedition : Edition.ofText? value with
    | none => simp [assign, hedition] at h
    | some edition =>
      by_cases hgiven : options.edition.isSome
      · simp [assign, hedition, hgiven] at h
      · simp only [assign, hedition, hgiven] at h
        cases h
        exact ⟨hnext, by simp [assign, asJson, hedition, hgiven]⟩
  | filter =>
    by_cases hgiven : options.filter.isSome
    · simp [assign, hgiven] at h
    · simp only [assign, hgiven] at h
      cases h
      exact ⟨hnext, by simp [assign, asJson, hgiven]⟩

/-- Two steps go as they do with JSON asked for if each of them does. -/
theorem bind_asJson {α β : Type} {x x' : Except Halt α} {f f' : α → Except Halt β} {lift : α → α}
    {b b' : β} {unasked : α → Prop} {start : Prop} (h : x >>= f = .ok b)
    (hfirst : ∀ a, x = .ok a → unasked a → start ∧ x' = .ok (lift a))
    (hrest : ∀ a, f a = .ok b → unasked a ∧ f' (lift a) = .ok b') :
    start ∧ x' >>= f' = .ok b' := by
  obtain ⟨a, hx, hf⟩ := bind_eq_ok_iff.1 h
  obtain ⟨hunasked, hf'⟩ := hrest a hf
  obtain ⟨hstart, hx'⟩ := hfirst a hx hunasked
  exact ⟨hstart, bind_eq_ok_iff.2 ⟨lift a, hx', hf'⟩⟩

theorem assigned_asJson {value : String} {valued : Valued} {taken : Options × Option Valued}
    (h : (do pure (← options.assign value valued, none)) = .ok taken)
    (hnext : taken.1.json = false) :
    options.json = false ∧
      (do pure (← options.asJson.assign value valued, none)) = .ok (taken.1.asJson, taken.2) := by
  refine bind_asJson h (fun next => assign_asJson) ?_
  intro next hpure
  cases hpure
  exact ⟨hnext, rfl⟩

theorem push_asJson {word : String} (h : options.push level word = .ok next)
    (hnext : next.json = false) :
    options.json = false ∧ options.asJson.push level word = .ok next.asJson := by
  unfold push at h ⊢
  dsimp only [asJson] at h ⊢
  split at h
  · cases h
  · rename_i hfirst
    split at h
    · cases h
    · rename_i hlevel
      cases h
      rw [if_neg hfirst, if_neg hlevel]
      exact ⟨hnext, rfl⟩

theorem letters_asJson {cs : List Char} {taken : Options × Option Valued}
    (h : options.letters level cs = .ok taken) (hnext : taken.1.json = false) :
    options.json = false ∧ options.asJson.letters level cs = .ok (taken.1.asJson, taken.2) := by
  induction cs generalizing options with
  | nil =>
    cases h
    exact ⟨hnext, rfl⟩
  | cons letter rest ih =>
    rw [letters] at h ⊢
    cases hswitch : Switch.ofShort? level letter with
    | some switch =>
      simp only [hswitch] at h ⊢
      exact bind_asJson h (fun next => raise_asJson) (fun next => ih)
    | none =>
      simp only [hswitch] at h ⊢
      cases hvalued : Valued.ofShort? level letter with
      | none =>
        simp only [hvalued] at h
        cases h
      | some valued =>
        simp only [hvalued] at h ⊢
        split at h
        · cases h
          exact ⟨hnext, rfl⟩
        · exact assigned_asJson h hnext
        · exact assigned_asJson h hnext

theorem long_asJson {name : String} {value : Option String} {taken : Options × Option Valued}
    (h : options.long level name value = .ok taken) (hnext : taken.1.json = false) :
    options.json = false ∧
      options.asJson.long level name value = .ok (taken.1.asJson, taken.2) := by
  unfold long at h ⊢
  split at h
  · cases h
    exact ⟨hnext, rfl⟩
  · exact assigned_asJson h hnext
  · refine bind_asJson h (fun next => raise_asJson) ?_
    intro next hpure
    cases hpure
    exact ⟨hnext, rfl⟩
  · cases h
  · cases h

/-- What is read without JSON being asked for is read with it as well, JSON apart. -/
theorem read_asJson {waiting : Option Valued} {stopped : Bool} {words : List String}
    (h : read level waiting stopped options words = .ok next) (hnext : next.json = false) :
    options.json = false ∧
      read level waiting stopped options.asJson words = .ok next.asJson := by
  induction words generalizing waiting stopped options with
  | nil =>
    cases waiting with
    | none =>
      cases h
      exact ⟨hnext, rfl⟩
    | some valued => cases h
  | cons text rest ih =>
    cases waiting with
    | none =>
      cases stopped with
      | true =>
        rw [read] at h ⊢
        exact bind_asJson h (fun next => push_asJson) (fun next => ih)
      | false =>
        rw [read] at h ⊢
        cases hword : Word.ofText text with
        | plain word =>
          simp only [hword] at h ⊢
          exact bind_asJson h (fun next => push_asJson) (fun next => ih)
        | stop =>
          simp only [hword] at h ⊢
          exact ih h
        | long name value =>
          simp only [hword] at h ⊢
          exact bind_asJson h (fun taken => long_asJson) (fun taken => ih)
        | short cs =>
          simp only [hword] at h ⊢
          exact bind_asJson h (fun taken => letters_asJson) (fun taken => ih)
    | some valued =>
      cases stopped with
      | true => cases h
      | false =>
        rw [read] at h ⊢
        cases hword : Word.ofText text with
        | plain value =>
          simp only [hword] at h ⊢
          exact bind_asJson h (fun next => assign_asJson) (fun next => ih)
        | _ =>
          simp only [hword] at h
          cases h

end Options

theorem read_plan_eq_ok_iff {words : List String} {request : Request} :
    Request.read ("plan" :: words) = .ok request ↔
      ∃ options root directories, Options.read .plan none false {} words = .ok options ∧
        options.words = root :: directories ∧
        request = .plan (planSettings root directories options) options.json := by
  have hplan : Word.ofText "plan" = .plain "plan" := by decide
  simp only [Request.read, hplan, readCommand, bind_eq_ok_iff]
  constructor
  · rintro ⟨options, hoptions, hrequest⟩
    split at hrequest
    · rename_i root directories hwords
      cases hrequest
      exact ⟨options, root, directories, hoptions, hwords, rfl⟩
    · cases hrequest
  · rintro ⟨options, root, directories, hoptions, hwords, rfl⟩
    refine ⟨options, hoptions, ?_⟩
    rw [hwords]
    rfl

theorem read_plan_json {words : List String} {settings : Settings}
    (h : Request.read ("plan" :: words) = .ok (.plan settings false)) :
    Request.read ("plan" :: "--json" :: words) = .ok (.plan settings true) := by
  have hjson : Word.ofText "--json" = .long "json" none := by decide
  obtain ⟨options, root, directories, hoptions, hwords, hrequest⟩ := read_plan_eq_ok_iff.1 h
  obtain ⟨rfl, hnone⟩ := Request.plan.inj hrequest
  obtain ⟨-, hread⟩ := Options.read_asJson hoptions hnone.symm
  refine read_plan_eq_ok_iff.2 ⟨options.asJson, root, directories, ?_, hwords, rfl⟩
  rw [Options.read, hjson]
  exact hread

theorem exists_plan_words {root : String} (hroot : root ≠ "") (directories : List String)
    (edition : Edition) (pattern : Option String) :
    ∃ words, Request.read ("plan" :: words) = .ok (.plan
      { Settings.standard with
        root, edition, pattern
        directories := if directories = [] then Settings.standardDirectories else directories }
      false) := by
  refine ⟨planWords root directories edition pattern, read_plan_eq_ok_iff.2
    ⟨_, root, directories, Options.read_planWords false hroot directories edition pattern, rfl, ?_⟩⟩
  simp [planSettings]

end CommandLine

namespace Json

/-- The field of an object that has that name. -/
def field? (name : String) : Json → Option Json
  | .object fields => fields.lookup name
  | _ => none

def text? : Json → Option String
  | .string s => some s
  | _ => none

def count? : Json → Option Nat
  | .natural n => some n
  | _ => none

def texts? : Json → Option (List String)
  | .array items => items.mapM text?
  | _ => none

theorem texts?_texts (items : List String) : (texts items).texts? = some items := by
  induction items with
  | nil => rfl
  | cons item rest ih =>
    simp only [texts, texts?, List.map_cons, List.mapM_cons] at ih ⊢
    simp [text?, ih]

end Json

namespace Overview

/-- What an entry says is to be done with its file. -/
def kindOf (entry : Json) : Option String := do
  (← entry.field? "plan").text?

/-- The variants that an entry lists. -/
def variantsOf (entry : Json) : List String :=
  ((entry.field? "variants").bind Json.texts?).getD []

/-- The line of a file, told from its entry. -/
def tellLine? (entry : Json) : Option String := do
  let path ← (← entry.field? "path").text?
  match ← kindOf entry with
  | "run" =>
    let variants ← (← entry.field? "variants").texts?
    some ("RUN     " ++ path ++ " [" ++ ", ".intercalate variants ++ "]\n")
  | "skip" =>
    let reason ← (← entry.field? "reason").text?
    some ("SKIP    " ++ path ++ " (" ++ reason ++ ")\n")
  | "invalid" =>
    let error ← (← entry.field? "error").text?
    some ("INVALID " ++ path ++ ": " ++ error ++ "\n")
  | _ => none

/-- The totals that a summary gives. -/
def tellTotals? (summary : Json) : Option Totals := do
  let files ← (← summary.field? "files").count?
  let runs ← (← summary.field? "runs").count?
  let skipped ← (← summary.field? "skipped").count?
  let notApplicable ← (← summary.field? "not_applicable").count?
  let invalid ← (← summary.field? "invalid").count?
  some { files, runs, skipped, notApplicable, invalid }

theorem tellTotals?_toJson (totals : Totals) : tellTotals? totals.toJson = some totals := by
  simp [tellTotals?, Totals.toJson, Json.field?, List.lookup_cons, Json.count?]

/-- Totals that are those of entries. -/
structure Tallied (totals : Totals) (entries : List Json) : Prop where
  files_eq : totals.files = entries.length
  runs_eq : totals.runs = (entries.map fun entry => (variantsOf entry).length).sum
  skipped_eq : totals.skipped = entries.countP (kindOf · = some "skip")
  notApplicable_eq : totals.notApplicable = entries.countP (kindOf · = some "not_applicable")
  invalid_eq : totals.invalid = entries.countP (kindOf · = some "invalid")

/-- What the JSON form says, as entries, lines and totals. An entry is of one of four kinds, and
those that are not applicable have no line. -/
structure Told (value : Json) (entries : List Json) (lines : List String) (totals : Totals) :
    Prop where
  files : value.field? "files" = some (.array entries)
  kinds : ∀ entry ∈ entries,
    kindOf entry ∈ [some "run", some "skip", some "not_applicable", some "invalid"]
  lines : (entries.filter (kindOf · ≠ some "not_applicable")).map tellLine? = lines.map some
  summary : (value.field? "summary").bind tellTotals? = some totals
  tallied : Tallied totals entries

section Entry

variable (path : String) (plan : Plan)

theorem kindOf_entryJson : kindOf (entryJson path plan) = some (match plan with
    | .run _ => "run"
    | .skipped _ => "skip"
    | .notApplicable => "not_applicable"
    | .invalid _ => "invalid") := by
  cases plan <;> simp [kindOf, entryJson, Json.field?, List.lookup_cons, Json.text?]

theorem variantsOf_entryJson : variantsOf (entryJson path plan) = titles plan.runs := by
  cases plan <;>
    simp [variantsOf, entryJson, Json.field?, List.lookup_cons, Json.texts?_texts, Plan.runs,
      titles]

theorem tellLine?_entryJson (h : plan ≠ .notApplicable) :
    tellLine? (entryJson path plan) = some (entryLine path plan) := by
  unfold tellLine?
  rw [kindOf_entryJson]
  cases plan with
  | notApplicable => exact absurd rfl h
  | _ => simp [entryJson, entryLine, Json.field?, List.lookup_cons, Json.text?, Json.texts?_texts]

end Entry

theorem Tallied.add {totals : Totals} {entries : List Json} (h : Tallied totals entries)
    (path : String) (plan : Plan) :
    Tallied (totals.add plan) (entries ++ [entryJson path plan]) := by
  obtain ⟨hfiles, hruns, hskipped, hnotApplicable, hinvalid⟩ := h
  cases plan <;> constructor <;>
    simp [Totals.add, hfiles, hruns, hskipped, hnotApplicable, hinvalid, kindOf_entryJson,
      variantsOf_entryJson, Plan.runs, titles]

theorem tallied_foldl_add {overview : Overview}
    (h : Tallied overview.totals (overview.entries.toList.map fun (path, plan) =>
      entryJson path plan)) (entries : List (String × Plan)) :
    Tallied (entries.foldl add overview).totals
      ((overview.entries.toList ++ entries).map fun (path, plan) => entryJson path plan) := by
  induction entries generalizing overview with
  | nil => simpa using h
  | cons entry rest ih =>
    have hadd := h.add entry.1 entry.2
    have hrest := @ih (overview.add entry) (by simpa [Overview.add] using hadd)
    simpa [Overview.add] using hrest

/-- The lines of the files that have one. -/
def fileLines (entries : List (String × Plan)) : List String :=
  (entries.filter fun entry => ¬ entry.2.isNotApplicable).map fun (path, plan) =>
    entryLine path plan

theorem join_fileLines (entries : List (String × Plan)) :
    String.join (entries.map fun (path, plan) => entryLine path plan) =
      String.join (fileLines entries) := by
  induction entries with
  | nil => rfl
  | cons entry rest ih =>
    obtain ⟨path, plan⟩ := entry
    cases plan with
    | notApplicable => simpa [fileLines, Plan.isNotApplicable, String.join_cons, entryLine] using ih
    | _ => simpa [fileLines, Plan.isNotApplicable, String.join_cons] using ih

theorem lines_foldl_add (entries : List (String × Plan)) :
    (entries.foldl add {}).lines = String.join (fileLines entries) := by
  rw [lines, toList_foldl_add, List.nil_append, join_fileLines]

/-- The JSON form of an overview says what its lines and totals are. -/
theorem told_foldl_add (settings : Settings) (entries : List (String × Plan)) :
    Told ((entries.foldl add {}).toJson settings)
      (entries.map fun (path, plan) => entryJson path plan) (fileLines entries)
      (entries.foldl add {}).totals where
  files := by
    rw [toJson, toList_foldl_add]
    simp [Json.field?, List.lookup_cons]
  kinds := by
    simp only [List.forall_mem_map]
    rintro ⟨path, plan⟩ -
    rw [kindOf_entryJson]
    cases plan <;> simp
  lines := by
    rw [fileLines, List.filter_map, List.map_map, List.map_map]
    have hfilter : entries.filter ((fun entry => decide (kindOf entry ≠ some "not_applicable")) ∘
        fun (path, plan) => entryJson path plan) =
        entries.filter fun entry => ¬ entry.2.isNotApplicable := by
      apply List.filter_congr
      rintro ⟨path, plan⟩ -
      rw [Function.comp_apply, kindOf_entryJson]
      cases plan <;> simp [Plan.isNotApplicable]
    rw [hfilter]
    refine List.map_congr_left ?_
    rintro ⟨path, plan⟩ hmem
    refine tellLine?_entryJson path plan ?_
    rintro rfl
    simp [Plan.isNotApplicable] at hmem
  summary := by
    simp [toJson, Json.field?, List.lookup_cons, tellTotals?_toJson]
  tallied := by
    have hnone : Tallied ({} : Overview).totals (({} : Overview).entries.toList.map
        fun (path, plan) => entryJson path plan) := ⟨rfl, rfl, rfl, rfl, rfl⟩
    exact tallied_foldl_add hnone entries

variable {world : Files.World} {settings : Settings}

theorem extend_cons (overview : Overview) (dir : String) (rest : List String) :
    extend world settings overview (dir :: rest) =
      match Plan.ofDirectory world settings dir with
      | .error problem => (overview, some ⟨dir, problem⟩)
      | .ok entries => extend world settings (entries.foldl add overview) rest :=
  extend.eq_def world settings overview (dir :: rest)

theorem extend_of_refusal {files : String → List String} {before after : List String} {dir : String}
    {refusal : Files.Refusal}
    (hbefore : ∀ other ∈ before, world.tests settings.root other = .ok (files other))
    (hdir : world.tests settings.root dir = .error refusal) (overview : Overview) :
    extend world settings overview (before ++ dir :: after) =
      ((before.flatMap fun other => Plan.ofPaths world settings (files other)).foldl add overview,
        some ⟨dir, .access refusal.path refusal.cause⟩) := by
  induction before generalizing overview with
  | nil =>
    have hplans : Plan.ofDirectory world settings dir =
        .error (.access refusal.path refusal.cause) := by
      unfold Plan.ofDirectory
      rw [hdir]
    rw [List.nil_append, extend_cons, hplans]
    rfl
  | cons first rest ih =>
    have hfirst : Plan.ofDirectory world settings first =
        .ok (Plan.ofPaths world settings (files first)) := by
      unfold Plan.ofDirectory
      rw [hbefore first List.mem_cons_self]
    rw [List.cons_append, extend_cons, hfirst, List.flatMap_cons, List.foldl_append]
    exact ih (fun other hother => hbefore other (List.mem_cons_of_mem _ hother)) _

theorem exists_told {directories : List String}
    (h : ∀ dir ∈ directories, (world.tests settings.root dir).isOk) :
    ∃ overview : Overview, (∃ entries lines, Told (overview.toJson settings) entries lines
        overview.totals ∧ overview.lines = String.join lines) ∧
      extend world settings {} directories = (overview, none) ∧
      ∀ dir after refusal, world.tests settings.root dir = .error refusal →
        extend world settings {} (directories ++ dir :: after) =
          (overview, some ⟨dir, .access refusal.path refusal.cause⟩) := by
  have hfiles : ∀ dir ∈ directories, world.tests settings.root dir =
      .ok ((world.tests settings.root dir).toOption.getD []) := by
    intro dir hdir
    have hok := h dir hdir
    cases htests : world.tests settings.root dir with
    | ok files => rfl
    | error refusal =>
      rw [htests] at hok
      cases hok
  refine ⟨_, ⟨_, _, told_foldl_add settings _, lines_foldl_add _⟩, extend_eq hfiles {}, ?_⟩
  intro dir after refusal hdir
  exact extend_of_refusal hfiles hdir {}

theorem walkable_or_first (world : Files.World) (root : String) (directories : List String) :
    (∀ dir ∈ directories, (world.tests root dir).isOk) ∨
    ∃ before dir after refusal, directories = before ++ dir :: after ∧
      (∀ other ∈ before, (world.tests root other).isOk) ∧
      world.tests root dir = .error refusal := by
  cases hfind : directories.find? fun dir => ¬ (world.tests root dir).isOk with
  | none => exact .inl (by simpa using hfind)
  | some dir =>
    obtain ⟨hdir, before, after, hsplit, hbefore⟩ := List.find?_eq_some_iff_append.1 hfind
    cases htests : world.tests root dir with
    | ok files => simp [htests, Except.isOk, Except.toBool] at hdir
    | error refusal =>
      exact .inr ⟨before, dir, after, refusal, hsplit, by simpa using hbefore, htests⟩

theorem extend_congr_directories (directories rest : List String) (overview : Overview) :
    extend world { settings with directories } overview rest =
      extend world settings overview rest := by
  induction rest generalizing overview with
  | nil => rfl
  | cons dir rest ih =>
    have hplans : Plan.ofDirectory world { settings with directories } dir =
        Plan.ofDirectory world settings dir := rfl
    rw [extend_cons, extend_cons, hplans]
    cases Plan.ofDirectory world settings dir with
    | error problem => rfl
    | ok entries => exact ih _

end Overview

namespace CommandLine

variable {world : Files.World} {settings : Settings} {overview : Overview}

theorem showPlan_of_complete (h : Overview.ofSettings world settings = (overview, none)) :
    showPlan world settings true = .success ((overview.toJson settings).pretty ++ "\n") ∧
      showPlan world settings false =
        .success (overview.lines ++ "\n" ++ overview.totals.line settings.edition) := by
  unfold showPlan
  rw [h]
  exact ⟨rfl, rfl⟩

theorem showPlan_of_obstacle {obstacle : Overview.Obstacle}
    (h : Overview.ofSettings world settings = (overview, some obstacle)) :
    ∃ trace, trace = (Trace.ofProblem obstacle.problem).within ("walking " ++ obstacle.directory) ∧
      showPlan world settings true = .failure "" trace ∧
      showPlan world settings false = .failure overview.lines trace := by
  unfold showPlan
  rw [h]
  exact ⟨_, rfl, rfl, rfl⟩

theorem run_of_read {words : List String} {request : Request}
    (h : Request.read words = .ok request) : run world words = respond world request := by
  rw [run, h]

/-- With and without `--json` the overview of a corpus says the same. Any directories, edition and
pattern can be asked for. Where all directories can be gone through, the lines are those told by
the entries of the JSON form, in order, without the tests that are not applicable, and the last line
has the totals of its summary, which are those of its entries. Otherwise both forms fail for the
first directory that cannot be gone through, one of them with the lines printed that the text form
has for the directories before it, the other one with nothing. -/
theorem plan_forms_agree (world : Files.World) :
    (∀ root, root ≠ "" → ∀ directories edition pattern,
      ∃ words, Request.read ("plan" :: words) = .ok (.plan
        { Settings.standard with
          root, edition, pattern
          directories :=
            if directories = [] then Settings.standardDirectories else directories }
        false)) ∧
    ∀ words settings, Request.read ("plan" :: words) = .ok (.plan settings false) →
      ((∀ dir ∈ settings.directories, (world.tests settings.root dir).isOk) →
        ∃ value entries lines totals, Overview.Told value entries lines totals ∧
          run world ("plan" :: "--json" :: words) = .success (value.pretty ++ "\n") ∧
          run world ("plan" :: words) =
            .success (String.join lines ++ "\n" ++ totals.line settings.edition)) ∧
      ((∃ dir ∈ settings.directories, ¬ (world.tests settings.root dir).isOk) →
        ∃ before dir after refusal, settings.directories = before ++ dir :: after ∧
          (∀ other ∈ before, (world.tests settings.root other).isOk) ∧
          world.tests settings.root dir = .error refusal ∧
          ∃ value entries lines totals trace, Overview.Told value entries lines totals ∧
            showPlan world { settings with directories := before } true =
              .success (value.pretty ++ "\n") ∧
            showPlan world { settings with directories := before } false =
              .success (String.join lines ++ "\n" ++ totals.line settings.edition) ∧
            trace = (Trace.ofProblem (.access refusal.path refusal.cause)).within
              ("walking " ++ dir) ∧
            run world ("plan" :: "--json" :: words) = .failure "" trace ∧
            run world ("plan" :: words) = .failure (String.join lines) trace) := by
  refine ⟨fun root hroot => exists_plan_words hroot, fun words settings hread => ?_⟩
  rw [run_of_read hread, run_of_read (read_plan_json hread)]
  constructor
  · intro hall
    obtain ⟨overview, ⟨entries, lines, htold, hlines⟩, hextend, -⟩ := Overview.exists_told hall
    obtain ⟨hjson, htext⟩ := showPlan_of_complete hextend
    rw [hlines] at htext
    exact ⟨_, entries, lines, _, htold, hjson, htext⟩
  · rintro ⟨unwalkable, hmem, hfails⟩
    rcases Overview.walkable_or_first world settings.root settings.directories with
      hall | ⟨before, dir, after, refusal, hsplit, hbefore, hdir⟩
    · exact absurd (hall unwalkable hmem) hfails
    · obtain ⟨overview, ⟨entries, lines, htold, hlines⟩, hextend, hrefusal⟩ :=
        Overview.exists_told hbefore
      have hcomplete : Overview.ofSettings world { settings with directories := before } =
          (overview, none) :=
        (Overview.extend_congr_directories before before {}).trans hextend
      have hobstacle : Overview.ofSettings world settings =
          (overview, some ⟨dir, .access refusal.path refusal.cause⟩) := by
        rw [Overview.ofSettings, hsplit]
        exact hrefusal dir after refusal hdir
      obtain ⟨hjson, htext⟩ := showPlan_of_complete hcomplete
      obtain ⟨trace, htrace, hjsonFails, htextFails⟩ := showPlan_of_obstacle hobstacle
      rw [hlines] at htext htextFails
      exact ⟨before, dir, after, refusal, hsplit, hbefore, hdir, _, entries, lines, _, trace,
        htold, hjson, htext, htrace, hjsonFails, htextFails⟩

/-- An overview of two directories, one of which shares its tests with the other. -/
def surveyWords : List String := ["/corpus", "test", "test/twice"]

/-- An overview whose second directory does not exist. -/
def brokenWords : List String := ["/corpus", "-e", "es6id", "test/twice", "test/gone", "test"]

def brokenSettings : Settings :=
  { Settings.standard with
    root := "/corpus", edition := .es6, directories := ["test/twice", "test/gone", "test"] }

theorem plan_forms_agree_survey :
    (∃ value entries lines totals, Overview.Told value entries lines totals ∧
      run Suite.survey.world ("plan" :: "--json" :: surveyWords) =
        .success (value.pretty ++ "\n") ∧
      run Suite.survey.world ("plan" :: surveyWords) =
        .success (String.join lines ++ "\n" ++ totals.line .es5)) ∧
    ∃ lines trace, run Suite.survey.world ("plan" :: "--json" :: brokenWords) =
        .failure "" trace ∧
      run Suite.survey.world ("plan" :: brokenWords) = .failure (String.join lines) trace := by
  obtain ⟨-, hforms⟩ := plan_forms_agree Suite.survey.world
  have hread : Request.read ("plan" :: surveyWords) = .ok (.plan Suite.survey.settings false) := rfl
  have hbroken : Request.read ("plan" :: brokenWords) = .ok (.plan brokenSettings false) := rfl
  obtain ⟨hprinted, -⟩ := hforms _ _ hread
  obtain ⟨-, hfails⟩ := hforms _ _ hbroken
  refine ⟨hprinted (by decide +kernel), ?_⟩
  obtain ⟨-, -, -, -, -, -, -, -, -, lines, -, trace, -, -, -, -, hjson, htext⟩ :=
    hfails (by decide +kernel)
  exact ⟨lines, trace, hjson, htext⟩

end CommandLine

end Conformance
