import Conformance.Corpus.Plan
import Conformance.Files.Listing
import Conformance.Report.Basic
import Conformance.Run.Result

/-!
# Suites

A suite goes through directories or looks at one file, plans what it finds, and performs the
tasks one after the other. Whatever happens to one of them ends up in its own result, but for a run
that aborts the process: `run` says what the tasks come to, and `exit` what is left of it when the
process is gone.
-/

namespace Conformance

/-- What planning leaves to be done. -/
inductive Task where
  /-- A result that is known without a run. -/
  | note (result : Result)
  /-- A test that does not belong to the edition. -/
  | leaveOut
  | run (spec : TestRun)

/-- What the plan for a path leaves to be done. -/
def Plan.tasks (path : String) : Plan → List Task
  | .skipped cause => [.note (.ofFile path .skip (some cause.message))]
  | .notApplicable => [.leaveOut]
  | .invalid problem =>
    [.note (.ofFile path .error (some ("Could not parse " ++ path ++ ": " ++ problem.message)))]
  | .run runs => runs.map .run

/-- What has been done so far. -/
structure Progress where
  results : Array Result := #[]
  notApplicable : Nat := 0
  calls : Array Call := #[]

namespace Progress

def report (progress : Progress) : Report :=
  (Report.empty.addAll progress.results.toList).addNotApplicable progress.notApplicable

end Progress

/-- An engine, and what it is to run. -/
structure Suite where
  engine : Engine
  world : Files.World
  settings : Settings

/-- What came of a whole corpus. -/
inductive CorpusRun where
  | skipped (reason : String)
  | completed (progress : Progress)

/-- How the process of a whole corpus ended. -/
inductive Exit where
  /-- A run aborted the process, and no report is left. -/
  | aborted
  | returned (run : CorpusRun)

namespace Suite

variable (suite : Suite)

def planOf (path : String) : Plan :=
  Plan.ofFile suite.world suite.settings path

/-- The tasks of one file, whether the settings admit its path or not. -/
def fileTasks (path : String) : List Task :=
  (suite.planOf path).tasks path

/-- The result of a directory that cannot be gone through. -/
def directoryResult (dir : String) (refusal : Files.Refusal) : Result :=
  let problem := Problem.access refusal.path refusal.cause
  .ofFile dir .error (some problem.message)

def directoryTasks (dir : String) : List Task :=
  match suite.world.tests suite.settings.root dir with
  | .error refusal => [.note (directoryResult dir refusal)]
  | .ok files => (files.filter suite.settings.admits).flatMap suite.fileTasks

def corpusTasks : List Task :=
  suite.settings.directories.flatMap suite.directoryTasks

def perform (progress : Progress) : Task → Progress
  | .note result => { progress with results := progress.results.push result }
  | .leaveOut => { progress with notApplicable := progress.notApplicable + 1 }
  | .run spec =>
    let ran := suite.engine.perform suite.world suite.settings.harnessDirectory spec
    { progress with
      results := progress.results.push ran.result
      calls := progress.calls ++ ran.calls }

def performAll (tasks : List Task) : Progress :=
  tasks.foldl suite.perform {}

/-- Whether a task aborts the process. -/
def aborts : Task → Bool
  | .note _ => false
  | .leaveOut => false
  | .run spec =>
    (suite.engine.perform suite.world suite.settings.harnessDirectory spec).aborted

/-- Where a corpus can be had. -/
def repository : String := "https://github.com/tc39/test262"

/-- Why the corpus cannot be run at all, if it cannot. -/
def obstacle? : Option String :=
  if suite.settings.short then some "short mode"
  else match suite.world.find suite.settings.root with
    | .ok _ => none
    | .error cause =>
      some ("If you want to run tc39 tests, download them from " ++ repository ++
        " and put into " ++ suite.settings.root ++ ". (" ++ cause.message ++ ")")

/-- Runs all directories. -/
def run : CorpusRun :=
  match suite.obstacle? with
  | some reason => .skipped reason
  | none => .completed (suite.performAll suite.corpusTasks)

/-- How a process ends that runs all directories: with the report, unless a run aborts it. -/
def exit : Exit :=
  if suite.obstacle? = none ∧ suite.corpusTasks.any suite.aborts then .aborted
  else .returned suite.run

/-- Runs one file. -/
def runFile (path : String) : Progress :=
  suite.performAll (suite.fileTasks path)

end Suite

/-- How many contexts were made, how many are left, and how many there were at most. -/
structure Usage where
  created : Nat := 0
  live : Nat := 0
  peak : Nat := 0
  deriving DecidableEq, Repr

namespace Usage

def observe (usage : Usage) : Call → Usage
  | .create =>
    let live := usage.live + 1
    { created := usage.created + 1, live, peak := max usage.peak live }
  | .drop => { usage with live := usage.live - 1 }
  | _ => usage

/-- The usage after more calls, with the peak among them. -/
def after (usage : Usage) (calls : Array Call) : Usage :=
  calls.foldl observe { usage with peak := usage.live }

end Usage

end Conformance
