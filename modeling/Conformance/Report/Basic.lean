import Conformance.Report.Result
import Conformance.Sorting
import Conformance.Text.Find

/-!
# Reports

A report files each result under the chapter of its path and keeps count. Chapters stand in
ascending order, and the results of a chapter in the order in which they were added.
-/

namespace Conformance

/-- The chapter of a path: its first two names below `test/`, or the only one. -/
def chapterOf (path : String) : String :=
  let chars := path.toList
  let rest := (Text.dropMark? "test/".toList chars).getD chars
  match Text.fields '/' rest with
  | first :: second :: _ :: _ => String.ofList (first ++ '/' :: second)
  | first :: _ => if first = [] then "unknown" else String.ofList first
  | [] => "unknown"

/-- `passed` of `counted` as a percentage; of nothing it is zero. -/
def passRate (passed counted : Nat) : Binary64 :=
  if counted = 0 then .ofNat 0 else (Binary64.ofQuotient passed counted).mulNat 100

structure Chapter where
  name : String
  total : Nat
  passed : Nat
  failed : Nat
  tests : Array Result
  deriving Inhabited

namespace Chapter

def empty (name : String) : Chapter := ⟨name, 0, 0, 0, #[]⟩

def add (chapter : Chapter) (result : Result) : Chapter where
  name := chapter.name
  total := chapter.total + 1
  passed := chapter.passed + if result.grade = .pass then 1 else 0
  failed := chapter.failed + if result.grade.isFailing then 1 else 0
  tests := chapter.tests.push result

def passRate (chapter : Chapter) : Binary64 :=
  Conformance.passRate chapter.passed chapter.total

end Chapter

/-- Chapters by key, in ascending order. -/
abbrev Chapters := List (String × Chapter)

namespace Chapters

/-- Files a result under a key; a new key comes before the first greater one. -/
def add (key : String) (result : Result) : Chapters → Chapters
  | [] => [(key, (Chapter.empty key).add result)]
  | (known, chapter) :: rest =>
    if key = known then (known, chapter.add result) :: rest
    else if key < known then (key, (Chapter.empty key).add result) :: (known, chapter) :: rest
    else (known, chapter) :: add key result rest

def results (chapters : Chapters) : List Result :=
  chapters.flatMap fun (_, chapter) => chapter.tests.toList

end Chapters

structure Report where
  chapters : Chapters := []
  total : Nat := 0
  passed : Nat := 0
  failed : Nat := 0
  errors : Nat := 0
  skipped : Nat := 0
  /-- Tests that do not belong to the edition; they have no result. -/
  notApplicable : Nat := 0
  totalTime : Duration := .zero
  deriving Inhabited

namespace Report

def empty : Report := {}

def add (report : Report) (result : Result) : Report where
  chapters := Chapters.add (chapterOf result.path) result report.chapters
  total := report.total + 1
  passed := report.passed + if result.grade = .pass then 1 else 0
  failed := report.failed + if result.grade = .fail then 1 else 0
  errors := report.errors + if result.grade = .error then 1 else 0
  skipped := report.skipped + if result.grade = .skip then 1 else 0
  notApplicable := report.notApplicable
  totalTime := report.totalTime.add result.duration

def addAll (report : Report) (results : List Result) : Report :=
  results.foldl add report

def addNotApplicable (report : Report) (count : Nat) : Report :=
  { report with notApplicable := report.notApplicable + count }

/-- How many results count for the pass rate. -/
def runnable (report : Report) : Nat :=
  report.total - report.skipped

def passRate (report : Report) : Binary64 :=
  Conformance.passRate report.passed report.runnable

def isSuccess (report : Report) : Bool :=
  report.failed = 0 && report.errors = 0

/-- All results, chapter by chapter. -/
def results (report : Report) : List Result :=
  report.chapters.results

/-- The first result of that name. -/
def find? (report : Report) (name : String) : Option Result :=
  report.results.find? (·.name = name)

/-- The results that count against somebody, ascending by name. -/
def failing (report : Report) : List Result :=
  Sorting.sort (fun a b => a.name ≤ b.name) (report.results.filter (·.grade.isFailing))

end Report

end Conformance
