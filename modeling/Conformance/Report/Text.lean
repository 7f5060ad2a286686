import Conformance.Report.Basic

/-!
# Reports as text

A summary for readers, a protocol for test tools, and a table in markup.
-/

namespace Conformance

def padRight (width : Nat) (text : String) : String :=
  text ++ String.ofList (List.replicate (width - text.length) ' ')

def padTo (width : Nat) (text : String) : String :=
  String.ofList (padLeft width ' ' text.toList)

namespace Report

/-- A percentage to one decimal place. -/
def rateText (rate : Binary64) : String := rate.fixed 1

def summaryRow (chapter total passed failed rate : String) : String :=
  padRight 40 chapter ++ " " ++ padTo 6 total ++ " " ++ padTo 6 passed ++ " " ++
    padTo 6 failed ++ " " ++ rate ++ "\n"

def chapterRow (chapter : Chapter) : String :=
  summaryRow chapter.name (toString chapter.total) (toString chapter.passed)
    (toString chapter.failed) (padTo 6 (rateText chapter.passRate) ++ "%")

def failingText (failing : List Result) : String :=
  if failing.isEmpty then ""
  else "\nFailing:\n" ++
    String.join (failing.map fun result => "  " ++ result.grade.text ++ " " ++ result.name ++ "\n")

def summary (report : Report) : String :=
  "\n=== Test262 Conformance Report ===\n\n" ++
  "Total: " ++ toString report.total ++ " | Pass: " ++ toString report.passed ++
    " | Fail: " ++ toString report.failed ++ " | Error: " ++ toString report.errors ++
    " | Skip: " ++ toString report.skipped ++
    " | Not applicable: " ++ toString report.notApplicable ++ "\n" ++
  "Pass Rate: " ++ rateText report.passRate ++ "% (" ++ toString report.passed ++ "/" ++
    toString report.runnable ++ ")\n" ++
  "Time: " ++ report.totalTime.text ++ "\n\n" ++
  "Per-Chapter Results:\n" ++
  summaryRow "Chapter" "Total" "Pass" "Fail" (padTo 7 "Rate") ++
  String.ofList (List.replicate 71 '-') ++ "\n" ++
  String.join (report.chapters.map fun (_, chapter) => chapterRow chapter) ++
  failingText report.failing

/-- The lines of one result, which is the `n`-th. -/
def tapLines (n : Nat) (result : Result) : String :=
  let line := toString n ++ " - " ++ result.name
  match result.grade with
  | .pass => "ok " ++ line ++ "\n"
  | .skip => "ok " ++ line ++ " # SKIP " ++ result.error.getD "skipped" ++ "\n"
  | _ => "not ok " ++ line ++ "\n" ++
    (match result.error with
      | some error => "  ---\n  message: " ++ error ++ "\n  ---\n"
      | none => "")

/-- The report in the Test Anything Protocol. -/
def tap (report : Report) : String :=
  let results := report.results
  "TAP version 13\n1.." ++ toString results.length ++ "\n" ++
    String.join ((results.zipIdx 1).map fun (result, n) => tapLines n result)

def badge (rate : Binary64) : String :=
  if rate.atLeast 90 then "🟢" else if rate.atLeast 70 then "🟡" else "🔴"

def markdownRow (chapter : Chapter) : String :=
  "| " ++ chapter.name ++ " | " ++ toString chapter.total ++ " | " ++ toString chapter.passed ++
    " | " ++ toString chapter.failed ++ " | " ++ rateText chapter.passRate ++ "% |\n"

/-- The report as a table in Markdown. -/
def markdown (report : Report) : String :=
  "## " ++ badge report.passRate ++ " Test262 Conformance: " ++ rateText report.passRate ++
    "%\n\n" ++
  "**" ++ toString report.passed ++ " passed** / " ++ toString report.runnable ++
    " runnable (" ++ toString report.skipped ++ " skipped, " ++ toString report.errors ++
    " errors)\n\n" ++
  "| Chapter | Total | Pass | Fail | Rate |\n" ++
  "|---------|------:|-----:|-----:|-----:|\n" ++
  String.join (report.chapters.map fun (_, chapter) => markdownRow chapter)

end Report

end Conformance
