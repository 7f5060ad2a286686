import Conformance.FrontMatter.Json
import Conformance.Report.Basic

/-!
# Reports as JSON

The counts, the chapters and the failing results; the fields of each object are in ascending
order.
-/

namespace Conformance

def Result.toJson (result : Result) : Json :=
  .object [
    ("diagnostics", .optionalText result.diagnostics),
    ("duration_ms", .natural result.duration.milliseconds),
    ("error", .optionalText result.error),
    ("expected_error", .ofOption Negative.toJson result.expected),
    ("name", .string result.name),
    ("outcome", .string result.grade.text),
    ("path", .string result.path),
    ("variant", .optionalText (result.variant.map Variant.key))]

def Chapter.toJson (chapter : Chapter) : Json :=
  .object [
    ("failed", .natural chapter.failed),
    ("pass_rate", .real chapter.passRate),
    ("passed", .natural chapter.passed),
    ("total", .natural chapter.total)]

def Report.toJson (report : Report) : Json :=
  .object [
    ("chapters", .object (report.chapters.map fun (key, chapter) => (key, chapter.toJson))),
    ("errors", .natural report.errors),
    ("failed", .natural report.failed),
    ("failing", .array (report.failing.map Result.toJson)),
    ("not_applicable", .natural report.notApplicable),
    ("pass_rate", .real report.passRate),
    ("passed", .natural report.passed),
    ("skipped", .natural report.skipped),
    ("total", .natural report.total),
    ("total_time_ms", .natural report.totalTime.milliseconds)]

end Conformance
