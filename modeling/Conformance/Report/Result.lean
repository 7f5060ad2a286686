import Conformance.FrontMatter.Variant
import Conformance.Report.Duration
import Conformance.Run.Verdict

/-!
# Results

What came of one run, or of a file or directory that led to none.
-/

namespace Conformance

inductive Grade where
  | pass
  /-- The engine does not conform. -/
  | fail
  /-- The test could not be run or judged. -/
  | error
  | skip
  deriving DecidableEq, Repr

namespace Grade

def text : Grade → String
  | .pass => "PASS"
  | .fail => "FAIL"
  | .error => "ERROR"
  | .skip => "SKIP"

def ofVerdict : Verdict → Grade
  | .pass => .pass
  | .fail .. => .fail
  | .fatal .. => .error

/-- Whether a grade counts against the engine or the corpus. -/
def isFailing (grade : Grade) : Bool :=
  grade = .fail || grade = .error

end Grade

structure Result where
  name : String
  path : String
  /-- A result of a whole file or directory has no variant. -/
  variant : Option Variant
  description : String
  grade : Grade
  duration : Duration
  error : Option String
  diagnostics : Option String
  expected : Option Negative
  deriving DecidableEq, Repr

/-- The result of a whole file or directory. -/
def Result.ofFile (path : String) (grade : Grade) (error : Option String) : Result where
  name := path
  path
  variant := none
  description := ""
  grade
  duration := .zero
  error
  diagnostics := none
  expected := none

end Conformance
