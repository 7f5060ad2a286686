import Conformance.Text.Find

/-!
# The region of the front matter

Front matter stands inside a comment of the test, between a start mark and an end mark. Each is
the first of its kind in the whole text, and the end must come after the start with at least one
character between them.
-/

namespace Conformance.FrontMatter

def startMark : List Char := "/*---".toList

def endMark : List Char := "---*/".toList

inductive RegionFault where
  | startMissing
  | endMissing
  | endNotAfterStart
  deriving DecidableEq, Repr

def RegionFault.message : RegionFault → String
  | .startMissing => "missing metadata start marker `/*---`"
  | .endMissing => "missing metadata end marker `---*/`"
  | .endNotAfterStart => "metadata end marker does not follow the start marker"

/-- The characters between the marks. -/
def region (source : List Char) : Except RegionFault (List Char) :=
  match Text.find? startMark source with
  | none => .error .startMissing
  | some mark =>
    let start := mark + startMark.length
    match Text.find? endMark source with
    | none => .error .endMissing
    | some stop =>
      if stop ≤ start then .error .endNotAfterStart
      else .ok ((source.take stop).drop start)

end Conformance.FrontMatter
