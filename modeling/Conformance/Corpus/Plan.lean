import Conformance.Corpus.Settings
import Conformance.Files.World
import Conformance.FrontMatter.Variant
import Conformance.Problem

/-!
# Plans

What is to be done with one test: nothing, for a reason, or one run for each of its variants. The
first gate that holds a test back decides: the skip list, the reading of its front matter, the
edition, the features it uses.
-/

namespace Conformance

/-- One run of one test. -/
structure TestRun where
  path : String
  variant : Variant
  source : String
  matter : FrontMatter
  deriving DecidableEq

def TestRun.name (run : TestRun) : String :=
  run.variant.runName run.path

inductive SkipCause where
  | listed (reason : String)
  | unsupported (feature : String)
  deriving DecidableEq, Repr

def SkipCause.message : SkipCause → String
  | .listed reason => "Test is on skip list (" ++ reason ++ ")"
  | .unsupported feature => "unsupported feature: " ++ feature

inductive Plan where
  | skipped (cause : SkipCause)
  /-- The test does not belong to the edition. -/
  | notApplicable
  | invalid (problem : Problem)
  | run (runs : List TestRun)

namespace Plan

def runs : Plan → List TestRun
  | .run runs => runs
  | _ => []

/-- The runs of a test whose front matter is known. -/
def ofFrontMatter (path source : String) (matter : FrontMatter) : List TestRun :=
  matter.variants.map fun variant =>
    { path, variant, source := variant.sourceOf source, matter }

/-- The plan for a test that has been read. -/
def ofSource (settings : Settings) (path source : String) : Plan :=
  match settings.skipList.reason? path with
  | some reason => .skipped (.listed reason)
  | none =>
    match FrontMatter.extract source with
    | .error problem => .invalid problem
    | .ok matter =>
      match matter.editionId settings.edition with
      | none => .notApplicable
      | some _ =>
        match matter.features.find? (settings.unsupported.contains ·) with
        | some feature => .skipped (.unsupported feature)
        | none => .run (ofFrontMatter path source matter)

/-- The plan for a test in a file tree; a listed test is not opened. -/
def ofFile (world : Files.World) (settings : Settings) (path : String) : Plan :=
  match settings.skipList.reason? path with
  | some reason => .skipped (.listed reason)
  | none =>
    let full := Files.join settings.root path
    match world.read full with
    | .error cause => .invalid (.access full cause)
    | .ok source => ofSource settings path source

/-- The plans for those paths that the settings admit. -/
def ofPaths (world : Files.World) (settings : Settings) (paths : List String) :
    List (String × Plan) :=
  (paths.filter settings.admits).map fun path => (path, ofFile world settings path)

end Plan

end Conformance
