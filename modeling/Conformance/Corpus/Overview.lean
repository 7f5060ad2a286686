import Conformance.Corpus.Plan
import Conformance.Files.Listing
import Conformance.Json.Basic

/-!
# Overviews

What a run of the corpus would do, file by file, as lines for readers or as one JSON value. The
directories are gone through in order, up to the first that cannot be read.
-/

namespace Conformance

/-- The plans for the tests of a directory. -/
def Plan.ofDirectory (world : Files.World) (settings : Settings) (dir : String) :
    Except Problem (List (String × Plan)) :=
  match world.tests settings.root dir with
  | .error refusal => .error (.access refusal.path refusal.cause)
  | .ok paths => .ok (ofPaths world settings paths)

/-- How many files there are of each kind, and how many runs. -/
structure Totals where
  files : Nat := 0
  runs : Nat := 0
  skipped : Nat := 0
  notApplicable : Nat := 0
  invalid : Nat := 0
  deriving DecidableEq, Repr

namespace Totals

def add (totals : Totals) (plan : Plan) : Totals :=
  let totals := { totals with files := totals.files + 1 }
  match plan with
  | .run runs => { totals with runs := totals.runs + runs.length }
  | .skipped _ => { totals with skipped := totals.skipped + 1 }
  | .notApplicable => { totals with notApplicable := totals.notApplicable + 1 }
  | .invalid _ => { totals with invalid := totals.invalid + 1 }

def toJson (totals : Totals) : Json :=
  .object [
    ("files", .natural totals.files),
    ("invalid", .natural totals.invalid),
    ("not_applicable", .natural totals.notApplicable),
    ("runs", .natural totals.runs),
    ("skipped", .natural totals.skipped)]

def line (totals : Totals) (edition : Edition) : String :=
  toString totals.files ++ " files: " ++ toString totals.runs ++ " runs, " ++
    toString totals.skipped ++ " skipped, " ++ toString totals.notApplicable ++
    " not applicable (" ++ edition.key ++ "), " ++ toString totals.invalid ++ " invalid\n"

end Totals

structure Overview where
  entries : Array (String × Plan) := #[]
  totals : Totals := {}

namespace Overview

def add (overview : Overview) (entry : String × Plan) : Overview where
  entries := overview.entries.push entry
  totals := overview.totals.add entry.2

/-- The first directory that cannot be read, and why. -/
structure Obstacle where
  directory : String
  problem : Problem

/-- Goes through directories; the overview holds those before an obstacle. -/
def extend (world : Files.World) (settings : Settings) (overview : Overview) :
    List String → Overview × Option Obstacle
  | [] => (overview, none)
  | dir :: rest =>
    match Plan.ofDirectory world settings dir with
    | .error problem => (overview, some ⟨dir, problem⟩)
    | .ok entries => extend world settings (entries.foldl add overview) rest

def ofSettings (world : Files.World) (settings : Settings) : Overview × Option Obstacle :=
  extend world settings {} settings.directories

def titles (runs : List TestRun) : List String :=
  runs.map (·.variant.title)

/-- The line of a file; one that does not belong to the edition has none. -/
def entryLine (path : String) : Plan → String
  | .run runs => "RUN     " ++ path ++ " [" ++ ", ".intercalate (titles runs) ++ "]\n"
  | .skipped cause => "SKIP    " ++ path ++ " (" ++ cause.message ++ ")\n"
  | .notApplicable => ""
  | .invalid problem => "INVALID " ++ path ++ ": " ++ problem.message ++ "\n"

def entryJson (path : String) : Plan → Json
  | .run runs =>
    .object [("path", .string path), ("plan", .string "run"), ("variants", .texts (titles runs))]
  | .skipped cause =>
    .object [("path", .string path), ("plan", .string "skip"), ("reason", .string cause.message)]
  | .notApplicable => .object [("path", .string path), ("plan", .string "not_applicable")]
  | .invalid problem =>
    .object [("error", .string problem.message), ("path", .string path),
      ("plan", .string "invalid")]

def lines (overview : Overview) : String :=
  String.join (overview.entries.toList.map fun (path, plan) => entryLine path plan)

/-- The overview for readers. -/
def text (settings : Settings) (overview : Overview) : String :=
  overview.lines ++ "\n" ++ overview.totals.line settings.edition

def toJson (settings : Settings) (overview : Overview) : Json :=
  .object [
    ("edition", .string settings.edition.key),
    ("files", .array (overview.entries.toList.map fun (path, plan) => entryJson path plan)),
    ("root", .string settings.root),
    ("summary", overview.totals.toJson)]

end Overview

end Conformance
