import Conformance.Corpus.SkipList
import Conformance.Files.Path
import Conformance.FrontMatter.Edition

/-!
# Settings

What is to be run, and how: where the corpus lies, which of its directories and tests count, and
how many runs go on at a time.
-/

namespace Conformance

structure Settings where
  /-- The directory of the corpus. -/
  root : String
  /-- The directories to go through, as seen from the root. -/
  directories : List String
  edition : Edition
  skipList : SkipList
  /-- Tests that use one of these features are skipped. -/
  unsupported : List String
  /-- Only tests with this text in their path count. -/
  pattern : Option String
  /-- Whether runs go on side by side. -/
  parallel : Bool
  /-- How many runs may go on for each processor. -/
  multiplier : Nat
  /-- Whether to leave out the whole corpus. -/
  short : Bool
  deriving Inhabited

namespace Settings

def standardRoot : String := "testdata/test262"

def standardMultiplier : Nat := 2

def standardDirectories : List String := [
  "test/language/expressions",
  "test/language/arguments-object",
  "test/language/asi",
  "test/language/directive-prologue",
  "test/language/function-code",
  "test/language/eval-code",
  "test/language/global-code",
  "test/language/identifier-resolution",
  "test/language/identifiers",
  "test/language/punctuators",
  "test/language/reserved-words",
  "test/language/source-text",
  "test/language/statements",
  "test/language/types",
  "test/language/white-space",
  "test/built-ins",
  "test/annexB/built-ins/String/prototype/substr"]

def standard : Settings where
  root := standardRoot
  directories := standardDirectories
  edition := .es5
  skipList := .standard
  unsupported := []
  pattern := none
  parallel := true
  multiplier := standardMultiplier
  short := false

/-- The settings that the environment asks for: the variable for the root counts unless it is
empty, the one for short runs unless it is empty or means no. -/
def ofEnvironment (root? short? : Option String) : Settings :=
  { standard with
    root := match root? with
      | some root => if root = "" then standardRoot else root
      | none => standardRoot
    short := match short? with
      | some text => ¬ (text = "" ∨ text = "0" ∨ text = "false")
      | none => false }

/-- The directory of the files that are loaded before a test. -/
def harnessDirectory (settings : Settings) : String :=
  Files.join settings.root "harness"

/-- Whether a path has the pattern in it. -/
def admits (settings : Settings) (path : String) : Bool :=
  match settings.pattern with
  | none => true
  | some pattern => Text.contains path.toList pattern.toList

end Settings

end Conformance
