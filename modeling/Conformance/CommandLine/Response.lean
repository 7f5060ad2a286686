import Conformance.CommandLine.Arguments
import Conformance.Corpus.Overview
import Conformance.FrontMatter.Json
import Conformance.Json.Printer

/-!
# Responses

What a command line is answered: a text on each of the two outputs and an exit code. An error is
shown with the causes that lie under it.
-/

namespace Conformance.CommandLine

structure Response where
  exitCode : Nat
  output : String
  errors : String
  deriving DecidableEq, Repr

/-- An error and the causes under it, the nearest first. -/
structure Trace where
  message : String
  causes : List String
  deriving DecidableEq, Repr

namespace Trace

/-- A text whose first line begins with `first` and whose other lines begin with `rest`. -/
def indented (first rest text : String) : String :=
  first ++ ("\n" ++ rest).intercalate (text.splitOn "\n")

/-- One of several causes, behind its number. -/
def numbered (n : Nat) (cause : String) : String :=
  indented (String.ofList (padLeft 5 ' ' (Nat.toDigits 10 n)) ++ ": ") "       " cause

def causesText : List String → String
  | [] => ""
  | [cause] => "\n\nCaused by:\n" ++ indented "    " "    " cause
  | causes =>
    "\n\nCaused by:" ++
      String.join (causes.zipIdx.map fun (cause, n) => "\n" ++ numbered n cause)

def text (trace : Trace) : String :=
  "Error: " ++ trace.message ++ causesText trace.causes ++ "\n"

/-- A problem and what lies under it. -/
def ofProblem (problem : Problem) : Trace where
  message := problem.message
  causes := problem.origin?.toList

/-- What was being done when a problem came up. -/
def within (context : String) (trace : Trace) : Trace where
  message := context
  causes := trace.message :: trace.causes

end Trace

namespace Response

def success (output : String) : Response := ⟨0, output, ""⟩

def failure (output : String) (trace : Trace) : Response := ⟨1, output, trace.text⟩

def misuse (message : String) : Response := ⟨2, "", "error: " ++ message ++ "\n"⟩

end Response

def versionText : String := "test262-harness 0.1.0\n"

def helpText : String :=
  "test262 conformance harness\n\n" ++
  "Usage: test262-harness [-v]... <COMMAND>\n\n" ++
  "Commands:\n" ++
  "  meta <FILE>            Print the parsed frontmatter of a test file as JSON\n" ++
  "  plan <ROOT> [DIRS]...  Show which files a suite run would execute, and how\n" ++
  "  help [COMMAND]         Print this message\n\n" ++
  "Options:\n" ++
  "  -e, --edition <EDITION>  Edition id a file must carry (es5id, es6id, esid)\n" ++
  "  -f, --filter <FILTER>    Only plan files whose path contains this pattern\n" ++
  "      --json               Print the plan as JSON\n" ++
  "  -v, --verbose...         Verbose output\n" ++
  "  -h, --help               Print help\n" ++
  "  -V, --version            Print version\n"

def Halt.response : Halt → Response
  | .help => .success helpText
  | .version => .success versionText
  | .missingCommand => .misuse "a command is required"
  | .unknownCommand word => .misuse ("unrecognized command '" ++ word ++ "'")
  | .unexpectedArgument word => .misuse ("unexpected argument '" ++ word ++ "' found")
  | .missingValue => .misuse "a value is required but none was supplied"
  | .unexpectedValue value => .misuse ("unexpected value '" ++ value ++ "' found")
  | .invalidValue value => .misuse ("invalid value '" ++ value ++ "'")
  | .repeatedOption => .misuse "an option cannot be used multiple times"
  | .missingArgument => .misuse "a required argument was not provided"

/-- Prints the front matter of a file. -/
def showFrontMatter (world : Files.World) (file : String) : Response :=
  let matter := do
    let source ← (world.read file).mapError (Problem.access file)
    FrontMatter.extract source
  match matter with
  | .ok matter => .success (matter.toJson.pretty ++ "\n")
  | .error problem => .failure "" (.ofProblem problem)

/-- Prints an overview. Lines are printed as they come, JSON only once it is complete. -/
def showPlan (world : Files.World) (settings : Settings) (json : Bool) : Response :=
  match Overview.ofSettings world settings with
  | (overview, none) =>
    .success (if json then (overview.toJson settings).pretty ++ "\n" else overview.text settings)
  | (overview, some obstacle) =>
    .failure (if json then "" else overview.lines)
      ((Trace.ofProblem obstacle.problem).within ("walking " ++ obstacle.directory))

def respond (world : Files.World) : Request → Response
  | .frontMatter file => showFrontMatter world file
  | .plan settings json => showPlan world settings json

/-- The response to a command line. -/
def run (world : Files.World) (arguments : List String) : Response :=
  match Request.read arguments with
  | .ok request => respond world request
  | .error halt => halt.response

end Conformance.CommandLine
