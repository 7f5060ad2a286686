/-!
# Phases

A test fails early, while the harness files load and its source compiles, or at run time.
-/

namespace Conformance

inductive Phase where
  | early
  | runtime
  deriving DecidableEq, Repr

namespace Phase

def name : Phase → String
  | .early => "early"
  | .runtime => "runtime"

/-- The phase of that very name. -/
def named? (name : String) : Option Phase :=
  [early, runtime].find? (·.name = name)

/-- The phase that front matter means: what fails while parsing or while modules are resolved
fails before the body runs. -/
def ofName? (name : String) : Option Phase :=
  if name = "parse" ∨ name = "resolution" then some early else named? name

end Phase

end Conformance
