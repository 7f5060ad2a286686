import Conformance.Files.Entry
import Conformance.FrontMatter.Reading

/-!
# Problems

A problem is a fault of the corpus or of what the engine hands out, never a failure of the engine
to conform. `message` is its wording, `origin?` the fault that lies under it.
-/

namespace Conformance

inductive FormatCause where
  | region (cause : FrontMatter.RegionFault)
  | document (cause : Yaml.Fault)
  | shape (cause : Yaml.ShapeFault)
  /-- A cause that is known by its description alone. -/
  | described (text : String)

def FormatCause.message : FormatCause → String
  | .region cause => cause.message
  | .document cause => "invalid metadata block: " ++ cause.message
  | .shape cause => "invalid metadata block: " ++ cause.message
  | .described text => text

inductive ConfigCause where
  | phase (cause : FrontMatter.PhaseFault)
  /-- A cause that is known by its description alone. -/
  | described (text : String)

def ConfigCause.message : ConfigCause → String
  | .phase cause => cause.message
  | .described text => text

inductive Problem where
  /-- The front matter is missing or malformed. -/
  | format (cause : FormatCause)
  /-- The front matter contradicts itself. -/
  | config (cause : ConfigCause)
  /-- A failure of none of the known shapes. -/
  | unexpectedFailureShape (text : String)
  /-- A file or directory that cannot be read. -/
  | access (path : String) (cause : Files.AccessFault)

namespace Problem

def message : Problem → String
  | .format cause => "FormatError: " ++ cause.message
  | .config cause => "ConfigError: " ++ cause.message
  | .unexpectedFailureShape text => "UnexpectedFailureShape: " ++ text
  | .access path cause => "IOError: " ++ path ++ ": " ++ cause.message

/-- The wording of the fault that lies under a problem, if one does. -/
def origin? : Problem → Option String
  | .access _ cause => some cause.message
  | _ => none

def ofReadFault : FrontMatter.ReadFault → Problem
  | .region cause => .format (.region cause)
  | .document cause => .format (.document cause)
  | .shape cause => .format (.shape cause)
  | .phase cause => .config (.phase cause)

end Problem

/-- The front matter of a test's source. -/
def FrontMatter.extract (source : String) : Except Problem FrontMatter :=
  (FrontMatter.read source.toList).mapError Problem.ofReadFault

end Conformance
