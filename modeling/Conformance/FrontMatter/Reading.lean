import Conformance.FrontMatter.Basic
import Conformance.FrontMatter.Region
import Conformance.Yaml.Shape

/-!
# Reading front matter

The region of a test's source is one document, a record of ten fields. `Declared` holds the fields
as they stand there, and `Declared.resolve` makes front matter of them.
-/

namespace Conformance.FrontMatter

open Yaml

/-- The fields of a negative expectation, as written. -/
structure DeclaredNegative where
  phase : Option String := none
  errorType : Option String := none
  deriving DecidableEq, Repr

/-- The fields of front matter, as written. -/
structure Declared where
  description : Option String := none
  info : Option String := none
  negative : Option DeclaredNegative := none
  includes : List String := []
  flags : List String := []
  features : List String := []
  locale : List String := []
  es5id : Option String := none
  es6id : Option String := none
  esid : Option String := none
  deriving DecidableEq, Repr

inductive PhaseFault where
  | missing
  | unknown (name : String)
  deriving DecidableEq, Repr

def PhaseFault.message : PhaseFault → String
  | .missing => "negative type is set, but phase isn't"
  | .unknown name => "unknown negative phase '" ++ name ++ "'"

/-- The expectation that is declared; without a type of error there is none. -/
def DeclaredNegative.resolve (declared : DeclaredNegative) :
    Except PhaseFault (Option Negative) :=
  let errorType := declared.errorType.getD ""
  let phase := declared.phase.getD ""
  if errorType = "" then .ok none
  else if phase = "" then .error .missing
  else match Phase.ofName? phase with
    | none => .error (.unknown phase)
    | some phase => .ok (some { phase, errorType })

def Declared.resolve (declared : Declared) : Except PhaseFault FrontMatter := do
  let negative ← match declared.negative with
    | none => pure none
    | some negative => negative.resolve
  pure {
    description := declared.description.getD ""
    info := declared.info
    negative
    includes := declared.includes
    flags := Flags.ofNames declared.flags
    features := declared.features
    locale := declared.locale
    es5id := declared.es5id
    es6id := declared.es6id
    esid := declared.esid }

def negativeFields : List String := ["phase", "type"]

def knownFields : List String :=
  ["description", "info", "negative", "includes", "flags", "features", "locale", "es5id", "es6id",
    "esid"]

section

variable (doc : Document)

def negativePath : Path := .entry .root "negative"

/-- Reads one field of a negative expectation, which lies inside two records. -/
def assignNegative (name : String) (path : Path) (node : Node Nat) (declared : DeclaredNegative) :
    Reading DeclaredNegative := do
  let text ← Reading.scalar doc (depthLimit - 2) negativePath path node
  pure (if name = "phase" then { declared with phase := text }
    else { declared with errorType := text })

def readNegative (node : Node Nat) : Reading (Option DeclaredNegative) := do
  match ← Reading.optional doc .root node with
  | none => pure none
  | some node =>
    some <$> Reading.record doc negativeFields (assignNegative doc) negativePath
      "struct RawNegative" {} node

/-- Reads one field of front matter, which lies inside one record. -/
def assign (name : String) (path : Path) (node : Node Nat) (declared : Declared) :
    Reading Declared := do
  let scalar := Reading.scalar doc (depthLimit - 1) .root path node
  let texts := Reading.texts doc .root path node
  match name with
  | "description" => pure { declared with description := ← scalar }
  | "info" => pure { declared with info := ← scalar }
  | "negative" => pure { declared with negative := ← readNegative doc node }
  | "includes" => pure { declared with includes := ← texts }
  | "flags" => pure { declared with flags := ← texts }
  | "features" => pure { declared with features := ← texts }
  | "locale" => pure { declared with locale := ← texts }
  | "es5id" => pure { declared with es5id := ← scalar }
  | "es6id" => pure { declared with es6id := ← scalar }
  | "esid" => pure { declared with esid := ← scalar }
  | _ => pure declared

end

/-- The fields that a document declares. -/
def Declared.ofDocument (doc : Document) : Except ShapeFault Declared :=
  (Reading.record doc knownFields (assign doc) .root "struct RawMetadata" {} doc.root).run' 0

/-- Why a source has no front matter. -/
inductive ReadFault where
  | region (cause : RegionFault)
  | document (cause : Fault)
  | shape (cause : ShapeFault)
  | phase (cause : PhaseFault)

/-- What a document declares, resolved. -/
def ofDocument (doc : Document) : Except ReadFault FrontMatter := do
  let declared ← (Declared.ofDocument doc).mapError .shape
  declared.resolve.mapError .phase

/-- The front matter of a test's source. -/
def read (source : List Char) : Except ReadFault FrontMatter := do
  let text ← (region source).mapError .region
  ofDocument (← (Document.load text).mapError .document)

end Conformance.FrontMatter
