import Conformance.FrontMatter.Basic

/-!
# Variants

A test runs as it stands and once more as strict code, unless its flags ask for one of the two.
-/

namespace Conformance

inductive Variant where
  | nonStrict
  | strict
  deriving DecidableEq, Repr

namespace Variant

/-- The name in reports for machines. -/
def key : Variant → String
  | .nonStrict => "non_strict"
  | .strict => "strict"

/-- The name in text for readers. -/
def title : Variant → String
  | .nonStrict => "non-strict"
  | .strict => "strict"

/-- What tells a variant's run from that of the plain one. -/
def suffix : Variant → String
  | .nonStrict => ""
  | .strict => "strict mode"

/-- The name of a variant's run of the test at `path`. -/
def runName (path : String) : Variant → String
  | .nonStrict => path
  | .strict => path ++ "/" ++ suffix .strict

/-- What stands in front of the source of a strict run. -/
def strictDirective : String := "'use strict';\n"

/-- The source that a variant runs. -/
def sourceOf (source : String) : Variant → String
  | .nonStrict => source
  | .strict => strictDirective ++ source

end Variant

/-- The variants that front matter asks for. -/
def FrontMatter.variants (matter : FrontMatter) : List Variant :=
  let raw := matter.flags.contains .raw
  (if raw || !matter.flags.contains .onlyStrict then [.nonStrict] else []) ++
    (if !raw && !matter.flags.contains .noStrict then [.strict] else [])

end Conformance
