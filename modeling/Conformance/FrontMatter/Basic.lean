import Conformance.FrontMatter.Edition
import Conformance.FrontMatter.Flags
import Conformance.FrontMatter.Phase

/-!
# Front matter

What a test declares about itself: how it is to be run, with which harness files, and how it is
expected to fail, if it is.
-/

namespace Conformance

/-- The failure that a test must end in. -/
structure Negative where
  phase : Phase
  errorType : String
  deriving DecidableEq, Repr

structure FrontMatter where
  description : String := ""
  info : Option String := none
  negative : Option Negative := none
  includes : List String := []
  flags : Flags := .empty
  features : List String := []
  locale : List String := []
  es5id : Option String := none
  es6id : Option String := none
  esid : Option String := none
  deriving DecidableEq, Repr

namespace FrontMatter

/-- The id under which an edition lists the test; an empty id is none. -/
def editionId (matter : FrontMatter) (edition : Edition) : Option String :=
  let id := match edition with
    | .es5 => matter.es5id
    | .es6 => matter.es6id
    | .current => matter.esid
  id.filter (· ≠ "")

end FrontMatter

end Conformance
