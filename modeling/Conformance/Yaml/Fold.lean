import Conformance.Yaml.Source

/-!
# Folding

Between two words of a flow scalar stand blanks on one line, or line breaks with blanks around
them that do not count. A gap collects what was seen, `Gap.text` is what the scalar holds in its
place: one break folds to a space, and of several the first is dropped.
-/

namespace Conformance.Yaml

inductive Gap where
  /-- Blanks, the last one first. -/
  | blanks (seen : List Char)
  /-- The first break, unless it was escaped, and the further ones, the last one first. -/
  | breaks (first : Option Char) (further : List Char)
  deriving DecidableEq, Repr

namespace Gap

def none : Gap := .blanks []

def addBlank : Gap → Char → Gap
  | .blanks seen, c => .blanks (c :: seen)
  | .breaks first further, _ => .breaks first further

def addBreak : Gap → Char → Gap
  | .blanks _, c => .breaks (some c) []
  | .breaks first further, c => .breaks first (c :: further)

def hasBreak : Gap → Bool
  | .blanks _ => false
  | .breaks .. => true

def text : Gap → List Char
  | .blanks seen => seen.reverse
  | .breaks (some '\n') [] => [' ']
  | .breaks (some '\n') further => further.reverse
  | .breaks (some c) further => c :: further.reverse
  | .breaks .none further => further.reverse

@[simp] theorem text_none : none.text = [] := rfl

@[simp] theorem text_single : (none.addBreak '\n').text = [' '] := rfl

@[simp] theorem hasBreak_addBreak (gap : Gap) (c : Char) : (gap.addBreak c).hasBreak = true := by
  cases gap <;> rfl

end Gap

end Conformance.Yaml
