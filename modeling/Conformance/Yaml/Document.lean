import Conformance.Yaml.Node.Grammar
import Conformance.Yaml.Token.Lexer

/-!
# Documents

`Document.load` reads a text that holds one document at most. Anchors are numbered as they come:
a new anchor takes the number of names known before it, a name used again the number of names
known by then, and a number stands for the last node that was given it.
-/

namespace Conformance.Yaml

/-- Names and their numbers, in the order in which the names were first seen. -/
abbrev Names := List (String × Nat)

namespace Names

def bind (name : String) (names : Names) : Names :=
  if (names.lookup name).isSome then
    names.map fun (known, n) => (known, if known = name then names.length else n)
  else names ++ [(name, names.length)]

end Names

def Properties.number (names : Names) (p : Properties String) : Properties Nat × Names :=
  match p.anchor with
  | none => ({ tag := p.tag }, names)
  | some name => ({ anchor := some names.length, tag := p.tag }, names.bind name)

namespace Node

mutual

/-- Numbers for the names of a node, and the names known after it. -/
def number : Names → Node String → Except Fault (Node Nat × Names)
  | names, .alias name =>
    match names.lookup name with
    | some n => .ok (.alias n, names)
    | none => .error (.unknownAnchor name)
  | names, .scalar p style text =>
    let (p, names) := p.number names
    .ok (.scalar p style text, names)
  | names, .sequence p items => do
    let (p, names) := p.number names
    let (items, names) ← numberItems names items
    pure (.sequence p items, names)
  | names, .mapping p entries => do
    let (p, names) := p.number names
    let (entries, names) ← numberEntries names entries
    pure (.mapping p entries, names)

def numberItems : Names → List (Node String) → Except Fault (List (Node Nat) × Names)
  | names, [] => .ok ([], names)
  | names, x :: rest => do
    let (x, names) ← number names x
    let (rest, names) ← numberItems names rest
    pure (x :: rest, names)

def numberEntries : Names → List (Node String × Node String) →
    Except Fault (List (Node Nat × Node Nat) × Names)
  | names, [] => .ok ([], names)
  | names, (k, v) :: rest => do
    let (k, names) ← number names k
    let (v, names) ← number names v
    let (rest, names) ← numberEntries names rest
    pure ((k, v) :: rest, names)

end

end Node

structure Document where
  root : Node Nat
  /-- The nodes that carry an anchor, the last one first. -/
  targets : List (Nat × Node Nat)
  /-- How often aliases may be followed while the document is read. -/
  aliasLimit : Nat

namespace Document

def ofRoot (root : Node Nat) : Document where
  root
  targets := root.anchored.reverse
  aliasLimit := 100 * root.events

def ofNode (root : Node String) : Except Fault Document := do
  let (root, _) ← root.number []
  pure (ofRoot root)

/-- The document that a text holds. -/
def load (text : List Char) : Except Fault Document := do
  ofNode (← Stream.read (← tokens text))

end Document

end Conformance.Yaml
