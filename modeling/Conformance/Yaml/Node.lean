import Conformance.Yaml.Token

/-!
# Nodes

A document is a tree of scalars, sequences and mappings whose leaves may also be aliases. Anchors
and aliases carry a label: a name as the text spells it, a number once they are resolved.
-/

namespace Conformance.Yaml

/-- The octets of a tag, its handle replaced by what it stands for. -/
abbrev TagName := List UInt8

namespace TagName

def ofText (text : String) : TagName :=
  text.toList.map fun c => c.toNat.toUInt8

/-- A tag of the language's own, such as `int`. -/
def core (name : String) : TagName :=
  ofText ("tag:yaml.org,2002:" ++ name)

def bang : UInt8 := 0x21

/-- Whether the tag is of the document's own making. -/
def isLocal (tag : TagName) : Bool :=
  tag.head? == some bang

/-- The name of a local tag, unless its octets are no text. One bang in front is dropped where
something follows it. -/
def localName? (tag : TagName) : Option String :=
  match tag with
  | [] => none
  | first :: rest =>
    if first = bang then
      String.fromUTF8? ⟨(if rest = [] then tag else rest).toArray⟩
    else none

end TagName

structure Properties (ρ : Type) where
  anchor : Option ρ := none
  tag : Option TagName := none

inductive Node (ρ : Type) where
  | alias (label : ρ)
  | scalar (properties : Properties ρ) (style : Style) (text : String)
  | sequence (properties : Properties ρ) (items : List (Node ρ))
  | mapping (properties : Properties ρ) (entries : List (Node ρ × Node ρ))

namespace Node

variable {ρ : Type}

/-- The node of a place where the text has none. -/
def missing : Node ρ := .scalar {} .plain ""

def properties : Node ρ → Properties ρ
  | .alias _ => {}
  | .scalar properties .. => properties
  | .sequence properties _ => properties
  | .mapping properties _ => properties

mutual

/-- How many scalars, aliases and ends of collections a node has. -/
def events : Node ρ → Nat
  | .alias _ => 1
  | .scalar .. => 1
  | .sequence _ items => 2 + itemEvents items
  | .mapping _ entries => 2 + entryEvents entries

def itemEvents : List (Node ρ) → Nat
  | [] => 0
  | x :: rest => events x + itemEvents rest

def entryEvents : List (Node ρ × Node ρ) → Nat
  | [] => 0
  | (k, v) :: rest => events k + events v + entryEvents rest

end

mutual

/-- The nodes that carry an anchor, with its label, in the order of the text. -/
def anchored : Node ρ → List (ρ × Node ρ)
  | .alias _ => []
  | .scalar p style text => (p.anchor.map fun a => (a, .scalar p style text)).toList
  | .sequence p items =>
    (p.anchor.map fun a => (a, .sequence p items)).toList ++ anchoredItems items
  | .mapping p entries =>
    (p.anchor.map fun a => (a, .mapping p entries)).toList ++ anchoredEntries entries

def anchoredItems : List (Node ρ) → List (ρ × Node ρ)
  | [] => []
  | x :: rest => anchored x ++ anchoredItems rest

def anchoredEntries : List (Node ρ × Node ρ) → List (ρ × Node ρ)
  | [] => []
  | (k, v) :: rest => anchored k ++ anchored v ++ anchoredEntries rest

end

end Node

end Conformance.Yaml
