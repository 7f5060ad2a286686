import Conformance.Yaml.Document
import Conformance.Yaml.Value

/-!
# Reading a document for a shape

A reader asks nodes for texts, lists, values and records, and fails with the place and the cause
where a node has another shape. Aliases are followed where they are met; how often is counted, and
the depth of values is limited, so that reading ends on every document.
-/

namespace Conformance.Yaml

/-- Where a node stands in its document. -/
inductive Path where
  | root
  | entry (parent : Path) (key : String)
  /-- The value of a key that is no scalar. -/
  | unnamed (parent : Path)
  | item (parent : Path) (index : Nat)
  deriving DecidableEq, Repr

def Path.text : Path → String
  | .root => "."
  | .entry .root key => key
  | .entry parent key => parent.text ++ "." ++ key
  | .unnamed .root => "?"
  | .unnamed parent => parent.text ++ ".?"
  | .item parent index => parent.text ++ "[" ++ toString index ++ "]"

/-- What stands where something else is expected. -/
inductive Found where
  | scalar (d : Denotation)
  | sequence
  | mapping
  deriving DecidableEq, Repr

def Found.text : Found → String
  | .scalar .null => "unit value"
  | .scalar (.bool b) => "boolean `" ++ toString b ++ "`"
  | .scalar (.number (.integer n)) => "integer `" ++ toString n ++ "`"
  | .scalar (.number (.real x)) => "floating point `" ++ x.write .message ++ "`"
  | .scalar (.wide n) =>
    "integer `" ++ toString n ++ (if n < 0 then "` as i128" else "` as u128")
  | .scalar (.text s) => "string " ++ Text.quote s
  | .sequence => "sequence"
  | .mapping => "map"

inductive Misfit where
  | wrongKind (found : Found) (expected : String)
  | wrongTag (text : String) (demand : Denotation.Demand)
  | duplicateField (name : String)
  | duplicateKey (key : Value)
  | notScalar (value : Value)

def Misfit.message : Misfit → String
  | .wrongKind found expected => "invalid type: " ++ found.text ++ ", expected " ++ expected
  | .wrongTag text demand =>
    "invalid value: string " ++ Text.quote text ++ ", expected " ++ demand.text
  | .duplicateField name => "duplicate field `" ++ name ++ "`"
  | .duplicateKey .null => "duplicate entry with null key"
  | .duplicateKey (.bool b) => "duplicate entry with key `" ++ toString b ++ "`"
  | .duplicateKey (.number n) => "duplicate entry with key " ++ n.text
  | .duplicateKey (.string s) => "duplicate entry with key " ++ Text.quote s
  | .duplicateKey _ => "duplicate entry in YAML map"
  | .notScalar value => "expected a scalar, found " ++ value.describe

inductive ShapeFault where
  | misfit (path : Path) (cause : Misfit)
  | tooDeep
  | tooManyAliases

def ShapeFault.message : ShapeFault → String
  | .misfit .root cause => cause.message
  | .misfit path cause => path.text ++ ": " ++ cause.message
  | .tooDeep => "recursion limit exceeded"
  | .tooManyAliases => "repetition limit exceeded"

/-- A reader; its state is the number of aliases followed so far. -/
abbrev Reading := StateT Nat (Except ShapeFault)

/-- How deep collections may lie in one another. -/
def depthLimit : Nat := 128

namespace Reading

variable (doc : Document)

def misfit {α : Type} (path : Path) (cause : Misfit) : Reading α :=
  throw (.misfit path cause)

/-- The node that an alias stands for; other nodes stand for themselves. -/
def follow : Node Nat → Reading (Node Nat)
  | .alias n => do
    let followed := (← get) + 1
    set followed
    if doc.aliasLimit < followed then throw .tooManyAliases
    else match doc.targets.lookup n with
      | some node => pure node
      | none => throw .tooManyAliases
  | node => pure node

/-- The fault of a node that is not what is expected at its place. -/
def wrongKind {α : Type} (path : Path) (node : Node Nat) (expected : String) : Reading α :=
  match node with
  | .scalar p style text =>
    match Denotation.ofScalar p.tag style text with
    | .ok d => misfit path (.wrongKind (.scalar d) expected)
    | .error demand => misfit path (.wrongTag text demand)
  | .mapping .. => misfit path (.wrongKind .mapping expected)
  | _ => misfit path (.wrongKind .sequence expected)

/-- The text of a scalar, whatever it denotes. -/
def text (path : Path) (expected : String) (node : Node Nat) : Reading String := do
  match ← follow doc node with
  | .scalar _ _ text => pure text
  | node => wrongKind path node expected

/-- The place of an entry's value. -/
def valuePath (path : Path) : Node Nat → Path
  | .scalar _ _ text => .entry path text
  | _ => .unnamed path

/-- Nothing where a scalar is null or empty; `outer` is the place that a wrong tag is blamed on. -/
def optional (outer : Path) (node : Node Nat) : Reading (Option (Node Nat)) := do
  match ← follow doc node with
  | .scalar p .plain text =>
    let isNull := Denotation.isNull text.toList
    match p.tag with
    | some tag =>
      if tag ≠ .core "null" then pure (some (.scalar p .plain text))
      else if isNull then pure none
      else misfit outer (.wrongTag text .null)
    | none => pure (if text = "" ∨ isNull then none else some (.scalar p .plain text))
  | node => pure (some node)

/-- Whether a node is what the text has where nothing is written, a tag apart. -/
def isEmpty : Node Nat → Bool
  | .scalar _ .plain text => text == ""
  | _ => false

/-- The texts of a sequence of scalars; null is the empty sequence. -/
def texts (outer path : Path) (node : Node Nat) : Reading (List String) := do
  match ← optional doc outer node with
  | none => pure []
  | some (.sequence _ items) =>
    items.zipIdx.mapM fun (x, i) => text doc (.item path i) "a string" x
  | some node => if isEmpty node then pure [] else wrongKind path node "a sequence"

/-- The value of a scalar. -/
def scalarValue (path : Path) : Denotation → Reading Value
  | .null => pure .null
  | .bool b => pure (.bool b)
  | .number n => pure (.number n)
  | .text s => pure (.string s)
  | .wide n => misfit path (.wrongKind (.scalar (.wide n)) "any YAML value")

/-- The entries of a mapping as `readKey` and `readValue` read them; no key may come twice, and one
that does is named as it stood first. -/
def entries (path : Path) (readKey : Node Nat → Reading Value)
    (readValue : Path → Node Nat → Reading Value) :
    List (Value × Value) → List (Node Nat × Node Nat) → Reading (List (Value × Value))
  | seen, [] => pure seen.reverse
  | seen, (k, v) :: rest => do
    let key ← readKey k
    match seen.find? fun (known, _) => known.same key with
    | some (known, _) => misfit path (.duplicateKey known)
    | none =>
      let value ← readValue (valuePath path k) v
      entries path readKey readValue ((key, value) :: seen) rest

/-- The value of a node, with collections at most `depth` deep. -/
def value : (depth : Nat) → Path → Node Nat → Reading Value
  | depth, path, node => do
    let node ← follow doc node
    let tag := (node.properties.tag.bind TagName.localName?)
    let plain ← match node with
      | .alias _ => throw .tooManyAliases
      | .scalar p style text =>
        match Denotation.ofScalar (if tag.isSome then none else p.tag) style text with
        | .ok d => scalarValue path d
        | .error demand => misfit path (.wrongTag text demand)
      | .sequence _ items =>
        match depth with
        | 0 => throw .tooDeep
        | depth + 1 => do
          pure (.sequence (← items.zipIdx.mapM fun (x, i) => value depth (.item path i) x))
      | .mapping _ es =>
        match depth with
        | 0 => throw .tooDeep
        | depth + 1 => do
          pure (.mapping (← entries path (value depth path) (value depth) [] es))
    pure (match tag with
      | some tag => .tagged tag plain
      | none => plain)

/-- The text of a scalar as its value prints; null has none. -/
def scalar (depth : Nat) (outer path : Path) (node : Node Nat) : Reading (Option String) := do
  match ← value doc depth path node with
  | .null => pure none
  | .string s => pure (some s)
  | .number n => pure (some n.text)
  | .bool b => pure (some (toString b))
  | other => misfit outer (.notScalar other)

/-- Goes through the entries of a record. Those of `known` names, each at most once, change the
record as `assign` says; others are passed over, whatever they hold. -/
def fields {σ : Type} (known : List String) (assign : String → Path → Node Nat → σ → Reading σ)
    (path : Path) : (seen : List String) → σ → List (Node Nat × Node Nat) → Reading σ
  | _, record, [] => pure record
  | seen, record, (k, v) :: rest => do
    let name ← text doc path "field identifier" k
    if known.contains name then
      if seen.contains name then misfit path (.duplicateField name)
      else
        let record ← assign name (valuePath path k) v record
        fields known assign path (name :: seen) record rest
    else fields known assign path seen record rest

/-- A record that a mapping or an empty node stands for. -/
def record {σ : Type} (known : List String) (assign : String → Path → Node Nat → σ → Reading σ)
    (path : Path) (expected : String) (start : σ) (node : Node Nat) : Reading σ := do
  match ← follow doc node with
  | .mapping _ es => fields doc known assign path [] start es
  | node => if isEmpty node then pure start else wrongKind path node expected

end Reading

end Conformance.Yaml
