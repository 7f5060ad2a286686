import Conformance.Text.Quoted
import Conformance.Yaml.Scalar

/-!
# Values

The value of a node once its scalars are typed and its aliases followed. `same` is equality of
values, in which the order of a mapping does not count; `describe` is their text in messages.
-/

namespace Conformance.Yaml

inductive Value where
  | null
  | bool (b : Bool)
  | number (n : Number)
  | string (s : String)
  | sequence (items : List Value)
  | mapping (entries : List (Value × Value))
  | tagged (tag : String) (value : Value)

namespace Value

/-- The name of a tag without the bang it may begin with; a bang alone is a name. -/
def bareTag (tag : String) : List Char :=
  match tag.toList with
  | '!' :: rest => if rest = [] then ['!'] else rest
  | cs => cs

mutual

def same : Value → Value → Bool
  | .null, .null => true
  | .bool a, .bool b => a == b
  | .number a, .number b => a.same b
  | .string a, .string b => a == b
  | .sequence xs, .sequence ys => sameItems xs ys
  | .mapping xs, .mapping ys => xs.length == ys.length && sameEntries xs ys
  | .tagged s x, .tagged t y => bareTag s == bareTag t && same x y
  | _, _ => false

def sameItems : List Value → List Value → Bool
  | [], [] => true
  | x :: xs, y :: ys => same x y && sameItems xs ys
  | _, _ => false

/-- Whether each entry of the first list is among the second. -/
def sameEntries : List (Value × Value) → List (Value × Value) → Bool
  | [], _ => true
  | (k, v) :: rest, ys => ys.any (fun (k', v') => same k k' && same v v') && sameEntries rest ys

end

mutual

def describe : Value → String
  | .null => "Null"
  | .bool b => "Bool(" ++ toString b ++ ")"
  | .number n => "Number(" ++ n.text ++ ")"
  | .string s => "String(" ++ Text.quote s ++ ")"
  | .sequence items => "Sequence [" ++ describeItems items ++ "]"
  | .mapping entries => "Mapping \x7b" ++ describeEntries entries ++ "\x7d"
  | .tagged tag value =>
    "TaggedValue \x7b tag: !" ++ String.ofList (bareTag tag) ++ ", value: " ++ describe value ++
      " \x7d"

def describeItems : List Value → String
  | [] => ""
  | [x] => describe x
  | x :: rest => describe x ++ ", " ++ describeItems rest

def describeEntries : List (Value × Value) → String
  | [] => ""
  | [(k, v)] => describeKey k ++ ": " ++ describe v
  | (k, v) :: rest => describeKey k ++ ": " ++ describe v ++ ", " ++ describeEntries rest

/-- A key that is a scalar is shown bare. -/
def describeKey : Value → String
  | .bool b => toString b
  | .number n => n.text
  | .string s => Text.quote s
  | .null => "Null"
  | .sequence items => "Sequence [" ++ describeItems items ++ "]"
  | .mapping entries => "Mapping \x7b" ++ describeEntries entries ++ "\x7d"
  | .tagged tag value =>
    "TaggedValue \x7b tag: !" ++ String.ofList (bareTag tag) ++ ", value: " ++ describe value ++
      " \x7d"

end

end Value

end Conformance.Yaml
