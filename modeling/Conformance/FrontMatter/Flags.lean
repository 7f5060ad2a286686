/-!
# Flags

The modifiers of a test, and sets of them. A set keeps one bit for each flag; `names` lists its
members in the order of `Flag.all`, whatever the order in which they were given.
-/

namespace Conformance

inductive Flag where
  | onlyStrict
  | noStrict
  | raw
  | moduleCode
  | asynchronous
  | generated
  | canBlockIsFalse
  | canBlockIsTrue
  | nonDeterministic
  deriving DecidableEq, Repr

namespace Flag

def all : List Flag :=
  [onlyStrict, noStrict, raw, moduleCode, asynchronous, generated, canBlockIsFalse,
    canBlockIsTrue, nonDeterministic]

def name : Flag → String
  | .onlyStrict => "onlyStrict"
  | .noStrict => "noStrict"
  | .raw => "raw"
  | .moduleCode => "module"
  | .asynchronous => "async"
  | .generated => "generated"
  | .canBlockIsFalse => "CanBlockIsFalse"
  | .canBlockIsTrue => "CanBlockIsTrue"
  | .nonDeterministic => "non-deterministic"

/-- The place of a flag's bit in a set. -/
def index : Flag → Nat
  | .onlyStrict => 0
  | .noStrict => 1
  | .raw => 2
  | .moduleCode => 3
  | .asynchronous => 4
  | .generated => 5
  | .canBlockIsFalse => 6
  | .canBlockIsTrue => 7
  | .nonDeterministic => 8

def ofName? (name : String) : Option Flag :=
  all.find? (·.name = name)

end Flag

/-- A set of flags, one bit for each. -/
structure Flags where
  bits : BitVec 16
  deriving DecidableEq, Repr

namespace Flags

def empty : Flags := ⟨0⟩

def single (flag : Flag) : Flags := ⟨BitVec.twoPow 16 flag.index⟩

def union (a b : Flags) : Flags := ⟨a.bits ||| b.bits⟩

def contains (flags : Flags) (flag : Flag) : Bool :=
  flags.bits.getLsbD flag.index

/-- The set of the flags that are named; names that are no flag's are passed over. -/
def ofNames (names : List String) : Flags :=
  (names.filterMap Flag.ofName?).foldl (fun flags flag => flags.union (single flag)) empty

def names (flags : Flags) : List String :=
  (Flag.all.filter flags.contains).map Flag.name

end Flags

end Conformance
