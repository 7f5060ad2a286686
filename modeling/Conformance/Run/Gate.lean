/-!
# The gate over runs

Contexts are heavy, so a run takes a permit before it makes one and gives it back when it has
ended, however it ends. `ask`, `recheck` and `giveBack` are the steps that happen under the gate's
lock; `settle` lets every thread that has been woken look again.
-/

namespace Conformance

structure Gate where
  capacity : Nat
  /-- The counter that decides whether a permit is free. -/
  inUse : Nat
  /-- Permits that are out. -/
  held : Nat
  /-- Threads that sleep until they are woken. -/
  asleep : Nat
  /-- Threads that have been woken and have not looked again. -/
  woken : Nat
  deriving DecidableEq, Repr

namespace Gate

/-- The greatest number of permits that can be asked for. -/
def greatestCapacity : Nat := Nat.pow 2 64 - 1

/-- A gate with at least one permit. -/
def ofCapacity (capacity : Nat) : Gate where
  capacity := max capacity 1
  inUse := 0
  held := 0
  asleep := 0
  woken := 0

/-- A gate with so many permits for each processor. -/
def ofProcessors (processors multiplier : Nat) : Gate :=
  ofCapacity (min (processors * multiplier) greatestCapacity)

/-- A thread that takes a permit, or goes to sleep where none is free. -/
def ask (gate : Gate) : Gate :=
  if gate.inUse < gate.capacity then
    { gate with inUse := gate.inUse + 1, held := gate.held + 1 }
  else { gate with asleep := gate.asleep + 1 }

/-- A woken thread that looks again. -/
def recheck (gate : Gate) : Gate :=
  { gate with woken := gate.woken - 1 }.ask

/-- A sleeping thread, if there is one, that is woken. -/
def wakeOne (gate : Gate) : Gate :=
  if gate.asleep = 0 then gate
  else { gate with asleep := gate.asleep - 1, woken := gate.woken + 1 }

/-- A holder that gives its permit back and has one sleeper woken. -/
def giveBack (gate : Gate) : Gate :=
  { gate with inUse := gate.inUse - 1, held := gate.held - 1 }.wakeOne

def recheckTimes : Nat → Gate → Gate
  | 0, gate => gate
  | n + 1, gate => recheckTimes n gate.recheck

/-- Every thread that has been woken looks again. -/
def settle (gate : Gate) : Gate :=
  recheckTimes gate.woken gate

/-- Threads that want a permit and have none. -/
def waiting (gate : Gate) : Nat :=
  gate.asleep + gate.woken

/-- What can happen to a gate under its lock, whichever thread comes first. -/
inductive Step : Gate → Gate → Prop where
  | ask (gate : Gate) : Step gate gate.ask
  | recheck (gate : Gate) : 0 < gate.woken → Step gate gate.recheck
  /-- A sleeper wakes although nobody woke it. -/
  | stir (gate : Gate) : 0 < gate.asleep → Step gate gate.wakeOne
  | giveBack (gate : Gate) : 0 < gate.held → Step gate gate.giveBack

/-- The gates that can come after a gate. -/
inductive Reaches : Gate → Gate → Prop where
  | refl (gate : Gate) : Reaches gate gate
  | step {a b c : Gate} : Reaches a b → Step b c → Reaches a c

end Gate

end Conformance
