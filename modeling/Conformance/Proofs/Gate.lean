import Conformance.Run.Gate

/-!
# What holds of a gate

`Gate.Sound` ties the counter of a gate to the permits that are out, and bounds those who sleep: as
long as a thread sleeps, every permit is out or on its way to a thread that has been woken. Each
step under the lock keeps it.
-/

namespace Conformance.Gate

variable {gate : Gate}

structure Sound (gate : Gate) : Prop where
  inUse_eq : gate.inUse = gate.held
  held_le : gate.held ≤ gate.capacity
  /-- No wake-up is lost. -/
  capacity_le : 0 < gate.asleep → gate.capacity ≤ gate.inUse + gate.woken

theorem sound_ofCapacity (capacity : Nat) : (ofCapacity capacity).Sound where
  inUse_eq := rfl
  held_le := Nat.zero_le _
  capacity_le := by simp [ofCapacity]

theorem ask_of_lt (h : gate.inUse < gate.capacity) :
    gate.ask = { gate with inUse := gate.inUse + 1, held := gate.held + 1 } := if_pos h

theorem ask_of_le (h : gate.capacity ≤ gate.inUse) :
    gate.ask = { gate with asleep := gate.asleep + 1 } := if_neg (Nat.not_lt.2 h)

theorem recheck_of_lt (h : gate.inUse < gate.capacity) :
    gate.recheck = { gate with
      inUse := gate.inUse + 1, held := gate.held + 1, woken := gate.woken - 1 } := if_pos h

theorem recheck_of_le (h : gate.capacity ≤ gate.inUse) :
    gate.recheck = { gate with asleep := gate.asleep + 1, woken := gate.woken - 1 } :=
  if_neg (Nat.not_lt.2 h)

theorem wakeOne_of_pos (h : 0 < gate.asleep) :
    gate.wakeOne = { gate with asleep := gate.asleep - 1, woken := gate.woken + 1 } :=
  if_neg (Nat.pos_iff_ne_zero.1 h)

theorem giveBack_of_zero (h : gate.asleep = 0) :
    gate.giveBack = { gate with inUse := gate.inUse - 1, held := gate.held - 1 } := if_pos h

@[simp] theorem capacity_ask : gate.ask.capacity = gate.capacity := by
  unfold ask
  split <;> rfl

@[simp] theorem capacity_recheck : gate.recheck.capacity = gate.capacity := by
  simp [recheck]

@[simp] theorem capacity_wakeOne : gate.wakeOne.capacity = gate.capacity := by
  unfold wakeOne
  split <;> rfl

@[simp] theorem capacity_giveBack : gate.giveBack.capacity = gate.capacity := by
  simp [giveBack]

@[simp] theorem inUse_wakeOne : gate.wakeOne.inUse = gate.inUse := by
  unfold wakeOne
  split <;> rfl

@[simp] theorem held_wakeOne : gate.wakeOne.held = gate.held := by
  unfold wakeOne
  split <;> rfl

@[simp] theorem waiting_wakeOne : gate.wakeOne.waiting = gate.waiting := by
  unfold wakeOne waiting
  split
  · rfl
  · dsimp only
    omega

@[simp] theorem inUse_giveBack : gate.giveBack.inUse = gate.inUse - 1 := by
  simp [giveBack]

@[simp] theorem held_giveBack : gate.giveBack.held = gate.held - 1 := by
  simp [giveBack]

@[simp] theorem waiting_giveBack : gate.giveBack.waiting = gate.waiting := by
  rw [giveBack, waiting_wakeOne]
  rfl

namespace Sound

theorem ask (h : gate.Sound) : gate.ask.Sound := by
  obtain ⟨hinUse, hheld, hcapacity⟩ := h
  rcases Nat.lt_or_ge gate.inUse gate.capacity with hfree | hfull
  · rw [ask_of_lt hfree]
    constructor <;> dsimp only <;> omega
  · rw [ask_of_le hfull]
    constructor <;> dsimp only <;> omega

theorem recheck (h : gate.Sound) (hwoken : 0 < gate.woken) : gate.recheck.Sound := by
  obtain ⟨hinUse, hheld, hcapacity⟩ := h
  rcases Nat.lt_or_ge gate.inUse gate.capacity with hfree | hfull
  · rw [recheck_of_lt hfree]
    constructor <;> dsimp only <;> omega
  · rw [recheck_of_le hfull]
    constructor <;> dsimp only <;> omega

theorem wakeOne (h : gate.Sound) : gate.wakeOne.Sound := by
  obtain ⟨hinUse, hheld, hcapacity⟩ := h
  unfold Gate.wakeOne
  split
  · constructor <;> assumption
  · constructor <;> dsimp only <;> omega

/-- The permit that is given back is one that a woken thread can have, if any thread sleeps. -/
theorem giveBack (h : gate.Sound) : gate.giveBack.Sound := by
  obtain ⟨hinUse, hheld, hcapacity⟩ := h
  unfold Gate.giveBack Gate.wakeOne
  dsimp only
  split
  · constructor <;> dsimp only <;> omega
  · constructor <;> dsimp only <;> omega

theorem step {next : Gate} (h : gate.Sound) (hstep : Step gate next) : next.Sound := by
  cases hstep with
  | ask => exact h.ask
  | recheck hwoken => exact h.recheck hwoken
  | stir => exact h.wakeOne
  | giveBack => exact h.giveBack

theorem reaches {later : Gate} (h : gate.Sound) (hreaches : Reaches gate later) : later.Sound := by
  induction hreaches with
  | refl => exact h
  | step _ hstep ih => exact ih.step hstep

end Sound

theorem capacity_step {next : Gate} (hstep : Step gate next) : next.capacity = gate.capacity := by
  cases hstep <;> simp

theorem capacity_reaches {later : Gate} (hreaches : Reaches gate later) :
    later.capacity = gate.capacity := by
  induction hreaches with
  | refl => rfl
  | step _ hstep ih => exact (capacity_step hstep).trans ih

end Conformance.Gate
