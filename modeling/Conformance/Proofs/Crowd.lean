import Mathlib.Algebra.Order.BigOperators.Group.Finset
import Mathlib.Data.Fintype.Basic
import Conformance.Proofs.Gate

/-!
# Threads at a gate

Any number of threads ask a gate for permits, sleep where none is free, are woken, with a reason or
without, and give their permits back or hand them to each other. Each step happens under the gate's
lock, and `Crowd.Step` says which can come next. Whoever comes first, the gate's counter is the
number of permits that the threads have, and no wake-up is lost: `permits_counted`.
-/

namespace Conformance

/-- Where a thread stands that may have asked for a permit. -/
inductive Stance where
  /-- It does not wait. -/
  | awake
  | asleep
  /-- It has been woken and has not looked again. -/
  | woken
  deriving DecidableEq, Repr

structure Visitor where
  stance : Stance
  permits : Nat
  deriving DecidableEq, Repr

/-- A gate and the threads that come to it. -/
structure Crowd (Thread : Type) where
  gate : Gate
  visitors : Thread → Visitor

namespace Crowd

variable {Thread : Type}

/-- A gate to which no thread has come yet. -/
def start (Thread : Type) (capacity : Nat) : Crowd Thread where
  gate := .ofCapacity capacity
  visitors _ := ⟨.awake, 0⟩

section Steps

variable [DecidableEq Thread]

inductive Step : Crowd Thread → Crowd Thread → Prop where
  /-- A thread asks while a permit is free. -/
  | enter {c : Crowd Thread} {i : Thread} {n : Nat} :
    c.visitors i = ⟨.awake, n⟩ → c.gate.inUse < c.gate.capacity →
    Step c ⟨c.gate.ask, Function.update c.visitors i ⟨.awake, n + 1⟩⟩
  /-- A thread asks while none is free. -/
  | block {c : Crowd Thread} {i : Thread} {n : Nat} :
    c.visitors i = ⟨.awake, n⟩ → c.gate.capacity ≤ c.gate.inUse →
    Step c ⟨c.gate.ask, Function.update c.visitors i ⟨.asleep, n⟩⟩
  /-- A woken thread finds a permit. -/
  | enterWoken {c : Crowd Thread} {i : Thread} {n : Nat} :
    c.visitors i = ⟨.woken, n⟩ → c.gate.inUse < c.gate.capacity →
    Step c ⟨c.gate.recheck, Function.update c.visitors i ⟨.awake, n + 1⟩⟩
  /-- A woken thread finds none. -/
  | blockAgain {c : Crowd Thread} {i : Thread} {n : Nat} :
    c.visitors i = ⟨.woken, n⟩ → c.gate.capacity ≤ c.gate.inUse →
    Step c ⟨c.gate.recheck, Function.update c.visitors i ⟨.asleep, n⟩⟩
  /-- A thread wakes although nobody woke it. -/
  | stir {c : Crowd Thread} {i : Thread} {n : Nat} :
    c.visitors i = ⟨.asleep, n⟩ →
    Step c ⟨c.gate.wakeOne, Function.update c.visitors i ⟨.woken, n⟩⟩
  /-- A permit comes back while no thread sleeps. -/
  | giveBack {c : Crowd Thread} {i : Thread} {n : Nat} :
    c.visitors i = ⟨.awake, n + 1⟩ → (∀ j, (c.visitors j).stance ≠ .asleep) →
    Step c ⟨c.gate.giveBack, Function.update c.visitors i ⟨.awake, n⟩⟩
  /-- A permit comes back, and some thread that sleeps is woken. -/
  | giveBackAndWake {c : Crowd Thread} {i j : Thread} {n m : Nat} :
    c.visitors i = ⟨.awake, n + 1⟩ → c.visitors j = ⟨.asleep, m⟩ →
    Step c ⟨c.gate.giveBack,
      Function.update (Function.update c.visitors i ⟨.awake, n⟩) j ⟨.woken, m⟩⟩
  /-- A permit goes from one thread to another. -/
  | handOver {c : Crowd Thread} {i j : Thread} {n m : Nat} {a b : Stance} :
    i ≠ j → c.visitors i = ⟨a, n + 1⟩ → c.visitors j = ⟨b, m⟩ →
    Step c ⟨c.gate, Function.update (Function.update c.visitors i ⟨a, n⟩) j ⟨b, m + 1⟩⟩

/-- The crowds that can come after a crowd. -/
inductive Reaches : Crowd Thread → Crowd Thread → Prop where
  | refl (c : Crowd Thread) : Reaches c c
  | step {a b c : Crowd Thread} : Reaches a b → Step b c → Reaches a c

end Steps

variable [Fintype Thread]

/-- What the threads have together, each counted by `weight`. -/
def total (weight : Visitor → Nat) (visitors : Thread → Visitor) : Nat :=
  ∑ i, weight (visitors i)

theorem le_total (weight : Visitor → Nat) (visitors : Thread → Visitor) (i : Thread) :
    weight (visitors i) ≤ total weight visitors :=
  Finset.single_le_sum (fun j _ => Nat.zero_le (weight (visitors j))) (Finset.mem_univ i)

theorem total_update [DecidableEq Thread] (weight : Visitor → Nat) (visitors : Thread → Visitor)
    (i : Thread) (visitor : Visitor) :
    total weight (Function.update visitors i visitor) + weight (visitors i) =
      total weight visitors + weight visitor := by
  have hbefore := Finset.add_sum_erase Finset.univ (fun j => weight (visitors j))
    (Finset.mem_univ i)
  have hafter := Finset.add_sum_erase Finset.univ
    (fun j => weight (Function.update visitors i visitor j)) (Finset.mem_univ i)
  have hothers : ∑ j ∈ Finset.univ.erase i, weight (Function.update visitors i visitor j) =
      ∑ j ∈ Finset.univ.erase i, weight (visitors j) := by
    apply Finset.sum_congr rfl
    intro j hj
    rw [Function.update_of_ne (Finset.ne_of_mem_erase hj)]
  simp only [hothers, Function.update_self] at hafter
  simp only [total]
  omega

/-- The permits that are out. -/
def permits (c : Crowd Thread) : Nat :=
  total Visitor.permits c.visitors

/-- One for a thread of that stance. -/
def standing (stance : Stance) (visitor : Visitor) : Nat :=
  if visitor.stance = stance then 1 else 0

/-- How many threads are of a stance. -/
def number (stance : Stance) (c : Crowd Thread) : Nat :=
  total (standing stance) c.visitors

theorem number_pos {c : Crowd Thread} {stance : Stance} {i : Thread}
    (h : (c.visitors i).stance = stance) : 0 < c.number stance := by
  have hle := le_total (standing stance) c.visitors i
  rw [standing, if_pos h] at hle
  exact hle

theorem number_eq_zero {c : Crowd Thread} {stance : Stance}
    (h : ∀ i, (c.visitors i).stance ≠ stance) : c.number stance = 0 := by
  unfold number total
  exact Finset.sum_eq_zero fun i _ => if_neg (h i)

/-- The gate knows how many permits the threads have, how many of them sleep and how many have been
woken. -/
structure Tallied (c : Crowd Thread) : Prop where
  held_eq : c.gate.held = c.permits
  asleep_eq : c.gate.asleep = c.number .asleep
  woken_eq : c.gate.woken = c.number .woken

theorem tallied_start (capacity : Nat) : (start Thread capacity).Tallied where
  held_eq := by simp [start, Gate.ofCapacity, permits, total]
  asleep_eq := by simp [start, Gate.ofCapacity, number, total, standing]
  woken_eq := by simp [start, Gate.ofCapacity, number, total, standing]

namespace Tallied

variable {c d : Crowd Thread}

theorem held_pos (h : c.Tallied) {i : Thread} (hi : 0 < (c.visitors i).permits) :
    0 < c.gate.held := by
  rw [h.held_eq]
  exact Nat.lt_of_lt_of_le hi (le_total Visitor.permits c.visitors i)

variable [DecidableEq Thread]

theorem update (i : Thread) (visitor : Visitor) {gate : Gate}
    (hheld : gate.held + (c.visitors i).permits = c.permits + visitor.permits)
    (hasleep : gate.asleep + standing .asleep (c.visitors i) =
      c.number .asleep + standing .asleep visitor)
    (hwoken : gate.woken + standing .woken (c.visitors i) =
      c.number .woken + standing .woken visitor) :
    Tallied ⟨gate, Function.update c.visitors i visitor⟩ where
  held_eq := by
    have htotal := total_update Visitor.permits c.visitors i visitor
    simp only [permits] at hheld ⊢
    omega
  asleep_eq := by
    have htotal := total_update (standing .asleep) c.visitors i visitor
    simp only [number] at hasleep ⊢
    omega
  woken_eq := by
    have htotal := total_update (standing .woken) c.visitors i visitor
    simp only [number] at hwoken ⊢
    omega

/-- A sleeper is woken. -/
theorem wake (h : c.Tallied) {i : Thread} {n : Nat} (hi : c.visitors i = ⟨.asleep, n⟩) :
    Tallied ⟨c.gate.wakeOne, Function.update c.visitors i ⟨.woken, n⟩⟩ := by
  obtain ⟨hheld, hasleep, hwoken⟩ := h
  have hpos : 0 < c.number .asleep := number_pos (i := i) (by rw [hi])
  rw [Gate.wakeOne_of_pos (hasleep ▸ hpos)]
  apply update <;> simp [hi, standing] <;> omega

theorem giveUp (h : c.Tallied) {i : Thread} {n : Nat} (hi : c.visitors i = ⟨.awake, n + 1⟩) :
    Tallied ⟨{ c.gate with inUse := c.gate.inUse - 1, held := c.gate.held - 1 },
      Function.update c.visitors i ⟨.awake, n⟩⟩ := by
  obtain ⟨hheld, hasleep, hwoken⟩ := h
  have hpermits : (c.visitors i).permits ≤ c.permits := le_total Visitor.permits c.visitors i
  apply update <;> simp [hi, standing] at hpermits ⊢ <;> omega

theorem handOver (h : c.Tallied) {i j : Thread} {n m : Nat} {a b : Stance} (hne : i ≠ j)
    (hi : c.visitors i = ⟨a, n + 1⟩) (hj : c.visitors j = ⟨b, m⟩) :
    Tallied ⟨c.gate, Function.update (Function.update c.visitors i ⟨a, n⟩) j ⟨b, m + 1⟩⟩ := by
  obtain ⟨hheld, hasleep, hwoken⟩ := h
  have hj' : Function.update c.visitors i ⟨a, n⟩ j = ⟨b, m⟩ := by
    rw [Function.update_of_ne hne.symm, hj]
  have htotal := fun weight => total_update weight c.visitors i ⟨a, n⟩
  simp only [hi] at htotal
  apply update (c := ⟨c.gate, Function.update c.visitors i ⟨a, n⟩⟩)
  · have hpermits := htotal Visitor.permits
    simp only [permits, hj'] at hheld hpermits ⊢
    omega
  · have hstanding := htotal (standing .asleep)
    simp only [number, standing, hj'] at hasleep hstanding ⊢
    omega
  · have hstanding := htotal (standing .woken)
    simp only [number, standing, hj'] at hwoken hstanding ⊢
    omega

theorem step (h : c.Tallied) (hstep : Step c d) : d.Tallied := by
  have ⟨hheld, hasleep, hwoken⟩ := h
  cases hstep with
  | enter hi hlt =>
    rw [Gate.ask_of_lt hlt]
    apply update <;> simp [hi, standing] <;> omega
  | block hi hle =>
    rw [Gate.ask_of_le hle]
    apply update <;> simp [hi, standing] <;> omega
  | enterWoken hi hlt =>
    rw [Gate.recheck_of_lt hlt]
    have hpos : 0 < c.number .woken := number_pos (by rw [hi])
    apply update <;> simp [hi, standing] <;> omega
  | blockAgain hi hle =>
    rw [Gate.recheck_of_le hle]
    have hpos : 0 < c.number .woken := number_pos (by rw [hi])
    apply update <;> simp [hi, standing] <;> omega
  | stir hi => exact h.wake hi
  | giveBack hi hnone =>
    have hzero : c.gate.asleep = 0 := hasleep.trans (number_eq_zero hnone)
    rw [Gate.giveBack_of_zero hzero]
    exact h.giveUp hi
  | @giveBackAndWake i j n m hi hj =>
    have hne : j ≠ i := by
      rintro rfl
      simp [hi] at hj
    exact (h.giveUp hi).wake ((Function.update_of_ne hne _ _).trans hj)
  | handOver hne hi hj => exact h.handOver hne hi hj

theorem reaches (h : c.Tallied) (hreaches : Reaches c d) : d.Tallied := by
  induction hreaches with
  | refl => exact h
  | step _ hstep ih => exact ih.step hstep

/-- Each step of the crowd is one of its gate, or passes the gate by. -/
theorem gate_step (h : c.Tallied) (hstep : Step c d) :
    d.gate = c.gate ∨ Gate.Step c.gate d.gate := by
  have ⟨hheld, hasleep, hwoken⟩ := h
  cases hstep with
  | enter hi hlt => exact .inr (.ask c.gate)
  | block hi hle => exact .inr (.ask c.gate)
  | enterWoken hi hlt => exact .inr (.recheck c.gate (hwoken ▸ number_pos (by rw [hi])))
  | blockAgain hi hle => exact .inr (.recheck c.gate (hwoken ▸ number_pos (by rw [hi])))
  | stir hi => exact .inr (.stir c.gate (hasleep ▸ number_pos (by rw [hi])))
  | @giveBack i n hi hnone =>
    have hpos : 0 < (c.visitors i).permits := by simp [hi]
    exact .inr (.giveBack c.gate (h.held_pos hpos))
  | @giveBackAndWake i j n m hi hj =>
    have hpos : 0 < (c.visitors i).permits := by simp [hi]
    exact .inr (.giveBack c.gate (h.held_pos hpos))
  | handOver => exact .inl rfl

theorem gate_reaches (h : c.Tallied) (hreaches : Reaches c d) : Gate.Reaches c.gate d.gate := by
  induction hreaches with
  | refl => exact .refl c.gate
  | step hreaches hstep ih =>
    rcases (h.reaches hreaches).gate_step hstep with hsame | hgate
    · rwa [hsame]
    · exact ih.step hgate

end Tallied

/-- Whatever number of threads there are and whichever of them comes first, in every crowd that a
gate of the capacity asked for, or of one, can come to: the counter is the number of permits that
are out, which the capacity bounds; a permit that comes back lowers it by one; as long as a thread
sleeps, every permit is out or on its way to a thread that has been woken, so that all are out when
nobody has been woken; and the gate knows how many threads sleep and how many have been woken. -/
theorem permits_counted (Thread : Type) [Fintype Thread] [DecidableEq Thread] (capacity : Nat)
    {c : Crowd Thread} (hreaches : Reaches (start Thread capacity) c) :
    c.gate.capacity = max capacity 1 ∧
      c.gate.inUse = c.permits ∧ c.permits ≤ max capacity 1 ∧
      (∀ i, 0 < (c.visitors i).permits → c.gate.giveBack.inUse + 1 = c.gate.inUse) ∧
      (∀ i, (c.visitors i).stance = .asleep →
        max capacity 1 ≤ c.gate.inUse + c.number .woken) ∧
      (∀ i, (c.visitors i).stance = .asleep → (∀ j, (c.visitors j).stance ≠ .woken) →
        c.permits = max capacity 1) ∧
      c.Tallied := by
  have htallied := (tallied_start capacity).reaches hreaches
  have hgate := (tallied_start capacity).gate_reaches hreaches
  have hsound := (Gate.sound_ofCapacity capacity).reaches hgate
  have hcapacity : c.gate.capacity = max capacity 1 := Gate.capacity_reaches hgate
  have hinUse : c.gate.inUse = c.permits := hsound.inUse_eq.trans htallied.held_eq
  have hpermits : c.permits ≤ max capacity 1 := by
    rw [← hcapacity, ← htallied.held_eq]
    exact hsound.held_le
  have hasleep : ∀ i, (c.visitors i).stance = .asleep →
      max capacity 1 ≤ c.gate.inUse + c.number .woken := by
    intro i hi
    have hpos : 0 < c.gate.asleep := htallied.asleep_eq ▸ number_pos hi
    have hle := hsound.capacity_le hpos
    rwa [hcapacity, htallied.woken_eq] at hle
  refine ⟨hcapacity, hinUse, hpermits, ?_, hasleep, ?_, htallied⟩
  · intro i hi
    have hpos := htallied.held_pos hi
    rw [← hsound.inUse_eq] at hpos
    rw [Gate.inUse_giveBack]
    omega
  · intro i hi hnone
    have hle := hasleep i hi
    rw [number_eq_zero hnone] at hle
    omega

/-- One permit and three threads: the first takes it, the second goes to sleep and is woken when
the permit comes back, but the third is faster. -/
theorem permits_counted_overtaken : ∃ c, Reaches (start (Fin 3) 0) c ∧
    (c.visitors 1).stance = .asleep ∧ (∀ j, (c.visitors j).stance ≠ .woken) ∧
    c.gate.inUse = c.permits ∧ c.permits = 1 ∧ c.gate.asleep = c.number .asleep := by
  have hreaches : ∃ c, Reaches (start (Fin 3) 0) c ∧ (c.visitors 1).stance = .asleep ∧
      ∀ j, (c.visitors j).stance ≠ .woken := by
    refine ⟨_, (((((Reaches.refl _).step (.enter (i := 0) (n := 0) ?_ ?_)).step
      (.block (i := 1) (n := 0) ?_ ?_)).step
      (.giveBackAndWake (i := 0) (j := 1) (n := 0) (m := 0) ?_ ?_)).step
      (.enter (i := 2) (n := 0) ?_ ?_)).step (.blockAgain (i := 1) (n := 0) ?_ ?_), ?_, ?_⟩
    all_goals decide
  obtain ⟨c, hreaches, hasleep, hnone⟩ := hreaches
  obtain ⟨-, hinUse, -, -, -, hall, htallied⟩ := permits_counted (Fin 3) 0 hreaches
  exact ⟨c, hreaches, hasleep, hnone, hinUse, hall 1 hasleep hnone, htallied.asleep_eq⟩

end Crowd

end Conformance
