import Conformance.Proofs.Gate
import Conformance.Run.Schedule

/-!
# Permits in a schedule

Every permit that is out is with a worker or in the first thread's hand, and only the first thread
ever waits for one. So whoever comes first, there are never more workers than the gate admits, and
the first thread sleeps only while some worker has a permit to give back.
-/

namespace Conformance.Schedule

variable {suite : Suite} {engines : Engine → Prop}

/-- How many holders of a permit there are. -/
def State.holders (s : State) : Nat :=
  s.workers.length + s.hand.toList.length

/-- What holds of the gate and of those who hold permits. -/
structure Admits (suite : Suite) (capacity : Nat) (s : State) : Prop where
  sound : s.gate.Sound
  capacity_eq : s.gate.capacity = max capacity 1
  held_eq : s.gate.held = s.holders
  waiting_le : s.gate.waiting ≤ 1
  /-- The first thread waits with empty hands for the permit of its next run. -/
  awaits : 0 < s.gate.waiting → s.hand = none ∧
    ∃ spec rest, s.errands = .task (.run spec) :: rest
  /-- Without parallel runs there is one run at a time, and never a wait. -/
  alone : suite.settings.parallel = false → s.gate.waiting = 0 ∧ s.holders ≤ 1

theorem admits_start (suite : Suite) (capacity : Nat) (errands : List Errand) :
    Admits suite capacity (.start (.ofCapacity capacity) errands) where
  sound := Gate.sound_ofCapacity capacity
  capacity_eq := rfl
  held_eq := rfl
  waiting_le := Nat.zero_le _
  awaits := by simp [State.start, Gate.ofCapacity, Gate.waiting]
  alone := by simp [State.start, Gate.ofCapacity, Gate.waiting, State.holders]

namespace Admits

variable {capacity : Nat} {s t : State}

theorem congr (h : Admits suite capacity s) (hgate : t.gate = s.gate) (hhand : t.hand = s.hand)
    (hworkers : t.workers.length = s.workers.length)
    (herrands : 0 < s.gate.waiting → t.errands = s.errands) : Admits suite capacity t where
  sound := hgate ▸ h.sound
  capacity_eq := hgate ▸ h.capacity_eq
  held_eq := by rw [hgate, h.held_eq, State.holders, State.holders, hhand, hworkers]
  waiting_le := hgate ▸ h.waiting_le
  awaits := by
    intro hwaiting
    rw [hgate] at hwaiting
    rw [hhand, herrands hwaiting]
    exact h.awaits hwaiting
  alone := by
    intro hparallel
    rw [hgate, State.holders, hhand, hworkers]
    exact h.alone hparallel

theorem enter (h : Admits suite capacity s) {gate : Gate} (hsound : gate.Sound)
    (hcapacity : gate.capacity = s.gate.capacity) (hheld : gate.held = s.gate.held + 1)
    (hwaiting : gate.waiting = 0) (hhand : s.hand = none)
    (halone : suite.settings.parallel = false → s.workers = []) (spec : TestRun)
    (rest : List Errand) :
    Admits suite capacity { s with errands := rest, hand := some spec, gate := gate } where
  sound := hsound
  capacity_eq := hcapacity.trans h.capacity_eq
  held_eq := by simp [hheld, h.held_eq, State.holders, hhand]
  waiting_le := by simp [hwaiting]
  awaits := by simp [hwaiting]
  alone := by
    intro hparallel
    simp [hwaiting, State.holders, halone hparallel]

/-- The first thread goes to sleep or is woken. -/
theorem wait (h : Admits suite capacity s) {gate : Gate} (hsound : gate.Sound)
    (hcapacity : gate.capacity = s.gate.capacity) (hheld : gate.held = s.gate.held)
    (hwaiting : gate.waiting ≤ 1)
    (hawaits : 0 < gate.waiting →
      s.hand = none ∧ ∃ spec rest, s.errands = .task (.run spec) :: rest)
    (halone : suite.settings.parallel = false → gate.waiting = 0) :
    Admits suite capacity { s with gate := gate } where
  sound := hsound
  capacity_eq := hcapacity.trans h.capacity_eq
  held_eq := hheld.trans h.held_eq
  waiting_le := hwaiting
  awaits := hawaits
  alone := fun hparallel => ⟨halone hparallel, (h.alone hparallel).2⟩

theorem hand_of_woken (h : Admits suite capacity s) (hwoken : 0 < s.gate.woken) :
    s.hand = none :=
  (h.awaits (Nat.lt_of_lt_of_le hwoken (Nat.le_add_left _ _))).1

theorem lt_of_holders_eq (h : Admits suite capacity s) (hholders : s.holders = 0) :
    s.gate.inUse < s.gate.capacity := by
  have hcapacity := h.capacity_eq
  rw [h.sound.inUse_eq, h.held_eq, hholders]
  omega

theorem step (h : Admits suite capacity s) (hstep : Step suite engines s t) :
    Admits suite capacity t := by
  cases hstep with
  | walk herrands hfree => exact h.congr rfl rfl rfl (by simp [hfree.1])
  | plan herrands hfree => exact h.congr rfl rfl rfl (by simp [hfree.1])
  | note herrands hfree => exact h.congr rfl rfl rfl (by simp [hfree.1])
  | leaveOut herrands hfree => exact h.congr rfl rfl rfl (by simp [hfree.1])
  | enter herrands hfree hlt =>
    obtain ⟨hwaiting, hhand, halone⟩ := hfree
    refine h.enter h.sound.ask Gate.capacity_ask ?_ ?_ hhand ?_ _ _
    · simp [Gate.ask_of_lt hlt]
    · simpa [Gate.ask_of_lt hlt, Gate.waiting] using hwaiting
    · intro hparallel
      simpa [hparallel] using halone
  | @block spec rest herrands hfree hle =>
    obtain ⟨hwaiting, hhand, halone⟩ := hfree
    -- without parallel runs the last permit is back before the next run is turned to
    have hparallel : suite.settings.parallel = true := by
      rcases halone with hparallel | hnone
      · exact hparallel
      · have := h.lt_of_holders_eq (by simp [State.holders, hnone, hhand])
        omega
    have hone : s.gate.ask.waiting = 1 := by
      simp only [Gate.ask_of_le hle, Gate.waiting] at hwaiting ⊢
      omega
    have hheld : s.gate.ask.held = s.gate.held := by simp [Gate.ask_of_le hle]
    refine h.wait h.sound.ask Gate.capacity_ask hheld (by simp [hone]) ?_ ?_
    · exact fun _ => ⟨hhand, spec, rest, herrands⟩
    · simp [hparallel]
  | @enterWoken spec rest herrands hwoken hlt =>
    have hwaiting := h.waiting_le
    refine h.enter (h.sound.recheck hwoken) Gate.capacity_recheck ?_ ?_ (h.hand_of_woken hwoken)
      ?_ _ _
    · simp [Gate.recheck_of_lt hlt]
    · simp only [Gate.recheck_of_lt hlt, Gate.waiting] at hwaiting ⊢
      omega
    · intro hparallel
      have hnone := (h.alone hparallel).1
      simp only [Gate.waiting] at hnone
      omega
  | blockAgain hwoken hle =>
    have hsame : s.gate.recheck.waiting = s.gate.waiting := by
      simp only [Gate.recheck_of_le hle, Gate.waiting]
      omega
    refine h.wait (h.sound.recheck hwoken) Gate.capacity_recheck (by simp [Gate.recheck_of_le hle])
      (hsame ▸ h.waiting_le) ?_ ?_
    · exact fun hwaiting => h.awaits (hsame ▸ hwaiting)
    · exact fun hparallel => hsame ▸ (h.alone hparallel).1
  | stir hasleep =>
    refine h.wait h.sound.wakeOne Gate.capacity_wakeOne Gate.held_wakeOne ?_ ?_ ?_
    · simpa using h.waiting_le
    · simpa using h.awaits
    · exact fun hparallel => by simpa using (h.alone hparallel).1
  | @spawn spec engine hhand hengine =>
    have hholders : s.workers.length + 1 = s.holders := by simp [State.holders, hhand]
    have hwaiting : s.gate.waiting = 0 := by
      rcases Nat.eq_zero_or_pos s.gate.waiting with hwaiting | hpos
      · exact hwaiting
      · simp [(h.awaits hpos).1] at hhand
    exact {
      sound := h.sound
      capacity_eq := h.capacity_eq
      held_eq := by simpa [State.holders, hhand] using h.held_eq
      waiting_le := h.waiting_le
      awaits := by simp [hwaiting]
      alone := by simpa [State.holders, hhand] using h.alone }
  | work hworkers hadvance => exact h.congr rfl rfl (by simp [hworkers]) (fun _ => rfl)
  | deliver hworkers => exact h.congr rfl rfl (by simp [hworkers]) (fun _ => rfl)
  | @giveBack before after engine spec hworkers =>
    have hlength : s.workers.length = (before ++ after).length + 1 := by
      simp [hworkers]
      omega
    exact {
      sound := h.sound.giveBack
      capacity_eq := Gate.capacity_giveBack.trans h.capacity_eq
      held_eq := by
        simp only [Gate.held_giveBack, h.held_eq, State.holders, hlength]
        omega
      waiting_le := by simpa using h.waiting_le
      awaits := by simpa using h.awaits
      alone := by
        intro hparallel
        obtain ⟨hwaiting, hholders⟩ := h.alone hparallel
        refine ⟨by simpa using hwaiting, ?_⟩
        simp only [State.holders, hlength] at hholders ⊢
        omega }

theorem reaches (h : Admits suite capacity s) (hreaches : Reaches suite engines s t) :
    Admits suite capacity t := by
  induction hreaches with
  | refl => exact h
  | step _ hstep ih => exact ih.step hstep

/-- The first thread is held up only while a worker holds a permit. -/
theorem workers_ne_nil (h : Admits suite capacity s) (hblocked : s.IsBlocked) :
    s.workers ≠ [] := by
  intro hnone
  have hpos : 0 < s.gate.waiting := by
    rcases hblocked with hasleep | ⟨hwoken, -⟩ <;> simp only [Gate.waiting] <;> omega
  have hlt := h.lt_of_holders_eq (by simp [State.holders, hnone, (h.awaits hpos).1])
  have hwaiting := h.waiting_le
  rcases hblocked with hasleep | ⟨-, hle⟩
  · have hcapacity := h.sound.capacity_le hasleep
    simp only [Gate.waiting] at hwaiting
    omega
  · omega

end Admits

theorem admits_of_reaches {capacity : Nat} {errands : List Errand} {s : State}
    (h : Reaches suite engines (.start (.ofCapacity capacity) errands) s) :
    Admits suite capacity s :=
  (admits_start suite capacity errands).reaches h

end Conformance.Schedule
