import NetworkExperiments.Visensor.FrameTearing

/-!
# Deadlock freedom of the camera ring

The server waits while the FPGA is in the slot after its own, and the FPGA waits
while the Linux pointer addresses the slot after its own.  The ring is stuck
when both wait.  From the start-up state this can happen only with two slots,
where the slot after the next one is the server's again.
-/

namespace NetworkExperiments.Visensor.DeadlockFreedom

open EventSystem FrameTearing

variable (c : RingConfig)

/-- The state after the constructor of `MT9V034`, with the FPGA in slot 0. -/
def startUp (registers : FPGARegisters) : State where
  slot := 0
  registers := (mt9v034 c registers).2.setRegisterValue bufferFpgaPointer
    (c.slotAddress 0)
  buffer := (mt9v034 c registers).1
  stage := .idle

/-- `newDataAvailable` answers no, and the FPGA cannot advance. -/
def Stuck (st : State) : Prop :=
  st.buffer.newDataAvailable st.registers = false ∧
    step c st .fpgaAdvances = none

instance (st : State) : Decidable (Stuck c st) :=
  decidable_of_iff (st.buffer.newDataAvailable st.registers = false ∧
      (step c st .fpgaAdvances).isNone)
    (and_congr_right' Option.isNone_iff_eq_none)

/-- The FPGA pointer addresses the FPGA's slot, and the Linux pointer the
server's or, before the first `movePointer`, the place behind the ring. -/
structure PointerInv (st : State) : Prop where
  position_lt : st.buffer.position < c.length
  buffer_eq : st.buffer = c.buffer st.buffer.position
  slot_lt : st.slot < c.length
  fpgaPointer :
    st.registers.getRegisterValue bufferFpgaPointer = c.slotAddress st.slot
  linuxPointer :
    st.registers.getRegisterValue bufferLinuxPointer =
        c.slotAddress st.buffer.position ∨
      st.registers.getRegisterValue bufferLinuxPointer =
        c.slotAddress (c.length + 1)

variable {c}

theorem pointerInv_startUp (registers : FPGARegisters) :
    PointerInv c (startUp c registers) := by
  refine ⟨c.length_pos, rfl, c.length_pos, by simp [startUp], Or.inr ?_⟩
  rw [startUp, FPGARegisters.get_linux_set_fpga, mt9v034_linuxPointer]

theorem pointerInv_step {st st' : State} {e : Event} (h : PointerInv c st)
    (hstep : step c st e = some st') : PointerInv c st' := by
  cases e with
  | fpgaAdvances =>
      simp only [step] at hstep
      split at hstep
      · obtain rfl := Option.some.inj hstep
        exact ⟨h.position_lt, h.buffer_eq, Nat.mod_lt _ c.length_pos, by simp,
          by simpa using h.linuxPointer⟩
      · contradiction
  | newDataAvailable | startSend | endSend =>
      simp only [step] at hstep
      split at hstep
      · obtain rfl := Option.some.inj hstep
        exact ⟨h.position_lt, h.buffer_eq, h.slot_lt, h.fpgaPointer,
          h.linuxPointer⟩
      · contradiction
  | movePointer =>
      simp only [step] at hstep
      split at hstep
      · obtain rfl := Option.some.inj hstep
        rw [h.buffer_eq, RingConfig.movePointer_eq h.position_lt]
        exact ⟨Nat.mod_lt _ c.length_pos, rfl, h.slot_lt,
          by simpa using h.fpgaPointer, by simp⟩
      · contradiction

theorem newDataAvailable_eq_false_iff {st : State} (h : PointerInv c st) :
    st.buffer.newDataAvailable st.registers = false ↔
      st.slot = st.buffer.position + 1 := by
  have hanswer := RingConfig.newDataAvailable_eq h.position_lt h.fpgaPointer
  rw [← h.buffer_eq] at hanswer
  rw [hanswer, decide_eq_false_iff_not, not_not]

/-- The FPGA is blocked exactly by the server's slot, once the server has
published it. -/
theorem fpgaAdvances_eq_none_iff {st : State} :
    step c st .fpgaAdvances = none ↔
      st.registers.getRegisterValue bufferLinuxPointer =
        c.slotAddress ((st.slot + 1) % c.length) := by
  simp [step, eq_comm]

theorem length_eq_two_of_stuck {st : State} (h : PointerInv c st)
    (hstuck : Stuck c st) : c.length = 2 := by
  have hslot : st.slot = st.buffer.position + 1 :=
    (newDataAvailable_eq_false_iff h).mp hstuck.1
  have hblocked := fpgaAdvances_eq_none_iff.mp hstuck.2
  have hlt := h.slot_lt
  have hnext : (st.slot + 1) % c.length < c.length :=
    Nat.mod_lt _ c.length_pos
  rcases h.linuxPointer with hserver | hbehind
  · rw [hserver, RingConfig.slotAddress_inj, CyclicSlots.succ_mod hlt]
      at hblocked
    split at hblocked <;> omega
  · rw [hbehind, RingConfig.slotAddress_inj] at hblocked
    omega

theorem eachState_pointerInv {st : State} (h : PointerInv c st)
    (es : List Event) : EachState (step c) (PointerInv c) st es :=
  eachState_of_eachStep (fun _ _ _ hinv _ hstep => pointerInv_step hinv hstep)
    h (EachStep.of_forall (fun _ _ => trivial) st es)

/-! ## Two slots -/

/-- The events of one iteration of the server loop that finds new data. -/
def serverIteration : List Event :=
  [.newDataAvailable, .startSend, .endSend, .movePointer]

/-- An iteration goes to the next slot, and publishes it, unless the FPGA is
there. -/
theorem run_serverIteration {st : State} (h : PointerInv c st)
    (hidle : st.stage = .idle) (hslot : st.slot ≠ st.buffer.position + 1) :
    ∃ st', run (step c) st serverIteration = some st' ∧
      st'.stage = .idle ∧ st'.slot = st.slot ∧
      st'.buffer.position = (st.buffer.position + 1) % c.length ∧
      st'.registers.getRegisterValue bufferLinuxPointer =
        c.slotAddress st'.buffer.position := by
  have hanswer : st.buffer.newDataAvailable st.registers = true := by
    rw [← Bool.not_eq_false, newDataAvailable_eq_false_iff h]
    exact hslot
  have hmove := RingConfig.movePointer_eq h.position_lt st.registers
  rw [← h.buffer_eq] at hmove
  refine ⟨{ st with
    buffer := (st.buffer.movePointer st.registers).1
    registers := (st.buffer.movePointer st.registers).2 }, ?_, hidle, rfl, ?_⟩
  · simp [serverIteration, run, step, hidle, hanswer]
  · rw [hmove]
    exact ⟨rfl, FPGARegisters.get_set_self _ _ _⟩

/-- With two slots, the ring is stuck when the server has gone round once and
the FPGA advances then. -/
theorem stuck_of_length_eq_two (hlength : c.length = 2)
    (registers : FPGARegisters) :
    ∃ es st, run (step c) (startUp c registers) es = some st ∧ Stuck c st := by
  have hinv₀ := pointerInv_startUp (c := c) registers
  obtain ⟨st₁, hrun₁, hidle₁, hslot₁, hposition₁, -⟩ :=
    run_serverIteration hinv₀ rfl Nat.zero_ne_one
  have hinv₁ := (eachState_pointerInv hinv₀ serverIteration).last hrun₁
  have hone : st₁.buffer.position = 1 := by
    rw [hposition₁, hlength]
    rfl
  have hzero : st₁.slot = 0 := hslot₁
  obtain ⟨st₂, hrun₂, -, hslot₂, hposition₂, hlinux₂⟩ :=
    run_serverIteration hinv₁ hidle₁ (by omega)
  have hinv₂ := (eachState_pointerInv hinv₁ serverIteration).last hrun₂
  have hback : st₂.buffer.position = 0 := by
    rw [hposition₂, hone, hlength]
  have hnext : (st₂.slot + 1) % c.length = 1 := by
    rw [hslot₂, hzero, hlength]
  have hfree : step c st₂ .fpgaAdvances ≠ none := by
    rw [Ne, fpgaAdvances_eq_none_iff, hlinux₂, hback, hnext,
      RingConfig.slotAddress_inj]
    exact Nat.zero_ne_one
  obtain ⟨st₃, hstep₃⟩ := Option.ne_none_iff_exists'.mp hfree
  have hinv₃ := pointerInv_step hinv₂ hstep₃
  refine ⟨serverIteration ++ (serverIteration ++ [.fpgaAdvances]), st₃, ?_, ?_⟩
  · simp only [run_append, hrun₁, hrun₂, run_cons, hstep₃, Option.bind_some,
      run_nil]
  · simp only [step] at hstep₃
    split at hstep₃
    · obtain rfl := Option.some.inj hstep₃
      constructor
      · rw [newDataAvailable_eq_false_iff hinv₃, hback]
        exact hnext
      · rw [fpgaAdvances_eq_none_iff, FPGARegisters.get_linux_set_fpga,
          hlinux₂, hback, RingConfig.slotAddress_inj]
        change 0 = ((st₂.slot + 1) % c.length + 1) % c.length
        rw [hnext, hlength]
    · contradiction

/-- A ring of any length but two is never stuck, whatever the order of the
steps of the FPGA and the server; a ring of two slots can get stuck. -/
theorem stuck_only_with_two_slots (c : RingConfig)
    (registers : FPGARegisters) :
    (c.length ≠ 2 → ∀ es,
        EachState (step c) (fun st => ¬ Stuck c st) (startUp c registers) es) ∧
      (c.length = 2 → ∃ es st,
        run (step c) (startUp c registers) es = some st ∧ Stuck c st) := by
  refine ⟨?_, fun hlength => stuck_of_length_eq_two hlength registers⟩
  intro hlength es
  have hinv := eachState_pointerInv (pointerInv_startUp (c := c) registers) es
  exact hinv.mono fun _ h hstuck => hlength (length_eq_two_of_stuck h hstuck)

end NetworkExperiments.Visensor.DeadlockFreedom
