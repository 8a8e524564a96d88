import NetworkExperiments.Support.Run
import NetworkExperiments.Visensor.SharedRingBuffer

/-!
# Torn frames

A frame is torn when the FPGA writes the slot at `position` between the start
and the end of a `send_data` of that slot.  Here a send takes time, and the
loop is observed from any state in which the Linux pointer addresses the
server's slot and the FPGA is in another one.

The Linux pointer keeps the FPGA out of the server's slot, so a slot can be
torn only when `movePointer` moves the server onto the slot of the FPGA.  At
all positions but the last, `newDataAvailable` excludes that.  At the last
position it compares with the slot behind the ring and always answers yes;
`no_torn_frame` needs that the FPGA is not in slot 0 when the server goes
there.
-/

namespace NetworkExperiments.Visensor.FrameTearing

open EventSystem

/-- Where the server loop stands. -/
inductive Stage
  | idle
  | available
  | sending
  | sent
  deriving DecidableEq, Repr

/-- The FPGA writes `slot`. -/
structure State where
  slot : ℕ
  registers : FPGARegisters
  buffer : SharedRingBuffer
  stage : Stage

inductive Event
  | fpgaAdvances
  | newDataAvailable
  | startSend
  | endSend
  | movePointer
  deriving DecidableEq, Repr

variable (c : RingConfig)

def step (st : State) : Event → Option State
  | .fpgaAdvances =>
      let next := (st.slot + 1) % c.length
      if c.slotAddress next ≠ st.registers.getRegisterValue bufferLinuxPointer
      then
        some { st with
          slot := next
          registers := st.registers.setRegisterValue bufferFpgaPointer
            (c.slotAddress next) }
      else none
  | .newDataAvailable =>
      if st.stage = .idle then
        some { st with
          stage :=
            if st.buffer.newDataAvailable st.registers then .available
            else .idle }
      else none
  | .startSend =>
      if st.stage = .available then some { st with stage := .sending }
      else none
  | .endSend =>
      if st.stage = .sending then some { st with stage := .sent } else none
  | .movePointer =>
      if st.stage = .sent then
        some { st with
          stage := .idle
          buffer := (st.buffer.movePointer st.registers).1
          registers := (st.buffer.movePointer st.registers).2 }
      else none

/-- The FPGA writes the slot that is being sent. -/
def Torn (st : State) : Prop :=
  st.stage = .sending ∧ st.slot = st.buffer.position

instance (st : State) : Decidable (Torn st) :=
  inferInstanceAs (Decidable (_ ∧ _))

/-- Both pointers address slots of the ring, and the FPGA is not in the
server's. -/
structure Apart (st : State) : Prop where
  position_lt : st.buffer.position < c.length
  buffer_eq : st.buffer = c.buffer st.buffer.position
  slot_lt : st.slot < c.length
  fpgaPointer :
    st.registers.getRegisterValue bufferFpgaPointer = c.slotAddress st.slot
  linuxPointer :
    st.registers.getRegisterValue bufferLinuxPointer =
      c.slotAddress st.buffer.position
  slot_ne : st.slot ≠ st.buffer.position

/-- The states from which the loop is observed. -/
structure Start (st : State) : Prop extends Apart c st where
  idle : st.stage = .idle

/-- When `movePointer` goes from the last slot to slot 0, the FPGA is not in
slot 0. -/
def WrapsApart (st : State) (e : Event) : Prop :=
  e = .movePointer → st.buffer.position + 1 = st.buffer.length →
    st.registers.getRegisterValue bufferFpgaPointer ≠
      st.buffer.pysicalAddressOf 0

instance (st : State) (e : Event) : Decidable (WrapsApart st e) :=
  inferInstanceAs (Decidable (_ → _ → _))

/-- After `newDataAvailable` has answered yes, the FPGA is not in the slot
after the server's either, unless the server is at the last slot. -/
structure TearingInv (st : State) : Prop extends Apart c st where
  ahead : st.stage ≠ .idle → st.slot ≠ st.buffer.position + 1

variable {c}

theorem Start.tearingInv {st : State} (h : Start c st) : TearingInv c st :=
  ⟨h.toApart, fun hstage => absurd h.idle hstage⟩

theorem TearingInv.not_torn {st : State} (h : TearingInv c st) : ¬ Torn st :=
  fun htorn => h.slot_ne htorn.2

theorem tearingInv_fpgaAdvances {st : State} (h : TearingInv c st)
    (hfree : c.slotAddress ((st.slot + 1) % c.length) ≠
      st.registers.getRegisterValue bufferLinuxPointer) :
    TearingInv c { st with
      slot := (st.slot + 1) % c.length
      registers := st.registers.setRegisterValue bufferFpgaPointer
        (c.slotAddress ((st.slot + 1) % c.length)) } := by
  rw [h.linuxPointer, Ne, RingConfig.slotAddress_inj] at hfree
  have hlt : (st.slot + 1) % c.length < c.length := Nat.mod_lt _ c.length_pos
  refine ⟨⟨h.position_lt, h.buffer_eq, hlt, by simp, ?_, hfree⟩, ?_⟩
  · simpa using h.linuxPointer
  · -- the slot after the server's is entered from the server's only
    intro _ hahead
    change (st.slot + 1) % c.length = st.buffer.position + 1 at hahead
    have hslot := CyclicSlots.succ_mod h.slot_lt
    have hne := h.slot_ne
    split at hslot <;> omega

theorem tearingInv_newDataAvailable {st : State} (h : TearingInv c st) :
    TearingInv c { st with
      stage :=
        if st.buffer.newDataAvailable st.registers then .available
        else .idle } := by
  refine ⟨⟨h.position_lt, h.buffer_eq, h.slot_lt, h.fpgaPointer,
    h.linuxPointer, h.slot_ne⟩, ?_⟩
  intro havailable
  have hanswer : st.buffer.newDataAvailable st.registers =
      decide (st.slot ≠ st.buffer.position + 1) := by
    have hbuffer := RingConfig.newDataAvailable_eq h.position_lt h.fpgaPointer
    rwa [← h.buffer_eq] at hbuffer
  intro hahead
  change st.slot = st.buffer.position + 1 at hahead
  simp [hanswer, hahead] at havailable

theorem tearingInv_movePointer {st : State} (h : TearingInv c st)
    (hstage : st.stage = .sent) (hwrap : WrapsApart st .movePointer) :
    TearingInv c { st with
      stage := .idle
      buffer := (st.buffer.movePointer st.registers).1
      registers := (st.buffer.movePointer st.registers).2 } := by
  have hlt : (st.buffer.position + 1) % c.length < c.length :=
    Nat.mod_lt _ c.length_pos
  have hapart : st.slot ≠ (st.buffer.position + 1) % c.length := by
    by_cases hlast : st.buffer.position + 1 = c.length
    · rw [hlast, Nat.mod_self]
      have hlength : st.buffer.length = c.length := by
        rw [h.buffer_eq]
        rfl
      have hzero : st.buffer.pysicalAddressOf 0 = c.slotAddress 0 := by
        have hbuffer := RingConfig.pysicalAddressOf_buffer
          (c := c) (p := st.buffer.position) (Nat.zero_le _)
        rwa [← h.buffer_eq] at hbuffer
      have hpointer := hwrap rfl (by rw [hlength, hlast])
      rw [h.fpgaPointer, hzero, Ne, RingConfig.slotAddress_inj] at hpointer
      exact hpointer
    · have hposition := h.position_lt
      rw [Nat.mod_eq_of_lt (by omega)]
      exact h.ahead (by simp [hstage])
  rw [h.buffer_eq, RingConfig.movePointer_eq h.position_lt]
  refine ⟨⟨hlt, rfl, h.slot_lt, ?_, by simp, hapart⟩, ?_⟩
  · simpa using h.fpgaPointer
  · intro hidle
    exact absurd rfl hidle

theorem tearingInv_step {st st' : State} {e : Event} (h : TearingInv c st)
    (hwrap : WrapsApart st e) (hstep : step c st e = some st') :
    TearingInv c st' := by
  cases e with
  | fpgaAdvances =>
      simp only [step] at hstep
      split at hstep
      · next hfree =>
          exact Option.some.inj hstep ▸ tearingInv_fpgaAdvances h hfree
      · contradiction
  | newDataAvailable =>
      simp only [step] at hstep
      split at hstep
      · exact Option.some.inj hstep ▸ tearingInv_newDataAvailable h
      · contradiction
  | startSend | endSend =>
      simp only [step] at hstep
      split at hstep
      · next hstage =>
          obtain rfl := Option.some.inj hstep
          refine ⟨⟨h.position_lt, h.buffer_eq, h.slot_lt, h.fpgaPointer,
            h.linuxPointer, h.slot_ne⟩, fun _ => ?_⟩
          exact h.ahead (by simp [hstage])
      · contradiction
  | movePointer =>
      simp only [step] at hstep
      split at hstep
      · next hstage =>
          exact Option.some.inj hstep ▸ tearingInv_movePointer h hstage hwrap
      · contradiction

/-- No frame is torn in a run in which the server never goes from the last
slot to slot 0 while the FPGA is there. -/
theorem no_torn_frame (c : RingConfig) {st : State} (hstart : Start c st)
    {es : List Event} (hwrap : EachStep (step c) WrapsApart st es) :
    EachState (step c) (fun t => ¬ Torn t) st es := by
  have hinv : EachState (step c) (TearingInv c) st es :=
    eachState_of_eachStep
      (fun _ _ _ h hw hstep => tearingInv_step h hw hstep)
      hstart.tearingInv hwrap
  exact hinv.mono fun _ h => h.not_torn

/-- The camera's ring with the server at the last slot and the FPGA in slot
0. -/
def atLastSlot : State where
  slot := 0
  registers := ⟨fun offset =>
    if offset = bufferLinuxPointer then cameraRing.slotAddress 7
    else cameraRing.slotAddress 0⟩
  buffer := cameraRing.buffer 7
  stage := .idle

theorem atLastSlot_start : Start cameraRing atLastSlot := by
  refine ⟨⟨by decide, rfl, by decide, rfl, rfl, by decide⟩, rfl⟩

/-- A lap round the end of the ring without a torn frame: the FPGA has left
slot 0 before the server goes there. -/
theorem no_torn_frame_atLastSlot :
    EachState (step cameraRing) (fun t => ¬ Torn t) atLastSlot
      [.newDataAvailable, .startSend, .fpgaAdvances, .endSend, .movePointer,
        .newDataAvailable] :=
  no_torn_frame cameraRing atLastSlot_start (by decide)

/-- With the FPGA in slot 0, the server at the last slot is told that there is
new data, goes to slot 0 and sends it while the FPGA writes it. -/
theorem cameraRing_tears_frame :
    ¬ ∀ c : RingConfig, 3 ≤ c.length → ∀ st, Start c st → ∀ es,
      EachState (step c) (fun t => ¬ Torn t) st es := by
  intro hall
  have hrun := hall cameraRing (by decide) atLastSlot atLastSlot_start
    [.newDataAvailable, .startSend, .endSend, .movePointer, .newDataAvailable,
      .startSend]
  revert hrun
  decide

end NetworkExperiments.Visensor.FrameTearing
