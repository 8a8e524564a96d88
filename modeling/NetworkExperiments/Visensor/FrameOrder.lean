import NetworkExperiments.Support.Run
import NetworkExperiments.Visensor.SharedRingBuffer

/-!
# Order of the frames that the camera loop sends

The FPGA writes frame `k` into slot `k % length`.  When a frame is complete it
enters the next slot, unless the address of that slot is in
`BUFFER_LINUX_POINTER`, in which case it waits.  The server loop asks
`newDataAvailable`, sends the slot at `position` and calls `movePointer`.

`newDataAvailable` looks at the slot after `position` only, so it also answers
yes while the FPGA is still writing the slot that is sent next; at start-up the
very first call does so.  `frames_in_order` says how far the loop can be
trusted: as long as the FPGA is in another slot whenever a slot is sent, only
complete frames are sent, none twice and none out of order, and a slot that is
sent while it is written breaks this at once.
-/

namespace NetworkExperiments.Visensor.FrameOrder

open CyclicSlots EventSystem

/-- What a slot holds: nothing yet, a frame that is being written, or a
complete frame. -/
inductive SlotContent
  | blank
  | partly (frame : ℕ)
  | full (frame : ℕ)
  deriving DecidableEq, Repr

/-- Where the server loop stands. -/
inductive Stage
  | idle
  | available
  | sent
  deriving DecidableEq, Repr

/-- The FPGA, the registers and memory it shares with the server, and the
server loop.  `frame` is the frame in the FPGA's slot, and `waiting` says that
it is complete and the FPGA is kept from the next slot. -/
structure State where
  frame : ℕ
  waiting : Bool
  registers : FPGARegisters
  memory : ℕ → SlotContent
  buffer : SharedRingBuffer
  stage : Stage
  sent : List SlotContent

/-- A step of the FPGA or of the server loop. -/
inductive Event
  | fpgaCompletes
  | fpgaResumes
  | newDataAvailable
  | sendData
  | movePointer
  deriving DecidableEq, Repr

variable (c : RingConfig)

/-- The state after start-up, with the FPGA writing frame 0 into slot 0. -/
def init (registers : FPGARegisters) : State where
  frame := 0
  waiting := false
  registers := (mt9v034 c registers).2.setRegisterValue bufferFpgaPointer
    (c.slotAddress 0)
  memory := Function.update (fun _ => .blank) (c.slotData 0) (.partly 0)
  buffer := (mt9v034 c registers).1
  stage := .idle
  sent := []

/-- The FPGA enters the next slot, starts its frame there and publishes the
address. -/
def enterNext (st : State) : State :=
  let slot := (st.frame + 1) % c.length
  { st with
    frame := st.frame + 1
    waiting := false
    registers :=
      st.registers.setRegisterValue bufferFpgaPointer (c.slotAddress slot)
    memory :=
      Function.update st.memory (c.slotData slot) (.partly (st.frame + 1)) }

/-- Whether the Linux pointer keeps the FPGA from the next slot. -/
def Blocked (st : State) : Prop :=
  c.slotAddress ((st.frame + 1) % c.length) =
    st.registers.getRegisterValue bufferLinuxPointer

instance (st : State) : Decidable (Blocked c st) :=
  inferInstanceAs (Decidable (_ = _))

/-- The current frame becomes complete. -/
def completeFrame (st : State) : State :=
  { st with
    memory := Function.update st.memory
      (c.slotData (st.frame % c.length)) (.full st.frame) }

def step (st : State) : Event → Option State
  | .fpgaCompletes =>
      if st.waiting then none
      else if Blocked c st then some { completeFrame c st with waiting := true }
      else some (enterNext c (completeFrame c st))
  | .fpgaResumes =>
      if st.waiting ∧ ¬ Blocked c st then some (enterNext c st) else none
  | .newDataAvailable =>
      if st.stage = .idle then
        some { st with
          stage :=
            if st.buffer.newDataAvailable st.registers then .available
            else .idle }
      else none
  | .sendData =>
      if st.stage = .available then
        some { st with
          stage := .sent
          sent := st.sent ++ [st.memory st.buffer.data] }
      else none
  | .movePointer =>
      if st.stage = .sent then
        some { st with
          stage := .idle
          buffer := (st.buffer.movePointer st.registers).1
          registers := (st.buffer.movePointer st.registers).2 }
      else none

/-- The steps, one constructor for each way an event can go. -/
inductive Move (st : State) : Event → State → Prop
  | completesAndWaits (hwaiting : st.waiting = false)
      (hblocked : Blocked c st) :
      Move st .fpgaCompletes { completeFrame c st with waiting := true }
  | completesAndEnters (hwaiting : st.waiting = false)
      (hfree : ¬ Blocked c st) :
      Move st .fpgaCompletes (enterNext c (completeFrame c st))
  | resumes (hwaiting : st.waiting = true) (hfree : ¬ Blocked c st) :
      Move st .fpgaResumes (enterNext c st)
  | newDataAvailable (hidle : st.stage = .idle) :
      Move st .newDataAvailable { st with
        stage :=
          if st.buffer.newDataAvailable st.registers then .available
          else .idle }
  | sendData (havailable : st.stage = .available) :
      Move st .sendData { st with
        stage := .sent
        sent := st.sent ++ [st.memory st.buffer.data] }
  | movePointer (hsent : st.stage = .sent) :
      Move st .movePointer { st with
        stage := .idle
        buffer := (st.buffer.movePointer st.registers).1
        registers := (st.buffer.movePointer st.registers).2 }

theorem move_of_step {st st' : State} {e : Event}
    (h : step c st e = some st') : Move c st e st' := by
  cases e with
  | fpgaCompletes =>
      simp only [step] at h
      split at h
      · contradiction
      · next hwaiting =>
          have hwaiting : st.waiting = false := by simpa using hwaiting
          split at h
          · next hblocked =>
              exact Option.some.inj h ▸ .completesAndWaits hwaiting hblocked
          · next hfree =>
              exact Option.some.inj h ▸ .completesAndEnters hwaiting hfree
  | fpgaResumes =>
      simp only [step] at h
      split at h
      · next hwait => exact Option.some.inj h ▸ .resumes hwait.1 hwait.2
      · contradiction
  | newDataAvailable =>
      simp only [step] at h
      split at h
      · next hidle => exact Option.some.inj h ▸ .newDataAvailable hidle
      · contradiction
  | sendData =>
      simp only [step] at h
      split at h
      · next havailable => exact Option.some.inj h ▸ .sendData havailable
      · contradiction
  | movePointer =>
      simp only [step] at h
      split at h
      · next hsent => exact Option.some.inj h ▸ .movePointer hsent
      · contradiction

/-- The number of frames that the FPGA has completed. -/
def completed (st : State) : ℕ :=
  if st.waiting then st.frame + 1 else st.frame

/-- Every send so far sent a complete frame, in increasing order, and at most
as many frames were sent as completed. -/
def SentInOrder (st : State) : Prop :=
  (∃ frames, st.sent = frames.map .full ∧ InOrder (completed st) frames) ∧
    st.sent.length ≤ completed st

/-- When a slot is sent, `BUFFER_FPGA_POINTER` has the address of another
one. -/
def SendsOtherSlot (st : State) (e : Event) : Prop :=
  e = .sendData →
    st.registers.getRegisterValue bufferFpgaPointer ≠
      st.buffer.pysicalAddressOf st.buffer.position

/-- When a slot is sent, the FPGA is not writing it: it is in another slot, or
waits there with its frame complete. -/
def SendsUnwrittenSlot (st : State) (e : Event) : Prop :=
  e = .sendData →
    st.registers.getRegisterValue bufferFpgaPointer ≠
      st.buffer.pysicalAddressOf st.buffer.position ∨ st.waiting

instance (st : State) (e : Event) : Decidable (SendsOtherSlot st e) :=
  inferInstanceAs (Decidable (_ → _))

instance (st : State) (e : Event) : Decidable (SendsUnwrittenSlot st e) :=
  inferInstanceAs (Decidable (_ → _))

/-! ## The ring -/

/-- The server stands at a slot of the ring, the FPGA publishes its slot, and
the last `length` frames are in their slots. -/
structure RingInv (st : State) : Prop where
  position_lt : st.buffer.position < c.length
  buffer_eq : st.buffer = c.buffer st.buffer.position
  fpgaPointer : st.registers.getRegisterValue bufferFpgaPointer =
    c.slotAddress (st.frame % c.length)
  current : st.memory (c.slotData (st.frame % c.length)) =
    if st.waiting then .full st.frame else .partly st.frame
  earlier : ∀ f, f < st.frame → st.frame < f + c.length →
    st.memory (c.slotData (f % c.length)) = .full f

variable {c}

/-- Entering the next slot overwrites only the frame that is `length` frames
old. -/
theorem ringInv_enterNext {st : State} (h : RingInv c st)
    (hcurrent : st.memory (c.slotData (st.frame % c.length)) =
      .full st.frame) :
    RingInv c (enterNext c st) := by
  refine ⟨h.position_lt, h.buffer_eq, ?_, ?_, ?_⟩
  · simp [enterNext]
  · simp [enterNext]
  · intro f hf hlt
    change f < st.frame + 1 at hf
    change st.frame + 1 < f + c.length at hlt
    have hslot : c.slotData (f % c.length) ≠
        c.slotData ((st.frame + 1) % c.length) := by
      rw [Ne, RingConfig.slotData_inj, mod_eq_mod_iff (by omega) (by omega)]
      omega
    have hold : st.memory (c.slotData (f % c.length)) = .full f := by
      rcases Nat.lt_succ_iff_lt_or_eq.mp hf with hf | rfl
      · exact h.earlier f hf (by omega)
      · exact hcurrent
    simpa [enterNext, hslot] using hold

theorem ringInv_completeFrame {st : State} (h : RingInv c st) :
    RingInv c { completeFrame c st with waiting := true } := by
  refine ⟨h.position_lt, h.buffer_eq, h.fpgaPointer, ?_, ?_⟩
  · simp [completeFrame]
  · intro f hf hlt
    change f < st.frame at hf
    change st.frame < f + c.length at hlt
    have hslot : c.slotData (f % c.length) ≠
        c.slotData (st.frame % c.length) := by
      rw [Ne, RingConfig.slotData_inj, mod_eq_mod_iff (by omega) hlt]
      omega
    simpa [completeFrame, hslot] using h.earlier f hf hlt

theorem ringInv_movePointer {st : State} (h : RingInv c st) :
    RingInv c { st with
      stage := .idle
      buffer := (st.buffer.movePointer st.registers).1
      registers := (st.buffer.movePointer st.registers).2 } := by
  rw [h.buffer_eq, RingConfig.movePointer_eq h.position_lt]
  refine ⟨Nat.mod_lt _ c.length_pos, rfl, ?_, h.current, h.earlier⟩
  simpa using h.fpgaPointer

theorem ringInv_step {st st' : State} {e : Event} (h : RingInv c st)
    (hstep : step c st e = some st') : RingInv c st' := by
  cases move_of_step c hstep with
  | completesAndWaits => exact ringInv_completeFrame h
  | completesAndEnters =>
      have hcomplete := ringInv_completeFrame h
      have henter := ringInv_enterNext hcomplete hcomplete.current
      exact henter
  | resumes hwaiting =>
      have hcurrent := h.current
      rw [if_pos hwaiting] at hcurrent
      exact ringInv_enterNext h hcurrent
  | newDataAvailable | sendData =>
      exact ⟨h.position_lt, h.buffer_eq, h.fpgaPointer, h.current, h.earlier⟩
  | movePointer => exact ringInv_movePointer h

theorem ringInv_init (registers : FPGARegisters) :
    RingInv c (init c registers) := by
  refine ⟨c.length_pos, rfl, ?_, ?_, ?_⟩
  · simp [init]
  · simp [init]
  · intro f hf
    exact absurd hf (Nat.not_lt_zero f)

/-! ## The order of the frames -/

/-- The slot that the next `send_data` takes. -/
def nextSlot (c : RingConfig) (st : State) : ℕ :=
  if st.stage = .sent then (st.buffer.position + 1) % c.length
  else st.buffer.position

/-- The frames sent so far are in order, and all older than the frame in the
slot that is sent next. -/
structure OrderInv (c : RingConfig) (st : State) : Prop extends
    RingInv c st where
  order : ∃ frames s, st.sent = frames.map .full ∧
    InOrder (completed st) frames ∧
    Latest c.length (nextSlot c st) st.frame s ∧ ∀ f ∈ frames, f < s

theorem OrderInv.sentInOrder {st : State} (h : OrderInv c st) :
    SentInOrder st := by
  obtain ⟨frames, s, hsent, hframes, -, -⟩ := h.order
  refine ⟨⟨frames, hsent, hframes⟩, ?_⟩
  rw [hsent, List.length_map]
  exact hframes.length_le

theorem orderInv_init (registers : FPGARegisters) :
    OrderInv c (init c registers) := by
  refine ⟨ringInv_init registers, [], 0, rfl, InOrder.nil _, ?_, by simp⟩
  have hlt : 0 < 0 + c.length := by
    have := c.length_pos
    omega
  exact ⟨Nat.zero_mod _, Nat.le_refl 0, hlt⟩

theorem completed_le (st : State) :
    st.frame ≤ completed st ∧ completed st ≤ st.frame + 1 := by
  unfold completed
  split <;> omega

/-- In a state of the ring, the FPGA pointer has the address of the server's
slot exactly when both are in the same slot. -/
theorem RingInv.fpgaPointer_eq_iff {st : State} (h : RingInv c st) :
    st.registers.getRegisterValue bufferFpgaPointer =
        st.buffer.pysicalAddressOf st.buffer.position ↔
      st.frame % c.length = st.buffer.position := by
  have hp : st.buffer.position ≤ c.length + 1 := by
    have := h.position_lt
    omega
  have haddr : st.buffer.pysicalAddressOf st.buffer.position =
      c.slotAddress st.buffer.position := by
    have hbuffer := RingConfig.pysicalAddressOf_buffer
      (p := st.buffer.position) hp
    rwa [← h.buffer_eq] at hbuffer
  rw [h.fpgaPointer, haddr, RingConfig.slotAddress_inj]

/-- The FPGA steps change neither the server nor what it has sent, and do not
make any slot older. -/
theorem orderInv_of_producer {st st' : State} (h : OrderInv c st)
    (hring : RingInv c st') (hstage : st'.stage = st.stage)
    (hbuffer : st'.buffer = st.buffer) (hsent : st'.sent = st.sent)
    (hcompleted : completed st ≤ completed st')
    (hframe : st'.frame = st.frame ∨ st'.frame = st.frame + 1) :
    OrderInv c st' := by
  obtain ⟨frames, s, hfull, hframes, hlatest, hold⟩ := h.order
  have hslot : nextSlot c st' = nextSlot c st := by
    simp [nextSlot, hstage, hbuffer]
  refine ⟨hring, ?_⟩
  rw [hsent, hslot]
  rcases hframe with hframe | hframe
  · rw [hframe]
    exact ⟨frames, s, hfull, hframes.mono hcompleted, hlatest, hold⟩
  · rw [hframe]
    obtain ⟨s', hlatest', hle⟩ := hlatest.producer_succ
    exact ⟨frames, s', hfull, hframes.mono hcompleted, hlatest',
      fun f hf => lt_of_lt_of_le (hold f hf) hle⟩

/-- Sending a slot that the FPGA is not in sends the latest frame there, which
is complete and newer than all before. -/
theorem orderInv_sendData {st : State} (h : OrderInv c st)
    (hstage : st.stage = .available)
    (hother : st.frame % c.length ≠ st.buffer.position) :
    OrderInv c { st with
      stage := .sent
      sent := st.sent ++ [st.memory st.buffer.data] } := by
  obtain ⟨frames, s, hfull, hframes, hlatest, hold⟩ := h.order
  have hslot : nextSlot c st = st.buffer.position := by
    simp [nextSlot, hstage]
  rw [hslot] at hlatest
  have hne : st.frame ≠ s := fun heq => hother (hlatest.mod_eq_iff.mpr heq)
  have hlt : s < st.frame := by
    have := hlatest.le
    omega
  have hcontent : st.memory st.buffer.data = .full s := by
    have hdata : st.buffer.data = c.slotData (s % c.length) := by
      rw [hlatest.slot, h.buffer_eq]
      rfl
    rw [hdata]
    exact h.earlier s hlt hlatest.lt
  have hdone : s < completed st := lt_of_lt_of_le hlt (completed_le st).1
  refine ⟨⟨h.position_lt, h.buffer_eq, h.fpgaPointer, h.current, h.earlier⟩,
    frames ++ [s], s + 1, ?_, hframes.concat hdone hold, ?_, ?_⟩
  · simp [hfull, hcontent]
  · exact hlatest.next_slot hne
  · intro f hf
    rcases List.mem_append.mp hf with hf | hf
    · have := hold f hf
      omega
    · rw [List.mem_singleton.mp hf]
      exact Nat.lt_succ_self s

/-- An answer of `newDataAvailable`, whatever it is, leaves `position` the next
slot to send. -/
theorem orderInv_newDataAvailable {st : State} (h : OrderInv c st)
    (hidle : st.stage = .idle) :
    OrderInv c { st with
      stage :=
        if st.buffer.newDataAvailable st.registers then .available
        else .idle } := by
  obtain ⟨frames, s, hfull, hframes, hlatest, hold⟩ := h.order
  refine ⟨⟨h.position_lt, h.buffer_eq, h.fpgaPointer, h.current, h.earlier⟩,
    frames, s, hfull, hframes, ?_, hold⟩
  have hslot : nextSlot c st = st.buffer.position := by
    simp [nextSlot, hidle]
  rw [hslot] at hlatest
  by_cases hanswer : st.buffer.newDataAvailable st.registers = true
  · simpa [nextSlot, hanswer] using hlatest
  · simpa [nextSlot, hanswer] using hlatest

theorem orderInv_movePointer {st : State} (h : OrderInv c st)
    (hsent : st.stage = .sent) :
    OrderInv c { st with
      stage := .idle
      buffer := (st.buffer.movePointer st.registers).1
      registers := (st.buffer.movePointer st.registers).2 } := by
  obtain ⟨frames, s, hfull, hframes, hlatest, hold⟩ := h.order
  refine ⟨ringInv_movePointer h.toRingInv, frames, s, hfull, hframes, ?_,
    hold⟩
  have hposition : (st.buffer.movePointer st.registers).1.position =
      (st.buffer.position + 1) % c.length := by
    rw [h.buffer_eq, RingConfig.movePointer_eq h.position_lt]
    rfl
  simpa [nextSlot, hsent, hposition] using hlatest

theorem orderInv_step {st st' : State} {e : Event} (h : OrderInv c st)
    (hother : SendsOtherSlot st e) (hstep : step c st e = some st') :
    OrderInv c st' := by
  have hring : RingInv c st' := ringInv_step h.toRingInv hstep
  cases move_of_step c hstep with
  | completesAndWaits hwaiting =>
      exact orderInv_of_producer h hring rfl rfl rfl
        (by simp [completed, completeFrame, hwaiting]) (Or.inl rfl)
  | completesAndEnters hwaiting =>
      exact orderInv_of_producer h hring rfl rfl rfl
        (by simp [completed, enterNext, completeFrame, hwaiting])
        (Or.inr rfl)
  | resumes hwaiting =>
      exact orderInv_of_producer h hring rfl rfl rfl
        (by simp [completed, enterNext, hwaiting]) (Or.inr rfl)
  | newDataAvailable hidle => exact orderInv_newDataAvailable h hidle
  | sendData havailable =>
      have hslot : st.frame % c.length ≠ st.buffer.position := fun heq =>
        hother rfl (h.fpgaPointer_eq_iff.mpr heq)
      exact orderInv_sendData h havailable hslot
  | movePointer hsent => exact orderInv_movePointer h hsent

/-- A slot that is sent while the FPGA writes it is sent incomplete. -/
theorem not_sentInOrder_of_writing {st st' : State} {e : Event}
    (h : RingInv c st) (hwriting : ¬ SendsUnwrittenSlot st e)
    (hstep : step c st e = some st') : ¬ SentInOrder st' := by
  simp only [SendsUnwrittenSlot, Classical.not_imp, not_or, not_not,
    Bool.not_eq_true] at hwriting
  obtain ⟨rfl, hpointer, hwaiting⟩ := hwriting
  have hslot : st.frame % c.length = st.buffer.position :=
    h.fpgaPointer_eq_iff.mp hpointer
  have hcontent : st.memory st.buffer.data = .partly st.frame := by
    have hdata : st.buffer.data = c.slotData (st.frame % c.length) := by
      rw [hslot, h.buffer_eq]
      rfl
    rw [hdata, h.current, hwaiting]
    rfl
  cases move_of_step c hstep with
  | sendData =>
      rintro ⟨⟨frames, hfull, -⟩, -⟩
      have hmem : SlotContent.partly st.frame ∈
          frames.map SlotContent.full := by
        rw [← hfull, hcontent]
        simp
      simp at hmem

theorem sentInOrder_of_sendsOtherSlot (registers : FPGARegisters)
    {es : List Event}
    (hsends : EachStep (step c) SendsOtherSlot (init c registers) es) :
    EachState (step c) SentInOrder (init c registers) es := by
  have hinv : EachState (step c) (OrderInv c) (init c registers) es :=
    eachState_of_eachStep
      (fun _ _ _ h hother hstep => orderInv_step h hother hstep)
      (orderInv_init registers) hsends
  exact hinv.mono fun _ h => h.sentInOrder

theorem sendsUnwrittenSlot_of_sentInOrder (registers : FPGARegisters)
    {es : List Event}
    (hsent : EachState (step c) SentInOrder (init c registers) es) :
    EachStep (step c) SendsUnwrittenSlot (init c registers) es :=
  eachStep_of_eachState
    (fun _ _ _ h hstep => ringInv_step h hstep)
    (fun _ _ _ h hwriting hstep =>
      not_sentInOrder_of_writing h hwriting hstep)
    (ringInv_init registers) hsent

/-- As long as the FPGA is in another slot at every send, the frames sent are
complete ones in increasing order.  A run that sends a slot while it is written
does not have this. -/
theorem frames_in_order (c : RingConfig) (registers : FPGARegisters)
    (es : List Event) :
    (EachStep (step c) SendsOtherSlot (init c registers) es →
        EachState (step c) SentInOrder (init c registers) es) ∧
      (EachState (step c) SentInOrder (init c registers) es →
        EachStep (step c) SendsUnwrittenSlot (init c registers) es) :=
  ⟨sentInOrder_of_sendsOtherSlot registers,
    sendsUnwrittenSlot_of_sentInOrder registers⟩

/-- The server sends frame 0 once the FPGA is two slots ahead. -/
theorem frames_in_order_cameraRing :
    EachState (step cameraRing) SentInOrder
      (init cameraRing ⟨fun _ => 0⟩)
      [.fpgaCompletes, .fpgaCompletes, .newDataAvailable, .sendData,
        .movePointer] :=
  (frames_in_order cameraRing ⟨fun _ => 0⟩ _).1 (by decide)

/-- The first answer of `newDataAvailable` after start-up makes the server send
frame 0 while the FPGA is writing it. -/
theorem cameraRing_sends_unfinished_frame :
    ¬ ∀ c : RingConfig, 2 ≤ c.length → ∀ registers es,
      EachState (step c) SentInOrder (init c registers) es := by
  intro hall
  have hsent := hall cameraRing (by decide) ⟨fun _ => 0⟩
    [.newDataAvailable, .sendData]
  have hunwritten := sendsUnwrittenSlot_of_sentInOrder _ hsent
  revert hunwritten
  decide

end NetworkExperiments.Visensor.FrameOrder
