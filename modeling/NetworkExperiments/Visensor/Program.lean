import NetworkExperiments.Visensor.CameraPipeline
import NetworkExperiments.Visensor.MT9V034

/-!
# The visensor program

This file models `main` of the visensor program around its camera loop: the
constructor of the camera, `power_on`, the set-up of the two servers, which may
throw, the loop, and what follows an exception.  An exception in the loop is
caught, and the camera is powered off, once by `main` and once by its
destructor.  An exception in the thread that accepts the clients of both
servers is caught by nobody and terminates the program.

The FPGA goes on by itself while bit 0 of `CONTROL` enables it, so the registers
decide what it does to the memory.  `program_controls_camera` says what they contain in
each phase.
-/

namespace NetworkExperiments.Visensor.Program

open EventSystem FrameOrder I2C

/-- How far `main` has come. -/
inductive Phase
  | constructed
  | poweredOn
  | serving
  | caught
  | poweredOff
  | destroyed
  | terminated
  deriving DecidableEq, Repr

/-- The program with the FPGA, and the I2C bus with the sensor.  `printed` is
what `power_on` has printed, and `inTime` whether its loops were in time. -/
structure State (σ : Type*) where
  phase : Phase
  pipeline : CameraPipeline.State
  configServer : TcpServer
  bus : Clocked σ
  printed : List (UInt8 × Int16)
  inTime : Bool

/-- The phases after `power_on` in which the camera has not been powered
off. -/
def Phase.capturing : Phase → Bool
  | .poweredOn | .serving | .caught | .terminated => true
  | .constructed | .poweredOff | .destroyed => false

/-- The phase after a step of a thread, in which an exception may have left the
handler of a server. -/
def Phase.after : Phase → Bool → Phase
  | .serving, true => .terminated
  | phase, _ => phase

/-- What `CONTROL` contains: until `power_on` writes it, what it contained
before the program. -/
def Phase.controlValue (registers : FPGARegisters) (phase : Phase) : ℤ :=
  if phase = .constructed then registers.getRegisterValue control
  else if phase.capturing then 1
  else 0

/-- What happens: a function of `main` returns or throws, the FPGA, the loop or
the data server goes on, or an accept of the config server completes. -/
inductive Event (c : RingConfig)
  | powerOn (data : Int16)
  | setUp
  | setUpThrows
  | goesOn (e : CameraPipeline.Event c)
  | configAccepts (clientPresent : Bool)
  | configAcceptFails
  | loopThrows
  | powerOff
  | destroy

/-- The FPGA's registers are written. -/
def setRegisters {σ : Type*} (st : State σ) (registers : FPGARegisters) :
    State σ :=
  { st with
    pipeline := { st.pipeline with
      ring := { st.pipeline.ring with registers := registers } } }

section Step

variable {σ : Type*} (slave : Slave σ) (delay : ℕ → ℕ) (host : Host)
  (c : RingConfig) (picture : ℕ → CameraPipeline.Picture c)

/-- The FPGA runs while bit 0 of `CONTROL` enables it, and the threads of the
program while it serves. -/
def Runs (st : State σ) (e : CameraPipeline.Event c) : Prop :=
  e.isFpga = true ∧
      st.pipeline.ring.registers.getRegisterValue control % 2 = 1 ∨
    e.isFpga = false ∧ st.phase = .serving

instance (st : State σ) (e : CameraPipeline.Event c) :
    Decidable (Runs c st e) :=
  inferInstanceAs (Decidable (_ ∨ _))

/-- An accept of the config server completes. -/
def configStep (st : State σ) (e : TcpServer.Event) : Option (State σ) :=
  if st.phase = .serving then
    (TcpServer.step host st.configServer e).map fun server =>
      { st with
        configServer := server
        phase := st.phase.after server.uncaught }
  else none

def init (s : σ) (registers : FPGARegisters) : State σ where
  phase := .constructed
  pipeline := CameraPipeline.init c registers
  configServer := TcpServer.init
  bus := ⟨.idle s, 0⟩
  printed := []
  inTime := false

def step (st : State σ) : Event c → Option (State σ)
  | .powerOn data =>
      if st.phase = .constructed then
        let result := MT9V034.powerOn (window slave delay) st.bus data
          st.pipeline.ring.registers
        some { setRegisters st result.registers with
          phase := .poweredOn
          bus := result.state
          printed := result.printed
          inTime := result.inTime }
      else none
  | .setUp =>
      if st.phase = .poweredOn then some { st with phase := .serving }
      else none
  | .setUpThrows =>
      if st.phase = .poweredOn then some { st with phase := .caught }
      else none
  | .goesOn e =>
      if Runs c st e then
        (CameraPipeline.step host c picture st.pipeline e).map fun pipeline =>
          { st with
            pipeline := pipeline
            phase := st.phase.after pipeline.server.uncaught }
      else none
  | .configAccepts clientPresent =>
      configStep host st (.acceptSucceeds clientPresent)
  | .configAcceptFails => configStep host st .acceptFails
  | .loopThrows =>
      if st.phase = .serving then some { st with phase := .caught } else none
  | .powerOff =>
      if st.phase = .caught then
        some { setRegisters st
            (MT9V034.powerOff st.pipeline.ring.registers) with
          phase := .poweredOff }
      else none
  | .destroy =>
      if st.phase = .poweredOff then
        some { setRegisters st
            (MT9V034.powerOff st.pipeline.ring.registers) with
          phase := .destroyed }
      else none

end Step

/-! ## The property -/

/-- `BUFFER_LINUX_POINTER` keeps the FPGA out of the slot of the server, or of
none as long as the loop has not moved on once. -/
def LinuxPointer (c : RingConfig) (ring : FrameOrder.State) : Prop :=
  ring.registers.getRegisterValue bufferLinuxPointer =
      c.slotAddress ring.buffer.position ∨
    ring.registers.getRegisterValue bufferLinuxPointer =
      c.slotAddress (c.length + 1)

/-- The FPGA has been told the place and the size of the ring, and is enabled
after `power_on` until the camera is powered off, and then disabled.  If the bus was in time, the sensor will have the values that
`power_on` writes, which has printed them. -/
structure Controlled {σ : Type*} (slave : Slave σ) (s : σ) (c : RingConfig)
    (registers : FPGARegisters) (st : State σ) : Prop where
  control_eq : st.pipeline.ring.registers.getRegisterValue control =
    st.phase.controlValue registers
  address_eq : st.pipeline.ring.registers.getRegisterValue bufferAddress =
    c.start
  size_eq : st.pipeline.ring.registers.getRegisterValue bufferSize =
    c.dataSize * c.length
  linuxPointer : LinuxPointer c st.pipeline.ring
  sensor : st.phase ≠ .constructed → st.inTime = true →
    MT9V034.WillHave slave st.bus
        (MT9V034.store (slave.registers s) MT9V034.written) ∧
      st.printed =
        [(0xB2, 0x0000), (0xB6, 0x0001), (0xB1, 0x0000), (0x20, 0x03C7),
          (0x7F, (slave.registers s 0x7F).toInt16)]

/-! ## The registers of the ring -/

variable {c : RingConfig}

/-- A step of the ring writes the two pointers only, and the one of the server
as it should. -/
theorem registers_step {ring ring' : FrameOrder.State} {e : FrameOrder.Event}
    (h : RingInv c ring) (hlinux : LinuxPointer c ring)
    (hstep : FrameOrder.step c ring e = some ring') :
    LinuxPointer c ring' ∧
      ∀ offset, offset ≠ bufferFpgaPointer → offset ≠ bufferLinuxPointer →
        ring'.registers.getRegisterValue offset =
          ring.registers.getRegisterValue offset := by
  cases move_of_step c hstep with
  | completesAndWaits | newDataAvailable | sendData =>
      exact ⟨hlinux, fun _ _ _ => rfl⟩
  | completesAndEnters | resumes =>
      refine ⟨?_, fun offset hfpga _ => FPGARegisters.get_set_of_ne _ _ hfpga⟩
      rw [LinuxPointer, enterNext, FPGARegisters.get_linux_set_fpga]
      exact hlinux
  | movePointer =>
      rw [LinuxPointer, h.buffer_eq, RingConfig.movePointer_eq h.position_lt]
      exact ⟨Or.inl (FPGARegisters.get_set_self _ _ _),
        fun offset _ hoffset => FPGARegisters.get_set_of_ne _ _ hoffset⟩

theorem ringInv_registers {ring : FrameOrder.State} (h : RingInv c ring)
    {registers : FPGARegisters}
    (hpointer : registers.getRegisterValue bufferFpgaPointer =
      ring.registers.getRegisterValue bufferFpgaPointer) :
    RingInv c { ring with registers := registers } :=
  ⟨h.position_lt, h.buffer_eq, hpointer.trans h.fpgaPointer, h.current,
    h.earlier⟩

/-- The ring is in order whatever the program does. -/
structure Invariant {σ : Type*} (slave : Slave σ) (s : σ) (c : RingConfig)
    (registers : FPGARegisters) (st : State σ) : Prop
    extends Controlled slave s c registers st where
  ring : RingInv c st.pipeline.ring
  start : st.phase = .constructed →
    MT9V034.WillHave slave st.bus (slave.registers s)

theorem toInt_ringSize (c : RingConfig) :
    CInt.toInt ((c.dataSize : ℤ) * c.length) = c.dataSize * c.length := by
  have hspan := c.span_lt
  have hmul : c.dataSize * c.length ≤ c.dataSize * (c.length + 1) :=
    Nat.mul_le_mul_left _ (Nat.le_succ _)
  have hcast : ((c.dataSize * c.length : ℕ) : ℤ) =
      (c.dataSize : ℤ) * c.length := by
    push_cast
    rfl
  exact CInt.toInt_eq_self (by omega) (by omega)

theorem invariant_init {σ : Type*} (slave : Slave σ) (s : σ)
    (registers : FPGARegisters) :
    Invariant slave s c registers (init c s registers) := by
  have hring : RingInv c (FrameOrder.init c registers) :=
    ringInv_init registers
  have hget : ∀ offset, offset ≠ bufferFpgaPointer →
      (FrameOrder.init c registers).registers.getRegisterValue offset =
        (mt9v034 c registers).2.getRegisterValue offset :=
    fun offset h => FPGARegisters.get_set_of_ne _ _ h
  refine ⟨⟨?_, ?_, ?_, Or.inr ?_, fun h => absurd rfl h⟩, hring,
    fun _ => ⟨s, rfl, rfl⟩⟩
  · refine (hget control (by decide)).trans ?_
    rw [mt9v034, FPGARegisters.get_set_of_ne _ _ (by decide),
      FPGARegisters.get_set_of_ne _ _ (by decide),
      FPGARegisters.get_set_of_ne _ _ (by decide)]
    rfl
  · refine (hget bufferAddress (by decide)).trans ?_
    rw [mt9v034, FPGARegisters.get_set_of_ne _ _ (by decide),
      FPGARegisters.get_set_of_ne _ _ (by decide), FPGARegisters.get_set_self]
    rfl
  · refine (hget bufferSize (by decide)).trans ?_
    rw [mt9v034, FPGARegisters.get_set_of_ne _ _ (by decide),
      FPGARegisters.get_set_self, toInt_ringSize]
  · exact (hget bufferLinuxPointer (by decide)).trans
      (mt9v034_linuxPointer c registers)

/-! ## The steps of the program -/

section Steps

variable {σ : Type*} {slave : Slave σ} {s : σ} {registers : FPGARegisters}
  {st : State σ}

theorem controlValue_of_ne {phase : Phase} (h : phase ≠ .constructed) :
    phase.controlValue registers = if phase.capturing then 1 else 0 := by
  rw [Phase.controlValue, if_neg h]

theorem invariant_phase (h : Invariant slave s c registers st) {phase : Phase}
    (hold : st.phase ≠ .constructed) (hphase : phase ≠ .constructed)
    (hcapturing : phase.capturing = st.phase.capturing) :
    Invariant slave s c registers { st with phase := phase } := by
  refine ⟨⟨h.control_eq.trans ?_, h.address_eq, h.size_eq, h.linuxPointer,
    fun _ => h.sensor hold⟩, h.ring, fun hstart => absurd hstart hphase⟩
  rw [controlValue_of_ne hold, controlValue_of_ne hphase, hcapturing]

theorem invariant_after (h : Invariant slave s c registers st)
    (uncaught : Bool) :
    Invariant slave s c registers
      { st with phase := st.phase.after uncaught } := by
  by_cases hended : st.phase = .serving ∧ uncaught = true
  · obtain ⟨hserving, rfl⟩ := hended
    rw [hserving]
    exact invariant_phase h (by simp [hserving]) nofun (by rw [hserving]; rfl)
  · have hsame : st.phase.after uncaught = st.phase := by
      unfold Phase.after
      split
      · next hserving => exact absurd ⟨hserving, rfl⟩ hended
      · rfl
    rw [hsame]
    exact h

theorem get_setControl (registers : FPGARegisters) (value : ℤ) {offset : ℕ}
    (h : offset ≠ control) :
    (registers.setRegisterValue control value).getRegisterValue offset =
      registers.getRegisterValue offset :=
  FPGARegisters.get_set_of_ne _ _ h

theorem invariant_powerOff (h : Invariant slave s c registers st) {phase : Phase}
    (hold : st.phase ≠ .constructed) (hphase : phase ≠ .constructed)
    (hcapturing : phase.capturing = false) :
    Invariant slave s c registers { setRegisters st
      (MT9V034.powerOff st.pipeline.ring.registers) with phase := phase } := by
  refine ⟨⟨?_, (get_setControl _ _ (by decide)).trans h.address_eq,
    (get_setControl _ _ (by decide)).trans h.size_eq,
    h.linuxPointer.imp ?_ ?_, fun _ => h.sensor hold⟩,
    ringInv_registers h.ring (get_setControl _ _ (by decide)),
    fun hstart => absurd hstart hphase⟩
  · rw [controlValue_of_ne hphase, hcapturing]
    exact FPGARegisters.get_set_self _ _ _
  · exact (get_setControl _ _ (by decide)).trans
  · exact (get_setControl _ _ (by decide)).trans

/-- After `power_on` the camera is enabled, and the sensor set up if the bus was
in time. -/
theorem invariant_powerOn (h : Invariant slave s c registers st)
    {result : MT9V034.PowerOn (Clocked σ)}
    (hregisters : result.registers =
      st.pipeline.ring.registers.setRegisterValue control 1)
    (hsensor : result.inTime = true →
      MT9V034.WillHave slave result.state
          (MT9V034.store (slave.registers s) MT9V034.written) ∧
        result.printed =
          [(0xB2, 0x0000), (0xB6, 0x0001), (0xB1, 0x0000), (0x20, 0x03C7),
            (0x7F, (slave.registers s 0x7F).toInt16)]) :
    Invariant slave s c registers { setRegisters st result.registers with
      phase := .poweredOn
      bus := result.state
      printed := result.printed
      inTime := result.inTime } := by
  rw [hregisters]
  refine ⟨⟨FPGARegisters.get_set_self _ _ _,
    (get_setControl _ _ (by decide)).trans h.address_eq,
    (get_setControl _ _ (by decide)).trans h.size_eq,
    h.linuxPointer.imp ?_ ?_, fun _ => hsensor⟩,
    ringInv_registers h.ring (get_setControl _ _ (by decide)), nofun⟩
  · exact (get_setControl _ _ (by decide)).trans
  · exact (get_setControl _ _ (by decide)).trans

/-- What goes on by itself touches neither the configuration of the ring nor the
sensor. -/
theorem invariant_goesOn {host : Host}
    {picture : ℕ → CameraPipeline.Picture c} {e : CameraPipeline.Event c}
    {pipeline : CameraPipeline.State} (h : Invariant slave s c registers st)
    (hstep : CameraPipeline.step host c picture st.pipeline e =
      some pipeline) :
    Invariant slave s c registers { st with pipeline := pipeline } := by
  have hrest : RingInv c pipeline.ring ∧ LinuxPointer c pipeline.ring ∧
      ∀ offset, offset ≠ bufferFpgaPointer → offset ≠ bufferLinuxPointer →
        pipeline.ring.registers.getRegisterValue offset =
          st.pipeline.ring.registers.getRegisterValue offset := by
    rcases CameraPipeline.ring_step hstep with hsame | ⟨e', hring⟩
    · rw [hsame]
      exact ⟨h.ring, h.linuxPointer, fun _ _ _ => rfl⟩
    · exact ⟨ringInv_step h.ring hring,
        registers_step h.ring h.linuxPointer hring⟩
  obtain ⟨hring, hlinux, hregisters⟩ := hrest
  exact ⟨⟨(hregisters control (by decide) (by decide)).trans h.control_eq,
    (hregisters bufferAddress (by decide) (by decide)).trans h.address_eq,
    (hregisters bufferSize (by decide) (by decide)).trans h.size_eq,
    hlinux, h.sensor⟩, hring, h.start⟩

/-- Nor do the clients of the config server. -/
theorem invariant_configStep {host : Host} {st' : State σ}
    {e : TcpServer.Event} (h : Invariant slave s c registers st)
    (hstep : configStep host st e = some st') :
    Invariant slave s c registers st' := by
  unfold configStep at hstep
  split at hstep
  · obtain ⟨server, -, rfl⟩ := Option.map_eq_some_iff.mp hstep
    have hserver : Invariant slave s c registers
        { st with configServer := server } :=
      ⟨⟨h.control_eq, h.address_eq, h.size_eq, h.linuxPointer, h.sensor⟩,
        h.ring, h.start⟩
    exact invariant_after hserver server.uncaught
  · contradiction

theorem invariant_step {delay : ℕ → ℕ} {host : Host}
    {picture : ℕ → CameraPipeline.Picture c} {st' : State σ} {e : Event c}
    (h : Invariant slave s c registers st)
    (hstep : step slave delay host c picture st e = some st') :
    Invariant slave s c registers st' := by
  cases e with
  | powerOn data =>
      simp only [step] at hstep
      split at hstep
      · next hstart =>
          obtain rfl := Option.some.inj hstep
          exact invariant_powerOn h rfl
            (MT9V034.powerOn_sensor (h.start hstart) data _)
      · contradiction
  | setUp | setUpThrows | loopThrows =>
      simp only [step] at hstep
      split at hstep
      · next hphase =>
          obtain rfl := Option.some.inj hstep
          exact invariant_phase h (by simp [hphase]) nofun (by rw [hphase]; rfl)
      · contradiction
  | goesOn e =>
      simp only [step] at hstep
      split at hstep
      · obtain ⟨pipeline, hpipeline, rfl⟩ := Option.map_eq_some_iff.mp hstep
        exact invariant_after (invariant_goesOn h hpipeline) _
      · contradiction
  | configAccepts | configAcceptFails => exact invariant_configStep h hstep
  | powerOff | destroy =>
      simp only [step] at hstep
      split at hstep
      · next hphase =>
          obtain rfl := Option.some.inj hstep
          exact invariant_powerOff h (by simp [hphase]) nofun rfl
      · contradiction

end Steps

end NetworkExperiments.Visensor.Program
