import NetworkExperiments.Visensor.I2C.RegisterFile
import NetworkExperiments.Visensor.SharedRingBuffer

/-!
# The camera driver

This file models `power_on` and `power_off` of `MT9V034`.  `power_on` writes
five registers of the sensor over the I2C bus, reads five registers back and
prints them, and starts the FPGA.  It does not look at what the calls of the
bus return, and the variable that the values are read into is not set before
the first of them.
-/

namespace NetworkExperiments.Visensor

open I2C

/-- `CONTROL`, with the bit that makes the FPGA read the camera. -/
def control : ℕ := 0x0000

namespace MT9V034

/-- The registers that `power_on` writes, with their values. -/
def written : List (UInt8 × Int16) :=
  [(0xB2, 0x0000), (0xB6, 0x0001), (0xB1, 0x0000), (0x20, 0x03C7),
    (0x0C, 0x0001)]

/-- The registers that `power_on` reads back. -/
def checked : List UInt8 := [0xB2, 0xB6, 0xB1, 0x20, 0x7F]

section Calls

variable {σ : Type*} (window : Window σ)

/-- One `writeReg` after the other; whether all loops were in time, and the
state of the device. -/
def writeRegs : List (UInt8 × Int16) → σ → Bool × σ
  | [], s => (true, s)
  | (regAddr, data) :: writes, s =>
      let result := I2CBusRaw.writeReg window s regAddr data
      let rest := writeRegs writes result.state
      (result.inTime && rest.1, rest.2)

/-- One `readReg` after the other, into the same variable; what is printed,
whether all loops were in time, and the state of the device. -/
def readRegs : List UInt8 → σ → Int16 → List (UInt8 × Int16) × Bool × σ
  | [], s, _ => ([], true, s)
  | regAddr :: reads, s, data =>
      let result := I2CBusRaw.readReg window s regAddr data
      let rest := readRegs reads result.state result.data
      ((regAddr, result.data) :: rest.1, result.inTime && rest.2.1, rest.2.2)

/-- What `power_on` leaves. -/
structure PowerOn (σ : Type*) where
  printed : List (UInt8 × Int16)
  inTime : Bool
  state : σ
  registers : FPGARegisters

def powerOn (s : σ) (data : Int16) (registers : FPGARegisters) : PowerOn σ :=
  let writes := writeRegs window written s
  let reads := readRegs window checked writes.2 data
  { printed := reads.1
    inTime := writes.1 && reads.2.1
    state := reads.2.2
    registers := registers.setRegisterValue control 0x01 }

end Calls

def powerOff (registers : FPGARegisters) : FPGARegisters :=
  registers.setRegisterValue control 0x00

/-! ## The sensor after the calls -/

section Sensor

variable {σ : Type*} {slave : Slave σ} {delay : ℕ → ℕ}

/-- The transfers will be over then, with the slave in a state whose registers
have these values. -/
def WillHave (slave : Slave σ) (s : Clocked σ) (values : UInt8 → UInt16) :
    Prop :=
  ∃ t, s.core.final slave = ⟨.idle, [], t⟩ ∧ slave.registers t = values

/-- The registers after a list of writes. -/
def store (values : UInt8 → UInt16) (writes : List (UInt8 × Int16)) :
    UInt8 → UInt16 :=
  writes.foldl (fun values w => Function.update values w.1 w.2.toUInt16) values

theorem willHave_writeReg {s : Clocked σ} {values : UInt8 → UInt16}
    (h : WillHave slave s values) (regAddr : UInt8) (data : Int16)
    (htime : (I2CBusRaw.writeReg (window slave delay) s regAddr
      data).inTime = true) :
    WillHave slave (I2CBusRaw.writeReg (window slave delay) s regAddr
      data).state (Function.update values regAddr data.toUInt16) := by
  obtain ⟨t, hfinal, rfl⟩ := h
  exact ⟨_, (writeReg_spec hfinal regAddr data htime).2,
    registers_write slave t regAddr data⟩

theorem willHave_readReg {s : Clocked σ} {values : UInt8 → UInt16}
    (h : WillHave slave s values) (regAddr : UInt8) (data : Int16)
    (htime : (I2CBusRaw.readReg (window slave delay) s regAddr
      data).inTime = true) :
    (I2CBusRaw.readReg (window slave delay) s regAddr data).data =
        (values regAddr).toInt16 ∧
      WillHave slave (I2CBusRaw.readReg (window slave delay) s regAddr
        data).state values := by
  obtain ⟨t, hfinal, rfl⟩ := h
  obtain ⟨-, hdata, hsettled⟩ := readReg_spec hfinal regAddr data htime
  exact ⟨hdata, _, hsettled.final_eq, slave.registers_writeRead t regAddr⟩

/-- Writes that are in time are stored, the last one to a register counts. -/
theorem willHave_writeRegs {writes : List (UInt8 × Int16)} {s : Clocked σ}
    {values : UInt8 → UInt16} (h : WillHave slave s values)
    (htime : (writeRegs (window slave delay) writes s).1 = true) :
    WillHave slave (writeRegs (window slave delay) writes s).2
      (store values writes) := by
  induction writes generalizing s values with
  | nil => exact h
  | cons w writes ih =>
      obtain ⟨hfirst, hrest⟩ := Bool.and_eq_true_iff.mp htime
      exact ih (willHave_writeReg h w.1 w.2 hfirst) hrest

/-- Reads that are in time print the registers, and change none. -/
theorem willHave_readRegs {reads : List UInt8} {s : Clocked σ}
    {values : UInt8 → UInt16} (h : WillHave slave s values) (data : Int16)
    (htime : (readRegs (window slave delay) reads s data).2.1 = true) :
    (readRegs (window slave delay) reads s data).1 =
        reads.map (fun regAddr => (regAddr, (values regAddr).toInt16)) ∧
      WillHave slave (readRegs (window slave delay) reads s data).2.2
        values := by
  induction reads generalizing s data with
  | nil => exact ⟨rfl, h⟩
  | cons regAddr reads ih =>
      obtain ⟨hfirst, hrest⟩ := Bool.and_eq_true_iff.mp htime
      obtain ⟨hdata, hvalues⟩ := willHave_readReg h regAddr data hfirst
      obtain ⟨hprinted, hlast⟩ := ih hvalues _ hrest
      refine ⟨?_, hlast⟩
      rw [List.map_cons, ← hprinted, ← hdata]
      rfl

/-- With the bus in time, the sensor will have the values written, and the
values printed are these and the test pattern register as it was. -/
theorem powerOn_sensor {s : Clocked σ} {values : UInt8 → UInt16}
    (h : WillHave slave s values) (data : Int16) (registers : FPGARegisters)
    (htime : (powerOn (window slave delay) s data registers).inTime = true) :
    WillHave slave (powerOn (window slave delay) s data registers).state
        (store values written) ∧
      (powerOn (window slave delay) s data registers).printed =
        [(0xB2, 0x0000), (0xB6, 0x0001), (0xB1, 0x0000), (0x20, 0x03C7),
          (0x7F, (values 0x7F).toInt16)] := by
  obtain ⟨hwrites, hreads⟩ := Bool.and_eq_true_iff.mp htime
  obtain ⟨hprinted, hvalues⟩ :=
    willHave_readRegs (willHave_writeRegs h hwrites) data hreads
  refine ⟨hvalues, hprinted.trans ?_⟩
  simp [checked, store, written, Function.update_apply]

end Sensor

end MT9V034

end NetworkExperiments.Visensor
