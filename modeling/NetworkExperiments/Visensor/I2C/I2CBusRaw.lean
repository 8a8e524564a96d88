import NetworkExperiments.Visensor.I2C.Slave

/-!
# I2CBusRaw

This file models `I2CBusRaw::writeReg` and `I2CBusRaw::readReg`, which drive
the I2C core through its registers.  They are functions of the window to these
registers, whatever is behind it; time passes with every access.
-/

namespace NetworkExperiments.Visensor.I2C

/-- `DevMem` over a device with state `σ`: `read_word` and `write_word` at an
offset. -/
structure Window (σ : Type*) where
  readWord : σ → ℕ → ℕ × σ
  writeWord : σ → ℕ → ℕ → σ

namespace I2CBusRaw

/-- `LOWBYTE(v)`. -/
def lowbyte (v : Int16) : UInt8 := UInt8.ofNat (CInt.toSize 8 v.toInt)

/-- `HIGHBYTE(v)`. -/
def highbyte (v : Int16) : UInt8 :=
  UInt8.ofNat (CInt.toSize 32 v.toInt >>> 8)

/-- The conditions on the status register that the calls wait for to end. -/
def txNotEmpty (status : ℕ) : Bool := !status.testBit 7

def busy (status : ℕ) : Bool := status.testBit 2

def rxEmpty (status : ℕ) : Bool := status.testBit 6

def deviceAddress : ℕ := 0x48

/-- What a call leaves: its return value, the value of `data`, and the state of
the device.  `inTime` records whether every loop has ended because its
condition had; the code does not know. -/
structure Result (σ : Type*) where
  ret : ℤ
  data : Int16
  inTime : Bool
  state : σ

section Calls

variable {σ : Type*} (window : Window σ)

/-- `for(int i = 0; waiting(status) && i < 10; i++)`, with the number of
iterations left: whether the last status read ended it, and the state then.
The condition is read once more after the last iteration. -/
def poll (waiting : ℕ → Bool) : ℕ → σ → Bool × σ
  | 0, s =>
      let status := window.readWord s 0x104
      (!waiting status.1, status.2)
  | n + 1, s =>
      let status := window.readWord s 0x104
      if waiting status.1 then poll waiting n status.2 else (true, status.2)

/-- What both calls begin with: wait for the TX FIFO and the bus, and look at
the TX FIFO once more.  The result is whether the call goes on, whether the
loops were in time, and the state. -/
def waitReady (s : σ) : Bool × Bool × σ :=
  let tx := poll window txNotEmpty 10 s
  let bus := poll window busy 10 tx.2
  let status := window.readWord bus.2 0x104
  (!txNotEmpty status.1, tx.1 && bus.1, status.2)

def writeReg (s : σ) (regAddr : UInt8) (data : Int16) : Result σ :=
  let ready := waitReady window s
  if ready.1 then
    let s := window.writeWord ready.2.2 0x108
      (deviceAddress <<< 1 ||| 1 <<< 8)
    let s := window.writeWord s 0x108 regAddr.toNat
    let s := window.writeWord s 0x108 (highbyte data).toNat
    let s := window.writeWord s 0x108 ((lowbyte data).toNat ||| 1 <<< 9)
    ⟨0, data, ready.2.1, s⟩
  else ⟨1, data, ready.2.1, ready.2.2⟩

/-- The words of a read, with the loops between them. -/
def sendRead (s : σ) (regAddr : UInt8) : Bool × σ :=
  let s := window.writeWord s 0x108 (deviceAddress <<< 1 ||| 1 <<< 8)
  let s := window.writeWord s 0x108 regAddr.toNat
  let sent := poll window txNotEmpty 10 s
  let s := window.writeWord sent.2 0x108
    (deviceAddress <<< 1 ||| 0x01 ||| 1 <<< 8)
  let restarted := poll window txNotEmpty 10 s
  (sent.1 && restarted.1,
    window.writeWord restarted.2 0x108 (0x02 ||| 1 <<< 9))

/-- Wait for a byte in the RX FIFO and read it. -/
def readByte (s : σ) : Bool × ℕ × σ :=
  let arrived := poll window rxEmpty 10 s
  (arrived.1, window.readWord arrived.2 0x10C)

def readReg (s : σ) (regAddr : UInt8) (data : Int16) : Result σ :=
  let ready := waitReady window s
  if ready.1 then
    let sent := sendRead window ready.2.2 regAddr
    let hi := readByte window sent.2
    let lo := readByte window hi.2.2
    ⟨0, Int16.ofNat (lo.2.1 ||| hi.2.1 <<< 8),
      ready.2.1 && sent.1 && hi.1 && lo.1, lo.2.2⟩
  else ⟨1, data, ready.2.1, ready.2.2⟩

end Calls

/-! ## The bytes of a value -/

theorem toInt_emod (v : Int16) : v.toInt % 2 ^ 16 = v.toUInt16.toNat := by
  have hv : v.toInt = Int.bmod v.toUInt16.toNat (2 ^ 16) :=
    BitVec.toInt_eq_toNat_bmod v.toBitVec
  have hmod : Int.bmod v.toUInt16.toNat (2 ^ 16) % ((2 ^ 16 : ℕ) : ℤ) =
      v.toUInt16.toNat % ((2 ^ 16 : ℕ) : ℤ) := Int.bmod_emod
  have hlt := UInt16.toNat_lt v.toUInt16
  rw [← hv] at hmod
  omega

theorem highbyte_eq (v : Int16) : highbyte v = highByte v.toUInt16 := by
  have hv := toInt_emod v
  apply UInt8.toNat_inj.mp
  simp only [highbyte, highByte, CInt.toSize, UInt8.toNat_ofNat',
    Nat.shiftRight_eq_div_pow]
  omega

theorem lowbyte_eq (v : Int16) : lowbyte v = lowByte v.toUInt16 := by
  have hv := toInt_emod v
  apply UInt8.toNat_inj.mp
  simp only [lowbyte, lowByte, CInt.toSize, UInt8.toNat_ofNat']
  omega

/-- The value that is put together from two bytes read. -/
theorem ofNat_bytes (hi lo : UInt8) :
    Int16.ofNat (lo.toNat ||| hi.toNat <<< 8) = (ofBytes hi lo).toInt16 := by
  have hor : lo.toNat ||| hi.toNat <<< 8 = hi.toNat * 2 ^ 8 + lo.toNat := by
    rw [Nat.or_comm, ← Nat.shiftLeft_add_eq_or_of_lt (UInt8.toNat_lt lo),
      Nat.shiftLeft_eq]
  rw [hor]
  rfl

end I2CBusRaw

end NetworkExperiments.Visensor.I2C
