import NetworkExperiments.Support.ByteOrder
import NetworkExperiments.Visensor.I2C.I2CBusRaw

/-!
# I2CBus

This file models `I2CBus::writeReg` and `I2CBus::readReg`, which use the I2C
device file of Linux.  `write` and `read` on it are transfers of their own, and
the `I2C_RDWR` call is a write with a repeated start and a read.

The two calls have the interface and the comments of those of `I2CBusRaw`, but
`writeReg` sends two of the three bytes of its buffer and then reads two bytes,
and `readReg` receives into the memory of the value.
-/

namespace NetworkExperiments.Visensor.I2C

/-- The value of an `int16_t` in whose memory two bytes have been received. -/
def loadInt16 : ByteOrder → UInt8 → UInt8 → Int16
  | .little, b, b' => (ofBytes b' b).toInt16
  | .big, b, b' => (ofBytes b b').toInt16

namespace I2CBus

variable {σ : Type*} (slave : Slave σ)

/-- `writeReg`: the value returned and the slave, or `none` when a failed
system call ends the program. -/
def writeReg (writeOk readOk : Bool) (s : σ) (regAddr : UInt8)
    (data : Int16) : Option (ℤ × σ) :=
  let buffer := [regAddr, I2CBusRaw.lowbyte data, I2CBusRaw.lowbyte data]
  if writeOk then
    let s := slave.write s (buffer.take 2)
    if readOk then some (0, (slave.read s 2).2) else none
  else none

/-- `readReg`: the value returned, `data` and the slave.  A failure is printed
only. -/
def readReg (ioctlOk : Bool) (order : ByteOrder) (s : σ) (regAddr : UInt8)
    (data : Int16) : ℤ × Int16 × σ :=
  if ioctlOk then
    let result := slave.writeRead s [regAddr] 2
    match result.1 with
    | [b, b'] => (0, loadInt16 order b b', result.2)
    | _ => (0, data, result.2)
  else (0, data, s)

/-- The slave gets the register address and the lower byte, and is read. -/
theorem writeReg_succeeds (s : σ) (regAddr : UInt8) (data : Int16) :
    writeReg slave true true s regAddr data =
      some (0, slave.afterLowByte s regAddr data.toUInt16) := by
  rw [writeReg, if_pos rfl, if_pos rfl, I2CBusRaw.lowbyte_eq]
  rfl

theorem readReg_succeeds (order : ByteOrder) (s : σ) (regAddr : UInt8)
    (data : Int16) :
    readReg slave true order s regAddr data =
      (0, loadInt16 order (highByte (slave.registers s regAddr))
        (lowByte (slave.registers s regAddr)),
        (slave.writeRead s [regAddr] 2).2) := by
  rw [readReg, if_pos rfl]
  simp only [slave.writeRead_bytes]

end I2CBus

end NetworkExperiments.Visensor.I2C
