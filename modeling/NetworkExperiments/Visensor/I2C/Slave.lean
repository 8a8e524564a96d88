import Mathlib.Logic.Function.Basic
import NetworkExperiments.Support.CInt

/-!
# A slave with 16-bit registers

The sensor on the I2C bus is a slave whose registers have 16 bits and are
transferred with the more significant byte first.  What it does with a transfer
is left open but for two kinds: a write of a register address and two bytes
stores the value, and a write of a register address with a repeated start and a
read of two bytes returns it.
-/

namespace NetworkExperiments.Visensor.I2C

/-! ## The bytes of a register -/

def highByte (w : UInt16) : UInt8 := UInt8.ofNat (w.toNat / 2 ^ 8)

def lowByte (w : UInt16) : UInt8 := UInt8.ofNat w.toNat

/-- The register value with the given bytes. -/
def ofBytes (hi lo : UInt8) : UInt16 :=
  UInt16.ofNat (hi.toNat * 2 ^ 8 + lo.toNat)

@[simp] theorem ofBytes_bytes (w : UInt16) :
    ofBytes (highByte w) (lowByte w) = w := by
  apply UInt16.toNat_inj.mp
  have hw : w.toNat < 2 ^ 16 := UInt16.toNat_lt w
  simp only [ofBytes, highByte, lowByte, UInt8.toNat_ofNat',
    UInt16.toNat_ofNat']
  omega

theorem ofBytes_inj {hi lo hi' lo' : UInt8} :
    ofBytes hi lo = ofBytes hi' lo' ↔ hi = hi' ∧ lo = lo' := by
  have hhi := UInt8.toNat_lt hi
  have hlo := UInt8.toNat_lt lo
  have hhi' := UInt8.toNat_lt hi'
  have hlo' := UInt8.toNat_lt lo'
  rw [← UInt16.toNat_inj, ← UInt8.toNat_inj, ← UInt8.toNat_inj]
  simp only [ofBytes, UInt16.toNat_ofNat']
  omega

/-- A slave with state `σ`: its registers, and what it does with a write, a
read, and a write that is followed by a repeated start and a read. -/
structure Slave (σ : Type*) where
  registers : σ → UInt8 → UInt16
  write : σ → List UInt8 → σ
  read : σ → ℕ → List UInt8 × σ
  writeRead : σ → List UInt8 → ℕ → List UInt8 × σ
  registers_write : ∀ s reg hi lo, registers (write s [reg, hi, lo]) =
    Function.update (registers s) reg (ofBytes hi lo)
  writeRead_bytes : ∀ s reg, (writeRead s [reg] 2).1 =
    [highByte (registers s reg), lowByte (registers s reg)]
  registers_writeRead : ∀ s reg,
    registers (writeRead s [reg] 2).2 = registers s

/-- The slave after a write of a register address and the lower byte of a value,
and a read of two bytes. -/
def Slave.afterLowByte {σ : Type*} (slave : Slave σ) (s : σ) (reg : UInt8)
    (value : UInt16) : σ :=
  (slave.read (slave.write s [reg, lowByte value]) 2).2

/-- The plain register slave.  A write that is too short or too long is not
stored, and a read without a register address returns zeros. -/
def plainSlave : Slave (UInt8 → UInt16) where
  registers := id
  write registers bytes :=
    match bytes with
    | [reg, hi, lo] => Function.update registers reg (ofBytes hi lo)
    | _ => registers
  read registers n := (List.replicate n 0, registers)
  writeRead registers bytes n :=
    match bytes with
    | [reg] => ([highByte (registers reg), lowByte (registers reg)].take n,
        registers)
    | _ => (List.replicate n 0, registers)
  registers_write _ _ _ _ := rfl
  writeRead_bytes _ _ := rfl
  registers_writeRead _ _ := rfl

end NetworkExperiments.Visensor.I2C
