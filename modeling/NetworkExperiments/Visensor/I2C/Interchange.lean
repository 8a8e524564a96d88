import NetworkExperiments.Visensor.I2C.I2CBus
import NetworkExperiments.Visensor.I2C.RegisterFile

/-!
# I2CBus and I2CBusRaw side by side

The same calls are made to both classes, each with a slave of its own.  They
agree as long as the slave makes of two bytes and a read what it makes of all
three, and every register that is read has two equal bytes.
-/

namespace NetworkExperiments.Visensor.I2C

open EventSystem

variable {σ : Type*} {slave : Slave σ} {delay : ℕ → ℕ}

/-- The machine behind `I2CBusRaw`, the slave behind `I2CBus`, and what the two
have returned from the last call if it was a read. -/
structure SideBySide (σ : Type*) where
  raw : Clocked σ
  linux : σ
  values : Option (Int16 × Int16)

namespace SideBySide

def start (s : σ) : SideBySide σ := ⟨⟨.idle s, 0⟩, s, none⟩

/-- A call to both classes on a little-endian host, with all system calls
succeeding. -/
def step (slave : Slave σ) (delay : ℕ → ℕ) (s : SideBySide σ) (call : Call) :
    Option (SideBySide σ) :=
  let result := perform slave delay s.raw call
  match call with
  | .writeReg regAddr data =>
      (I2CBus.writeReg slave true true s.linux regAddr data).map fun linux =>
        ⟨result.state, linux.2, none⟩
  | .readReg regAddr data =>
      let linux :=
        I2CBus.readReg slave true .little s.linux regAddr data
      some ⟨result.state, linux.2.2, some (result.data, linux.2.1)⟩

/-- The loops of `I2CBusRaw` are in time. -/
def InTime (slave : Slave σ) (delay : ℕ → ℕ) (s : SideBySide σ)
    (call : Call) : Prop :=
  (perform slave delay s.raw call).inTime = true

instance (slave : Slave σ) (delay : ℕ → ℕ) (s : SideBySide σ) (call : Call) :
    Decidable (InTime slave delay s call) :=
  inferInstanceAs (Decidable (_ = true))

/-- The registers of the two slaves are the same, the one with the core as soon
as it has carried out everything, and so are the values read. -/
structure Interchangeable (slave : Slave σ) (s : SideBySide σ) : Prop where
  registers_eq : slave.registers (s.raw.core.final slave).slave =
    slave.registers s.linux
  values_eq : ∀ values ∈ s.values, values.1 = values.2

/-- The slave makes a whole value of the lower byte, and a register that is read
has two equal bytes. -/
def Agrees (slave : Slave σ) (s : SideBySide σ) : Call → Prop
  | .writeReg regAddr data =>
      slave.registers (slave.afterLowByte s.linux regAddr data.toUInt16) =
        Function.update (slave.registers s.linux) regAddr data.toUInt16
  | .readReg regAddr _ =>
      highByte (slave.registers s.linux regAddr) =
        lowByte (slave.registers s.linux regAddr)

/-- The transfers of the core will be over, and the two are
interchangeable. -/
structure Invariant (slave : Slave σ) (s : SideBySide σ) : Prop
    extends Interchangeable slave s where
  transfers_end : ∃ t, s.raw.core.final slave = ⟨.idle, [], t⟩

theorem invariant_start (slave : Slave σ) (s : σ) :
    Invariant slave (start s) where
  registers_eq := rfl
  values_eq := by simp [start]
  transfers_end := ⟨s, rfl⟩

theorem step_writeReg {s s' : SideBySide σ} (h : Invariant slave s)
    {regAddr : UInt8} {data : Int16}
    (htime : InTime slave delay s (.writeReg regAddr data))
    (hstep : step slave delay s (.writeReg regAddr data) = some s') :
    (∃ t, s'.raw.core.final slave = ⟨.idle, [], t⟩ ∧
        slave.registers t =
          Function.update (slave.registers s.linux) regAddr data.toUInt16) ∧
      s'.linux = slave.afterLowByte s.linux regAddr data.toUInt16 ∧
      s'.values = none := by
  obtain ⟨t, ht⟩ := h.transfers_end
  have hregisters := h.registers_eq
  rw [ht] at hregisters
  rw [step, I2CBus.writeReg_succeeds] at hstep
  cases hstep
  refine ⟨⟨_, (writeReg_spec ht regAddr data htime).2, ?_⟩, rfl, rfl⟩
  rw [registers_write, hregisters]

/-- Both classes read, and the second one has the bytes the other way
around. -/
theorem step_readReg {s s' : SideBySide σ} (h : Invariant slave s)
    {regAddr : UInt8} {data : Int16}
    (htime : InTime slave delay s (.readReg regAddr data))
    (hstep : step slave delay s (.readReg regAddr data) = some s') :
    (∃ t, s'.raw.core.final slave = ⟨.idle, [], t⟩ ∧
        slave.registers t = slave.registers s'.linux) ∧
      s'.values = some ((slave.registers s.linux regAddr).toInt16,
        (ofBytes (lowByte (slave.registers s.linux regAddr))
          (highByte (slave.registers s.linux regAddr))).toInt16) := by
  obtain ⟨t, ht⟩ := h.transfers_end
  have hregisters := h.registers_eq
  rw [ht] at hregisters
  obtain ⟨-, hdata, hsettled⟩ := readReg_spec ht regAddr data htime
  rw [step, I2CBus.readReg_succeeds] at hstep
  cases hstep
  refine ⟨⟨_, hsettled.final_eq, ?_⟩, ?_⟩
  · rw [slave.registers_writeRead, slave.registers_writeRead, hregisters]
  · rw [← hregisters]
    exact congrArg (fun value => some (value, _)) hdata

theorem ofBytes_swapped_eq_iff (w : UInt16) :
    w = ofBytes (lowByte w) (highByte w) ↔ highByte w = lowByte w := by
  conv_lhs => lhs; rw [← ofBytes_bytes w]
  rw [ofBytes_inj]
  exact ⟨fun h => h.1, fun h => ⟨h, h.symm⟩⟩

theorem toInt16_inj {w w' : UInt16} : w.toInt16 = w'.toInt16 ↔ w = w' := by
  refine ⟨fun h => ?_, fun h => congrArg _ h⟩
  rw [← UInt16.toUInt16_toInt16 w, h, UInt16.toUInt16_toInt16]

theorem invariant_step (s : SideBySide σ) (call : Call) (s' : SideBySide σ)
    (h : Invariant slave s) (htime : InTime slave delay s call)
    (hagrees : Agrees slave s call)
    (hstep : step slave delay s call = some s') : Invariant slave s' := by
  cases call with
  | writeReg regAddr data =>
      obtain ⟨⟨t, ht, hregisters⟩, hlinux, hvalues⟩ :=
        step_writeReg h htime hstep
      refine ⟨⟨?_, by simp [hvalues]⟩, t, ht⟩
      rw [ht, hlinux, hregisters]
      exact hagrees.symm
  | readReg regAddr data =>
      obtain ⟨⟨t, ht, hregisters⟩, hvalues⟩ := step_readReg h htime hstep
      refine ⟨⟨?_, ?_⟩, t, ht⟩
      · rw [ht, hregisters]
      · intro values hmem
        rw [hvalues] at hmem
        cases hmem
        exact toInt16_inj.mpr ((ofBytes_swapped_eq_iff _).mpr hagrees)

/-- Any other call makes the registers or the values read differ. -/
theorem not_interchangeable_step (s : SideBySide σ) (call : Call)
    (s' : SideBySide σ) (h : Invariant slave s)
    (htime : InTime slave delay s call) (hagrees : ¬ Agrees slave s call)
    (hstep : step slave delay s call = some s') :
    ¬ Interchangeable slave s' := by
  intro hsame
  cases call with
  | writeReg regAddr data =>
      obtain ⟨⟨t, ht, hregisters⟩, hlinux, -⟩ := step_writeReg h htime hstep
      have hsame := hsame.registers_eq
      rw [ht, hlinux, hregisters] at hsame
      exact hagrees hsame.symm
  | readReg regAddr data =>
      obtain ⟨-, hvalues⟩ := step_readReg h htime hstep
      have hread := hsame.values_eq _ hvalues
      exact hagrees ((ofBytes_swapped_eq_iff _).mp (toInt16_inj.mp hread))

/-- The two classes are interchangeable throughout a sequence of calls exactly
when the lower byte is enough for every write, and every register read has two
equal bytes. -/
theorem interchangeable_iff_agrees (slave : Slave σ) (delay : ℕ → ℕ) (s : σ)
    (calls : List Call)
    (htime : EachStep (step slave delay) (InTime slave delay) (start s)
      calls) :
    EachState (step slave delay) (Interchangeable slave) (start s) calls ↔
      EachStep (step slave delay) (Agrees slave) (start s) calls :=
  eachState_iff_eachStep (fun _ h => h.toInterchangeable) invariant_step
    not_interchangeable_step (invariant_start slave s) htime

/-- A value of two equal bytes is written to a register that has it, and read
back. -/
theorem interchangeable_equalBytes :
    EachState (step plainSlave fun _ => 3) (Interchangeable plainSlave)
      (start fun _ => 0x0303) [.writeReg 0x20 0x0303, .readReg 0x20 0] := by
  refine (interchangeable_iff_agrees plainSlave (fun _ => 3) (fun _ => 0x0303)
    [.writeReg 0x20 0x0303, .readReg 0x20 0] (by decide +kernel)).mpr ?_
  rintro _ ⟨⟩
  exact ⟨(Function.update_eq_self _ _).symm, fun _ _ => ⟨rfl, trivial⟩⟩

/-- A slave that ignores a short write keeps its old value behind `I2CBus`. -/
theorem write_not_interchangeable :
    ¬ ∀ (slave : Slave (UInt8 → UInt16)) (delay : ℕ → ℕ)
        (s : UInt8 → UInt16) (calls : List Call),
      EachStep (step slave delay) (InTime slave delay) (start s) calls →
        EachState (step slave delay) (Interchangeable slave) (start s)
          calls := by
  intro hall
  have hstates := hall plainSlave (fun _ => 3) (fun _ => 0)
    [.writeReg 0x20 0x03c7] (by decide +kernel)
  have hregisters := congrFun (hstates.2 _ rfl).1 0x20
  exact absurd hregisters (by decide +kernel)

end SideBySide

end NetworkExperiments.Visensor.I2C
