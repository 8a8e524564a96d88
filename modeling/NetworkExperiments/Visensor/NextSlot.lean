import NetworkExperiments.Visensor.SharedRingBuffer

/-!
# The next slot, computed twice

`newDataAvailable` and `movePointer` each compute the slot after `position`,
with separately written wrap tests.  They agree at every position but the last:
there `newDataAvailable` takes the slot behind the ring, and `movePointer` takes
slot 0.
-/

namespace NetworkExperiments.Visensor.NextSlot

variable (c : RingConfig)

/-- The buffer and the registers after `n` calls of `movePointer`, beginning
at slot 0. -/
def moved (registers : FPGARegisters) : ℕ → SharedRingBuffer × FPGARegisters
  | 0 => (c.buffer 0, registers)
  | n + 1 => (moved registers n).1.movePointer (moved registers n).2

theorem moved_buffer (registers : FPGARegisters) (n : ℕ) :
    (moved c registers n).1 = c.buffer (n % c.length) := by
  induction n with
  | zero => rw [moved, Nat.zero_mod]
  | succ n ih =>
      have hlt : n % c.length < c.length := Nat.mod_lt _ c.length_pos
      rw [moved, ih, RingConfig.movePointer_eq hlt, Nat.mod_add_mod]

/-- `newDataAvailable` answers no exactly when the FPGA pointer has the address
that `movePointer` would write. -/
def Agree (buffer : SharedRingBuffer) (registers : FPGARegisters) : Prop :=
  buffer.newDataAvailable registers = false ↔
    registers.getRegisterValue bufferFpgaPointer =
      (buffer.movePointer registers).2.getRegisterValue bufferLinuxPointer

/-- The two agree except at the last position with the FPGA in slot 0. -/
theorem agree_iff {p q : ℕ} (hp : p < c.length) (hq : q < c.length)
    {registers : FPGARegisters}
    (hpointer : registers.getRegisterValue bufferFpgaPointer =
      c.slotAddress q) :
    Agree (c.buffer p) registers ↔ ¬ (p + 1 = c.length ∧ q = 0) := by
  have hanswer : (c.buffer p).newDataAvailable registers = false ↔
      q = p + 1 := by
    rw [RingConfig.newDataAvailable_eq hp hpointer, decide_eq_false_iff_not,
      not_not]
  have hwritten : registers.getRegisterValue bufferFpgaPointer =
      ((c.buffer p).movePointer registers).2.getRegisterValue
        bufferLinuxPointer ↔ q = (p + 1) % c.length := by
    rw [RingConfig.movePointer_eq hp, FPGARegisters.get_set_self, hpointer,
      RingConfig.slotAddress_inj]
  rw [Agree, hanswer, hwritten]
  by_cases hlast : p + 1 = c.length
  · rw [hlast, Nat.mod_self]
    omega
  · rw [Nat.mod_eq_of_lt (by omega)]
    simp [hlast]

/-- After any number of moves, `newDataAvailable` and `movePointer` agree on
the next slot unless the server is at the last slot and the FPGA in slot 0. -/
theorem next_slot_agrees_iff (start registers : FPGARegisters) (n : ℕ) {q : ℕ}
    (hq : q < c.length)
    (hpointer : registers.getRegisterValue bufferFpgaPointer =
      c.slotAddress q) :
    Agree (moved c start n).1 registers ↔
      ¬ ((moved c start n).1.position + 1 = c.length ∧ q = 0) := by
  have hlt : n % c.length < c.length := Nat.mod_lt _ c.length_pos
  rw [moved_buffer]
  exact agree_iff c hlt hq hpointer

/-- The camera's registers with the FPGA in slot `q`. -/
def fpgaAt (q : ℕ) : FPGARegisters :=
  ⟨fun _ => cameraRing.slotAddress q⟩

theorem next_slot_agrees_atSlotOne :
    Agree (moved cameraRing (fpgaAt 0) 1).1 (fpgaAt 2) :=
  (next_slot_agrees_iff cameraRing (fpgaAt 0) (fpgaAt 2) 1
    (by decide : 2 < cameraRing.length) rfl).mpr (by decide)

/-- At the last slot `newDataAvailable` reports new data although the FPGA is
in slot 0, where `movePointer` goes. -/
theorem next_slot_disagrees_atLastSlot :
    ¬ ∀ (c : RingConfig) start registers n q, q < c.length →
      registers.getRegisterValue bufferFpgaPointer = c.slotAddress q →
        Agree (moved c start n).1 registers := by
  intro hall
  have hagree := hall cameraRing (fpgaAt 0) (fpgaAt 0) 7 0 (by decide) rfl
  rw [moved_buffer, agree_iff cameraRing (by decide) (by decide) rfl] at hagree
  exact hagree ⟨rfl, rfl⟩

end NetworkExperiments.Visensor.NextSlot
