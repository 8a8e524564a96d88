import NetworkExperiments.Support.CInt
import NetworkExperiments.Support.CyclicSlots
import Mathlib.Logic.Function.Basic

/-!
# The camera ring buffer of the visensor server

This file models `FPGARegisters`, `SharedRingBuffer` and the register set-up in
the constructor of `MT9V034`.  The FPGA writes one image after the other into
the slots of the ring and publishes the address of its slot in
`BUFFER_FPGA_POINTER`; the server publishes the address of its own slot in
`BUFFER_LINUX_POINTER`.

A `RingConfig` is a placement of a ring for which none of the `int` expressions
of the source overflows.  The two specification lemmas at the end,
`newDataAvailable_eq` and `movePointer_eq`, describe the two operations of the
server in terms of slot numbers; later modules use only them.
-/

namespace NetworkExperiments.Visensor

/-! ## FPGA registers -/

/-- Byte offsets of the ring buffer registers. -/
def bufferAddress : ℕ := 0x0004
@[inherit_doc bufferAddress] def bufferSize : ℕ := 0x0008
@[inherit_doc bufferAddress] def bufferFpgaPointer : ℕ := 0x000c
@[inherit_doc bufferAddress] def bufferLinuxPointer : ℕ := 0x0010

/-- The register window: the `int` at each byte offset. -/
structure FPGARegisters where
  value : ℕ → ℤ

namespace FPGARegisters

def getRegisterValue (r : FPGARegisters) (offset : ℕ) : ℤ :=
  r.value offset

def setRegisterValue (r : FPGARegisters) (offset : ℕ) (value : ℤ) :
    FPGARegisters :=
  ⟨Function.update r.value offset value⟩

@[simp] theorem get_set_self (r : FPGARegisters) (offset : ℕ) (v : ℤ) :
    (r.setRegisterValue offset v).getRegisterValue offset = v := by
  simp [getRegisterValue, setRegisterValue]

theorem get_set_of_ne (r : FPGARegisters) {offset offset' : ℕ} (v : ℤ)
    (h : offset' ≠ offset) :
    (r.setRegisterValue offset v).getRegisterValue offset' =
      r.getRegisterValue offset' := by
  simp [getRegisterValue, setRegisterValue, h]

@[simp] theorem get_fpga_set_linux (r : FPGARegisters) (v : ℤ) :
    (r.setRegisterValue bufferLinuxPointer v).getRegisterValue
        bufferFpgaPointer = r.getRegisterValue bufferFpgaPointer :=
  get_set_of_ne r v (by decide)

@[simp] theorem get_linux_set_fpga (r : FPGARegisters) (v : ℤ) :
    (r.setRegisterValue bufferFpgaPointer v).getRegisterValue
        bufferLinuxPointer = r.getRegisterValue bufferLinuxPointer :=
  get_set_of_ne r v (by decide)

end FPGARegisters

/-! ## The ring buffer -/

structure SharedRingBuffer where
  dataSize : ℕ
  length : ℕ
  position : ℕ
  mmapStartAddress : ℕ
  bufferPysicalAddress : ℤ

namespace SharedRingBuffer

/-- The address, in the server's mapping, of the slot at `position`. -/
def data (b : SharedRingBuffer) : ℕ :=
  b.mmapStartAddress + b.position * b.dataSize

def getStartAddress (b : SharedRingBuffer) : ℤ :=
  b.bufferPysicalAddress

/-- The expression `buffer_pysical_address_ + data_size_*i`, which both
operations below evaluate in `int` arithmetic. -/
def pysicalAddressOf (b : SharedRingBuffer) (i : ℕ) : ℤ :=
  CInt.toInt (b.bufferPysicalAddress + CInt.toInt (b.dataSize * i))

/-- Whether the FPGA has left the slot after `position`.  The wrap test
compares with `length + 1`, unlike the one of `movePointer`. -/
def newDataAvailable (b : SharedRingBuffer) (registers : FPGARegisters) :
    Bool :=
  let fpgaPointer := registers.getRegisterValue bufferFpgaPointer
  let nextDataPosition :=
    if b.position + 1 ≥ b.length + 1 then 0 else b.position + 1
  if b.pysicalAddressOf nextDataPosition = fpgaPointer then false else true

/-- Go to the next slot and publish its address, which blocks the FPGA. -/
def movePointer (b : SharedRingBuffer) (registers : FPGARegisters) :
    SharedRingBuffer × FPGARegisters :=
  let position := if b.position + 1 ≥ b.length then 0 else b.position + 1
  let moved := { b with position := position }
  (moved, registers.setRegisterValue bufferLinuxPointer
    (moved.pysicalAddressOf position))

end SharedRingBuffer

/-! ## Placements without overflow -/

/-- A ring of `length` slots of `dataSize` bytes at the physical address
`start`, mapped at `mmapStart`.  The last three fields say that the addresses
of all slots, and the address `dataSize * (length + 1)` behind the ring that
the constructor of `MT9V034` computes, are values of type `int`. -/
structure RingConfig where
  start : ℤ
  mmapStart : ℕ
  dataSize : ℕ
  length : ℕ
  dataSize_pos : 0 < dataSize
  length_pos : 0 < length
  start_ge : -2 ^ 31 ≤ start
  span_lt : dataSize * (length + 1) < 2 ^ 31
  end_lt : start + dataSize * (length + 1) < 2 ^ 31

namespace RingConfig

variable (c : RingConfig)

/-- The physical address of slot `i`. -/
def slotAddress (i : ℕ) : ℤ := c.start + c.dataSize * i

/-- The address of slot `i` in the server's mapping. -/
def slotData (i : ℕ) : ℕ := c.mmapStart + i * c.dataSize

/-- The buffer object of the ring, standing at slot `position`. -/
def buffer (position : ℕ) : SharedRingBuffer where
  dataSize := c.dataSize
  length := c.length
  position := position
  mmapStartAddress := c.mmapStart
  bufferPysicalAddress := c.start

@[simp] theorem buffer_position (p : ℕ) : (c.buffer p).position = p := rfl

@[simp] theorem length_buffer (p : ℕ) : (c.buffer p).length = c.length := rfl

variable {c}

theorem slotAddress_inj {i j : ℕ} :
    c.slotAddress i = c.slotAddress j ↔ i = j := by
  constructor
  · intro h
    have hpos : (c.dataSize : ℤ) ≠ 0 := by
      have := c.dataSize_pos
      omega
    have hmul : (c.dataSize : ℤ) * i = c.dataSize * j := by
      unfold slotAddress at h
      omega
    exact_mod_cast Int.eq_of_mul_eq_mul_left hpos hmul
  · rintro rfl
    rfl

theorem slotData_inj {i j : ℕ} : c.slotData i = c.slotData j ↔ i = j := by
  constructor
  · intro h
    have hmul : i * c.dataSize = j * c.dataSize := by
      unfold slotData at h
      omega
    exact Nat.eq_of_mul_eq_mul_right c.dataSize_pos hmul
  · rintro rfl
    rfl

/-- No slot of the ring, and no slot just behind it, has an address outside of
`int`. -/
theorem toInt_slotAddress {i : ℕ} (hi : i ≤ c.length + 1) :
    CInt.toInt (c.start + CInt.toInt (c.dataSize * i)) = c.slotAddress i := by
  have hmul : c.dataSize * i ≤ c.dataSize * (c.length + 1) :=
    Nat.mul_le_mul_left _ hi
  have hspan := c.span_lt
  have hstart := c.start_ge
  have hend := c.end_lt
  have hcast : ((c.dataSize * i : ℕ) : ℤ) = (c.dataSize : ℤ) * i := by
    push_cast
    rfl
  have hcastEnd : ((c.dataSize * (c.length + 1) : ℕ) : ℤ) =
      (c.dataSize : ℤ) * (c.length + 1) := by
    push_cast
    rfl
  have hproduct : CInt.toInt ((c.dataSize : ℤ) * i) = c.dataSize * i :=
    CInt.toInt_eq_self (by omega) (by omega)
  rw [hproduct, CInt.toInt_eq_self (by omega) (by omega), slotAddress]

@[simp] theorem pysicalAddressOf_buffer {p i : ℕ} (hi : i ≤ c.length + 1) :
    (c.buffer p).pysicalAddressOf i = c.slotAddress i :=
  toInt_slotAddress hi

/-- With the FPGA in slot `q`, new data is reported exactly when `q` is not
`p + 1`.  The wrap test never fires: at the last slot the function compares
with the slot behind the ring, where the FPGA never is. -/
theorem newDataAvailable_eq {p q : ℕ} (hp : p < c.length)
    {registers : FPGARegisters}
    (hq : registers.getRegisterValue bufferFpgaPointer = c.slotAddress q) :
    (c.buffer p).newDataAvailable registers = decide (q ≠ p + 1) := by
  have haddr : (c.buffer p).pysicalAddressOf (p + 1) = c.slotAddress (p + 1) :=
    pysicalAddressOf_buffer (by omega)
  have hwrap : ¬ c.length ≤ p := by omega
  simp only [SharedRingBuffer.newDataAvailable, buffer_position, length_buffer,
    ge_iff_le, Nat.add_le_add_iff_right, hwrap, if_false, haddr, hq,
    slotAddress_inj]
  by_cases h : q = p + 1
  · simp [h]
  · simp [h, Ne.symm h]

theorem movePointer_eq {p : ℕ} (hp : p < c.length)
    (registers : FPGARegisters) :
    (c.buffer p).movePointer registers =
      (c.buffer ((p + 1) % c.length),
        registers.setRegisterValue bufferLinuxPointer
          (c.slotAddress ((p + 1) % c.length))) := by
  have hmod := CyclicSlots.succ_mod hp
  have hlt : (p + 1) % c.length < c.length := Nat.mod_lt _ c.length_pos
  have hposition :
      (if p + 1 ≥ c.length then 0 else p + 1) = (p + 1) % c.length := hmod.symm
  change (c.buffer (if p + 1 ≥ c.length then 0 else p + 1),
    registers.setRegisterValue bufferLinuxPointer
      ((c.buffer (if p + 1 ≥ c.length then 0 else p + 1)).pysicalAddressOf
        (if p + 1 ≥ c.length then 0 else p + 1))) = _
  rw [hposition, pysicalAddressOf_buffer (by omega)]

end RingConfig

/-! ## Start-up -/

/-- The ring that the camera driver sets up: eight images of 752 by 480
pixels. -/
def cameraRing : RingConfig where
  start := 0x10000000
  mmapStart := 0x40000000
  dataSize := 360960
  length := 8
  dataSize_pos := by decide
  length_pos := by decide
  start_ge := by decide
  span_lt := by decide
  end_lt := by decide

/-- The ring and the registers after the constructor of `MT9V034`: `position`
is 0 and the Linux pointer is set behind the last slot. -/
def mt9v034 (c : RingConfig) (registers : FPGARegisters) :
    SharedRingBuffer × FPGARegisters :=
  let buffer := c.buffer 0
  (buffer,
    ((registers.setRegisterValue bufferAddress buffer.getStartAddress)
      |>.setRegisterValue bufferSize (CInt.toInt (c.dataSize * c.length)))
      |>.setRegisterValue bufferLinuxPointer
        (buffer.pysicalAddressOf (c.length + 1)))

theorem mt9v034_linuxPointer (c : RingConfig) (registers : FPGARegisters) :
    (mt9v034 c registers).2.getRegisterValue bufferLinuxPointer =
      c.slotAddress (c.length + 1) := by
  simp only [mt9v034, FPGARegisters.get_set_self]
  exact RingConfig.pysicalAddressOf_buffer (Nat.le_refl _)

end NetworkExperiments.Visensor
