import NetworkExperiments.Support.ByteMemory
import NetworkExperiments.Support.CInt
import NetworkExperiments.Support.Run

/-!
# Block transfers of DevMem

This file models `DevMem::write` and `DevMem::read`, which copy blocks to and
from the mapped range byte by byte.  The range is memory of `mapSize` bytes; an
access behind it has no defined result.

The two loops compute the address of a byte in different ways: `read` adds one
to the offset where `write` adds the index.
-/

namespace NetworkExperiments.Visensor

open EventSystem

/-- The mapped range: the byte at each offset. -/
structure DevMem (mapSize : ℕ) where
  memory : ByteMemory

namespace DevMem

variable {mapSize : ℕ}

def loadByte (m : DevMem mapSize) (offset : ℕ) : Option UInt8 :=
  if offset < mapSize then some (m.memory offset) else none

def storeByte (m : DevMem mapSize) (offset : ℕ) (value : UInt8) :
    Option (DevMem mapSize) :=
  if offset < mapSize then some ⟨Function.update m.memory offset value⟩
  else none

/-- The loop of `write`, after some iterations. -/
def writeLoop (m : DevMem mapSize) (offset : ℕ) (data : ℕ → UInt8) :
    ℕ → Option (DevMem mapSize)
  | 0 => some m
  | i + 1 => (writeLoop m offset data i).bind fun m =>
      m.storeByte (offset + i) (data i)

/-- `write`: the value returned and the range. -/
def write (m : DevMem mapSize) (offset length : ℕ) (data : ℕ → UInt8) :
    Option (ℤ × DevMem mapSize) :=
  (writeLoop m offset data length).map fun m => (CInt.toInt length, m)

/-- The loop of `read`, after some iterations.  The address is
`mapped_dev_base + offset + 1` in all of them. -/
def readLoop (m : DevMem mapSize) (offset : ℕ) (data : ByteMemory) :
    ℕ → Option ByteMemory
  | 0 => some data
  | i + 1 => (readLoop m offset data i).bind fun data =>
      (m.loadByte (offset + 1)).map fun value => Function.update data i value

/-- `read`: the value returned and the array `data`. -/
def read (m : DevMem mapSize) (offset length : ℕ) (data : ByteMemory) :
    Option (ℤ × ByteMemory) :=
  (readLoop m offset data length).map fun data => (CInt.toInt length, data)

theorem writeLoop_eq (m : DevMem mapSize) (data : ℕ → UInt8) {offset n : ℕ}
    (h : offset + n ≤ mapSize) :
    writeLoop m offset data n = some ⟨m.memory.write offset n data⟩ := by
  induction n with
  | zero => rw [writeLoop, ByteMemory.write_zero]
  | succ n ih =>
      have hinside : offset + n < mapSize := h
      rw [writeLoop, ih (Nat.le_of_lt hinside), Option.bind_some, storeByte,
        if_pos hinside, ByteMemory.write_succ]

theorem write_eq (m : DevMem mapSize) (data : ℕ → UInt8)
    {offset length : ℕ} (h : offset + length ≤ mapSize) :
    m.write offset length data =
      some (CInt.toInt length, ⟨m.memory.write offset length data⟩) := by
  rw [write, writeLoop_eq m data h, Option.map_some]

theorem readLoop_eq (m : DevMem mapSize) (data : ByteMemory) {offset : ℕ}
    (h : offset + 1 < mapSize) (n : ℕ) :
    readLoop m offset data n =
      some (data.write 0 n fun _ => m.memory (offset + 1)) := by
  induction n with
  | zero => rw [readLoop, ByteMemory.write_zero]
  | succ n ih =>
      rw [readLoop, ih, Option.bind_some, loadByte, if_pos h, Option.map_some,
        ByteMemory.write_succ, Nat.zero_add]

theorem readLoop_eq_none (m : DevMem mapSize) (data : ByteMemory)
    {offset : ℕ} (h : mapSize ≤ offset + 1) (n : ℕ) :
    readLoop m offset data (n + 1) = none := by
  have houtside : ¬ offset + 1 < mapSize := Nat.not_lt.mpr h
  rw [readLoop, loadByte, if_neg houtside]
  exact Option.bind_eq_none_iff.mpr fun _ _ => rfl

end DevMem

/-! ## Sequences of transfers -/

/-- A block of the range. -/
structure Block (mapSize : ℕ) where
  offset : ℕ
  length : ℕ
  inside : offset + length ≤ mapSize

inductive Transfer (mapSize : ℕ)
  | write (block : Block mapSize) (data : ℕ → UInt8)
  | read (block : Block mapSize) (data : ByteMemory)

/-- The last read: its block, the array before it, and what it has made of the
array. -/
structure ReadResult (mapSize : ℕ) where
  block : Block mapSize
  data : ByteMemory
  result : Option ByteMemory

/-- The range, the last value written to each byte of it, and the last
transfer if it was a read. -/
structure Session (mapSize : ℕ) where
  mem : DevMem mapSize
  written : ByteMemory
  last : Option (ReadResult mapSize)

namespace Session

variable {mapSize : ℕ}

def start (mapSize : ℕ) (memory : ByteMemory) : Session mapSize :=
  ⟨⟨memory⟩, memory, none⟩

def step (s : Session mapSize) : Transfer mapSize → Option (Session mapSize)
  | .write block data =>
      (s.mem.write block.offset block.length data).map fun result =>
        ⟨result.2, s.written.write block.offset block.length data, none⟩
  | .read block data =>
      some { s with last := some ⟨block, data,
        (s.mem.read block.offset block.length data).map Prod.snd⟩ }

/-- The range holds what was last written, and a read has put that into its
array, byte by byte. -/
structure Faithful (s : Session mapSize) : Prop where
  memory_eq : s.mem.memory = s.written
  read_eq : ∀ r ∈ s.last, r.result =
    some (r.data.write 0 r.block.length fun i => s.written (r.block.offset + i))

/-- A block that is read is empty, or all its bytes are equal to the second
byte from its start, which is in the range. -/
def ReadsUniform (s : Session mapSize) : Transfer mapSize → Prop
  | .write _ _ => True
  | .read block _ => block.length = 0 ∨ block.offset + 1 < mapSize ∧
      ∀ i < block.length,
        s.mem.memory (block.offset + i) = s.mem.memory (block.offset + 1)

theorem faithful_start (mapSize : ℕ) (memory : ByteMemory) :
    Faithful (start mapSize memory) :=
  ⟨rfl, fun _ h => absurd h (Option.not_mem_none _)⟩

theorem step_write (s : Session mapSize) (block : Block mapSize)
    (data : ℕ → UInt8) :
    step s (.write block data) =
      some ⟨⟨s.mem.memory.write block.offset block.length data⟩,
        s.written.write block.offset block.length data, none⟩ := by
  rw [step, DevMem.write_eq s.mem data block.inside, Option.map_some]

theorem run_isSome (s : Session mapSize) (transfers : List (Transfer mapSize)) :
    ∃ s', run step s transfers = some s' := by
  induction transfers generalizing s with
  | nil => exact ⟨s, rfl⟩
  | cons transfer transfers ih =>
      cases transfer with
      | write block data =>
          rw [run_cons, step_write]
          exact ih _
      | read block data => exact ih _

/-- A read does what it should exactly when its block is uniform. -/
theorem read_eq_iff (m : DevMem mapSize) (block : Block mapSize)
    (data : ByteMemory) :
    (m.read block.offset block.length data).map Prod.snd =
        some (data.write 0 block.length fun i => m.memory (block.offset + i)) ↔
      block.length = 0 ∨ block.offset + 1 < mapSize ∧
        ∀ i < block.length,
          m.memory (block.offset + i) = m.memory (block.offset + 1) := by
  obtain ⟨offset, length, hinside⟩ := block
  cases length with
  | zero => simp [DevMem.read, DevMem.readLoop]
  | succ n =>
      by_cases hsecond : offset + 1 < mapSize
      · simp only [DevMem.read, DevMem.readLoop_eq m data hsecond,
          Option.map_some, Option.some.injEq, Nat.succ_ne_zero, hsecond,
          false_or, true_and]
        constructor
        · intro h i hi
          have hbyte := congrFun h (0 + i)
          rw [ByteMemory.write_of_inside _ _ hi,
            ByteMemory.write_of_inside _ _ hi] at hbyte
          exact hbyte.symm
        · intro h
          exact ByteMemory.write_congr data fun i hi => (h i hi).symm
      · rw [DevMem.read, DevMem.readLoop_eq_none m data (Nat.not_lt.mp hsecond)]
        simp [hsecond]

theorem faithful_step (s : Session mapSize) (transfer : Transfer mapSize)
    (s' : Session mapSize) (h : Faithful s) (huniform : ReadsUniform s transfer)
    (hstep : step s transfer = some s') : Faithful s' := by
  cases transfer with
  | write block data =>
      rw [step_write, h.memory_eq] at hstep
      cases hstep
      exact ⟨rfl, fun _ hr => absurd hr (Option.not_mem_none _)⟩
  | read block data =>
      cases hstep
      refine ⟨h.memory_eq, ?_⟩
      rintro _ ⟨⟩
      have hread := (read_eq_iff s.mem block data).mpr huniform
      rw [h.memory_eq] at hread
      exact hread

theorem not_faithful_step (s : Session mapSize) (transfer : Transfer mapSize)
    (s' : Session mapSize) (huniform : ¬ ReadsUniform s transfer)
    (hstep : step s transfer = some s') : ¬ Faithful s' := by
  intro h
  cases transfer with
  | write block data => exact huniform trivial
  | read block data =>
      cases hstep
      have hread := h.read_eq _ rfl
      have hmemory : s.mem.memory = s.written := h.memory_eq
      rw [← hmemory] at hread
      exact huniform ((read_eq_iff s.mem block data).mp hread)

/-- Every sequence of transfers ends, and its reads return what was last
written exactly when the blocks read are uniform. -/
theorem faithful_iff_readsUniform (mapSize : ℕ) (memory : ByteMemory)
    (transfers : List (Transfer mapSize)) :
    (∃ s, run step (start mapSize memory) transfers = some s) ∧
      (EachState step Faithful (start mapSize memory) transfers ↔
        EachStep step ReadsUniform (start mapSize memory) transfers) :=
  ⟨run_isSome _ _, eachState_iff_eachStep (A := fun _ _ => True)
    (fun _ h => h)
    (fun s transfer s' h _ => faithful_step s transfer s' h)
    (fun s transfer s' _ _ => not_faithful_step s transfer s')
    (faithful_start mapSize memory)
    (EachStep.of_forall (fun _ _ => trivial) _ _)⟩

/-- The first of two different bytes is not read. -/
theorem second_byte_read :
    ¬ ∀ (mapSize : ℕ) (memory : ByteMemory)
        (transfers : List (Transfer mapSize)),
      EachState step Faithful (start mapSize memory) transfers := by
  intro hall
  let block : Block 2 := ⟨0, 1, by decide⟩
  have hstates := hall 2 (fun a => UInt8.ofNat a) [.read block fun _ => 0]
  have hread := (hstates.2 _ rfl).read_eq _ rfl
  have hbyte := congrFun (Option.some.inj hread) 0
  exact absurd hbyte (by decide)

end Session

end NetworkExperiments.Visensor
