import NetworkExperiments.Support.Run
import NetworkExperiments.Support.Tiling
import NetworkExperiments.Visensor.SharedRingBuffer

/-!
# Adding ring buffers

This file models `SharedMemoryManager::addRingBuffer` of the visensor server,
which keeps the list of the buffers that share the mapped memory.  Addresses
have 32 bits, and the check converts one to `int`.

The check should compare the end of the new buffer, counted from the start of
the mapping, with the size of the mapping.  It compares the address itself, and
multiplies the size of the buffer by its length once more.  What it adds to the
bytes in use by that is a surplus that depends on the mapping and the buffer
only; `respects_iff_harmless` shows for which surpluses this does no harm.
-/

namespace NetworkExperiments.Visensor

open EventSystem

/-- `size()`. -/
def SharedRingBuffer.size (b : SharedRingBuffer) : ℤ :=
  CInt.toInt (b.dataSize * b.length)

structure SharedMemoryManager where
  mmapStartAddress : ℕ
  allocatedMemorySize : ℤ
  buffers : List SharedRingBuffer

namespace SharedMemoryManager

/-- `buffer_start_address`, behind the buffers there are. -/
def bufferStartAddress (m : SharedMemoryManager) : ℕ :=
  m.buffers.foldl (fun address buf => CInt.toSize 32 (address + buf.size))
    m.mmapStartAddress

def addRingBuffer (m : SharedMemoryManager) (buffer : SharedRingBuffer) :
    SharedMemoryManager :=
  if CInt.toInt (CInt.toInt m.bufferStartAddress +
      CInt.toInt (buffer.size * buffer.length)) > m.allocatedMemorySize then m
  else { m with buffers := m.buffers ++ [buffer] }

/-! ## What it should do -/

/-- The sum of the sizes of some buffers. -/
def total : List SharedRingBuffer → ℤ
  | [] => 0
  | buf :: buffers => buf.size + total buffers

/-- The first address of each buffer and the one behind it, when they are laid
out one after another. -/
def layout : ℕ → List SharedRingBuffer → List (ℕ × ℕ)
  | _, [] => []
  | a, buf :: buffers =>
      (a, a + buf.size.toNat) :: layout (a + buf.size.toNat) buffers

/-- The last call: the buffers before it, and the one to be added. -/
structure Call where
  before : List SharedRingBuffer
  buffer : SharedRingBuffer

structure Observed where
  manager : SharedMemoryManager
  last : Option Call

def start (mmapStartAddress : ℕ) (allocatedMemorySize : ℤ) : Observed :=
  ⟨⟨mmapStartAddress, allocatedMemorySize, []⟩, none⟩

def step (o : Observed) (buffer : SharedRingBuffer) : Option Observed :=
  some ⟨o.manager.addRingBuffer buffer, some ⟨o.manager.buffers, buffer⟩⟩

/-- The last call has added its buffer exactly if there was room for it, and
the buffers, laid out one after another, are disjoint and inside of the
mapping. -/
structure Respects (o : Observed) : Prop where
  buffers_eq : ∀ call ∈ o.last, o.manager.buffers =
    if total call.before + call.buffer.size ≤ o.manager.allocatedMemorySize
    then call.before ++ [call.buffer] else call.before
  disjoint : (layout o.manager.mmapStartAddress o.manager.buffers).Pairwise
    fun r r' => r.2 ≤ r'.1
  inside : ∀ r ∈ layout o.manager.mmapStartAddress o.manager.buffers,
    o.manager.mmapStartAddress ≤ r.1 ∧
      (r.2 : ℤ) ≤ o.manager.mmapStartAddress + o.manager.allocatedMemorySize

/-- The sizes and their sum fit in `int`. -/
structure SumsFit (o : Observed) (buffer : SharedRingBuffer) : Prop where
  size_lt : (buffer.dataSize * buffer.length : ℤ) < 2 ^ 31
  total_lt : total o.manager.buffers + buffer.size < 2 ^ 31

instance (o : Observed) (buffer : SharedRingBuffer) :
    Decidable (SumsFit o buffer) :=
  decidable_of_iff (_ ∧ _)
    ⟨fun h => ⟨h.1, h.2⟩, fun h => ⟨h.size_lt, h.total_lt⟩⟩

/-- The bytes in use when the buffer has been added. -/
def used (o : Observed) (buffer : SharedRingBuffer) : ℤ :=
  total o.manager.buffers + buffer.size

/-- The start of the mapping, and the size of the buffer for each unit of its
length but one, as a number of 32 bits. -/
def surplus (o : Observed) (buffer : SharedRingBuffer) : ℕ :=
  CInt.toSize 32
    (o.manager.mmapStartAddress + buffer.size * (buffer.length - 1))

/-- For a buffer that fits, the surplus fits into what is left, or makes the
`int` negative.  For one that does not fit, it neither makes it negative nor
turns it over to less than there is. -/
structure Harmless (o : Observed) (buffer : SharedRingBuffer) : Prop where
  fits : used o buffer ≤ o.manager.allocatedMemorySize →
    surplus o buffer ≤ o.manager.allocatedMemorySize - used o buffer ∨
      2 ^ 31 - used o buffer ≤ surplus o buffer
  tooLarge : o.manager.allocatedMemorySize < used o buffer →
    surplus o buffer < 2 ^ 31 - used o buffer ∨
      2 ^ 32 - (used o buffer - o.manager.allocatedMemorySize) <
        surplus o buffer

instance (o : Observed) (buffer : SharedRingBuffer) :
    Decidable (Harmless o buffer) :=
  decidable_of_iff (_ ∧ _)
    ⟨fun h => ⟨h.1, h.2⟩, fun h => ⟨h.fits, h.tooLarge⟩⟩

/-! ## The check -/

theorem total_append (buffers : List SharedRingBuffer)
    (buffer : SharedRingBuffer) :
    total (buffers ++ [buffer]) = total buffers + buffer.size := by
  induction buffers with
  | nil => exact Int.add_comm _ _
  | cons buf buffers ih =>
      rw [List.cons_append, total, ih, total, Int.add_assoc]

theorem total_nonneg {buffers : List SharedRingBuffer}
    (h : ∀ buf ∈ buffers, 0 ≤ buf.size) : 0 ≤ total buffers := by
  induction buffers with
  | nil => exact Int.le_refl 0
  | cons buf buffers ih =>
      obtain ⟨hbuf, hrest⟩ := List.forall_mem_cons.mp h
      exact Int.add_nonneg hbuf (ih hrest)

theorem toInt_bufferStartAddress (m : SharedMemoryManager) :
    CInt.toInt m.bufferStartAddress =
      CInt.toInt (m.mmapStartAddress + total m.buffers) := by
  have hfold : ∀ (buffers : List SharedRingBuffer) (a : ℕ),
      CInt.toInt (buffers.foldl
        (fun address buf => CInt.toSize 32 (address + buf.size)) a : ℕ) =
        CInt.toInt (a + total buffers) := by
    intro buffers
    induction buffers with
    | nil =>
        intro a
        rw [List.foldl_nil, total, Int.add_zero]
    | cons buf buffers ih =>
        intro a
        rw [List.foldl_cons, ih, CInt.toInt_toSize_add, total, Int.add_assoc]
  exact hfold m.buffers m.mmapStartAddress

theorem SumsFit.size_eq {o : Observed} {buffer : SharedRingBuffer}
    (h : SumsFit o buffer) :
    buffer.size = ((buffer.dataSize * buffer.length : ℕ) : ℤ) := by
  have hlt := h.size_lt
  rw [← Int.natCast_mul] at hlt
  rw [SharedRingBuffer.size, ← Int.natCast_mul]
  exact CInt.toInt_eq_self (by omega) hlt

theorem SumsFit.size_nonneg {o : Observed} {buffer : SharedRingBuffer}
    (h : SumsFit o buffer) : 0 ≤ buffer.size := by
  rw [h.size_eq]
  exact Int.natCast_nonneg _

/-- The value that is checked is that of the bytes in use with the surplus. -/
theorem toInt_checked (o : Observed) (buffer : SharedRingBuffer) :
    CInt.toInt (CInt.toInt o.manager.bufferStartAddress +
        CInt.toInt (buffer.size * buffer.length)) =
      CInt.toInt (surplus o buffer + used o buffer) := by
  have hsum : (o.manager.mmapStartAddress : ℤ) + total o.manager.buffers +
      buffer.size * buffer.length =
        o.manager.mmapStartAddress + buffer.size * (buffer.length - 1) +
          used o buffer := by
    rw [used, Int.mul_sub, Int.mul_one]
    omega
  rw [surplus, CInt.toInt_toSize_add, ← hsum, toInt_bufferStartAddress,
    CInt.toInt_add_toInt]

/-- When the surplus is harmless, the buffers that pass the check are those that
fit. -/
theorem harmless_iff {o : Observed} {buffer : SharedRingBuffer}
    (hused : 0 ≤ used o buffer) (hlt : used o buffer < 2 ^ 31) :
    Harmless o buffer ↔
      (CInt.toInt (surplus o buffer + used o buffer) ≤
          o.manager.allocatedMemorySize ↔
        used o buffer ≤ o.manager.allocatedMemorySize) := by
  have hsurplus : surplus o buffer < 2 ^ 32 := CInt.toSize_lt 32 _
  rcases Int.lt_or_le (surplus o buffer + used o buffer) (2 ^ 31) with
    hsmall | hlarge
  · rw [CInt.toInt_eq_self (by omega) hsmall]
    constructor
    · rintro ⟨hfits, htooLarge⟩
      omega
    · intro hiff
      exact ⟨fun h => by omega, fun h => by omega⟩
  · rw [CInt.toInt_eq_sub hlarge (by omega)]
    constructor
    · rintro ⟨hfits, htooLarge⟩
      omega
    · intro hiff
      exact ⟨fun h => by omega, fun h => by omega⟩

theorem addRingBuffer_buffers (o : Observed) (buffer : SharedRingBuffer) :
    (o.manager.addRingBuffer buffer).buffers =
      if CInt.toInt (surplus o buffer + used o buffer) ≤
          o.manager.allocatedMemorySize
      then o.manager.buffers ++ [buffer] else o.manager.buffers := by
  rw [addRingBuffer, toInt_checked]
  by_cases hchecked : CInt.toInt (surplus o buffer + used o buffer) ≤
      o.manager.allocatedMemorySize
  · rw [if_pos hchecked, if_neg (Int.not_lt.mpr hchecked)]
  · rw [if_neg hchecked, if_pos (Int.not_le.mp hchecked)]

/-- Without an overflow, a buffer that does not fit is rejected, and one that
fits is added if the surplus fits as well. -/
theorem harmless_iff_of_lt {o : Observed} {buffer : SharedRingBuffer}
    (hused : 0 ≤ used o buffer)
    (hlt : surplus o buffer + used o buffer < 2 ^ 31) :
    Harmless o buffer ↔
      (used o buffer ≤ o.manager.allocatedMemorySize →
        surplus o buffer + used o buffer ≤
          o.manager.allocatedMemorySize) := by
  rw [harmless_iff hused (by omega), CInt.toInt_eq_self (by omega) hlt]
  omega

theorem addRingBuffer_mapping (m : SharedMemoryManager)
    (buffer : SharedRingBuffer) :
    (m.addRingBuffer buffer).mmapStartAddress = m.mmapStartAddress ∧
      (m.addRingBuffer buffer).allocatedMemorySize = m.allocatedMemorySize := by
  rw [addRingBuffer]
  split <;> exact ⟨rfl, rfl⟩

/-! ## The layout -/

theorem layout_tiles (a : ℕ) {buffers : List SharedRingBuffer}
    (h : ∀ buf ∈ buffers, 0 ≤ buf.size) :
    Tiling.Tiles Prod.fst Prod.snd a (layout a buffers)
      (a + (total buffers).toNat) := by
  induction buffers generalizing a with
  | nil => exact rfl
  | cons buf buffers ih =>
      obtain ⟨hbuf, hrest⟩ := List.forall_mem_cons.mp h
      have hnonneg := total_nonneg hrest
      have hsum : a + (total (buf :: buffers)).toNat =
          a + buf.size.toNat + (total buffers).toNat := by
        rw [total, Int.toNat_add hbuf hnonneg, Nat.add_assoc]
      refine ⟨rfl, Nat.le_add_right _ _, ?_⟩
      rw [hsum]
      exact ih (a + buf.size.toNat) hrest

/-- The buffers added have sizes that are not negative, and fit. -/
structure Invariant (o : Observed) : Prop extends Respects o where
  size_nonneg : ∀ buf ∈ o.manager.buffers, 0 ≤ buf.size
  total_le : total o.manager.buffers ≤ o.manager.allocatedMemorySize

theorem invariant_of_fit {o : Observed}
    (hbuffers : ∀ call ∈ o.last, o.manager.buffers =
      if total call.before + call.buffer.size ≤ o.manager.allocatedMemorySize
      then call.before ++ [call.buffer] else call.before)
    (hsize : ∀ buf ∈ o.manager.buffers, 0 ≤ buf.size)
    (htotal : total o.manager.buffers ≤ o.manager.allocatedMemorySize) :
    Invariant o := by
  have htiles := layout_tiles o.manager.mmapStartAddress hsize
  have hnonneg := total_nonneg hsize
  refine ⟨⟨hbuffers, htiles.pairwise, fun r hr => ⟨htiles.start_ge hr, ?_⟩⟩,
    hsize, htotal⟩
  have hstop := htiles.stop_le hr
  omega

theorem invariant_start (mmapStartAddress : ℕ) {allocatedMemorySize : ℤ}
    (h : 0 ≤ allocatedMemorySize) :
    Invariant (start mmapStartAddress allocatedMemorySize) :=
  invariant_of_fit (fun _ hcall => absurd hcall (Option.not_mem_none _))
    (fun _ hbuf => absurd hbuf List.not_mem_nil) h

/-! ## Sequences of calls -/

theorem Invariant.used_nonneg {o : Observed} (h : Invariant o)
    {buffer : SharedRingBuffer} (hfit : SumsFit o buffer) :
    0 ≤ used o buffer :=
  Int.add_nonneg (total_nonneg h.size_nonneg) hfit.size_nonneg

theorem invariant_step (o : Observed) (buffer : SharedRingBuffer)
    (o' : Observed) (h : Invariant o) (hfit : SumsFit o buffer)
    (hharmless : Harmless o buffer) (hstep : step o buffer = some o') :
    Invariant o' := by
  obtain rfl := Option.some.inj hstep
  have hbuffers := addRingBuffer_buffers o buffer
  obtain ⟨-, hallocated⟩ := addRingBuffer_mapping o.manager buffer
  have hiff := (harmless_iff (h.used_nonneg hfit) hfit.total_lt).mp hharmless
  simp only [hiff] at hbuffers
  rw [used] at hbuffers
  refine invariant_of_fit ?_ ?_ ?_
  · rintro _ ⟨⟩
    rw [hallocated]
    exact hbuffers
  · rw [hbuffers]
    split
    · intro buf hbuf
      rcases List.mem_append.mp hbuf with hbuf | hbuf
      · exact h.size_nonneg buf hbuf
      · exact List.mem_singleton.mp hbuf ▸ hfit.size_nonneg
    · exact h.size_nonneg
  · rw [hbuffers, hallocated]
    split
    · next hroom => rwa [total_append]
    · exact h.total_le

/-- Otherwise a buffer is added that does not fit, or one that fits is not. -/
theorem not_respects_step (o : Observed) (buffer : SharedRingBuffer)
    (o' : Observed) (h : Invariant o) (hfit : SumsFit o buffer)
    (hharm : ¬ Harmless o buffer) (hstep : step o buffer = some o') :
    ¬ Respects o' := by
  obtain rfl := Option.some.inj hstep
  intro hrespects
  apply hharm
  rw [harmless_iff (h.used_nonneg hfit) hfit.total_lt]
  have hbuffers := hrespects.buffers_eq _ rfl
  obtain ⟨-, hallocated⟩ := addRingBuffer_mapping o.manager buffer
  rw [hallocated, addRingBuffer_buffers] at hbuffers
  have hne : o.manager.buffers ++ [buffer] ≠ o.manager.buffers := by simp
  constructor
  · intro hchecked
    by_contra hroom
    rw [used] at hroom
    rw [if_pos hchecked, if_neg hroom] at hbuffers
    exact hne hbuffers
  · intro hroom
    by_contra hchecked
    rw [used] at hroom
    rw [if_neg hchecked, if_pos hroom] at hbuffers
    exact hne hbuffers.symm

/-- `addRingBuffer` respects the mapping throughout a sequence of calls exactly
when the surplus of each call is harmless. -/
theorem respects_iff_harmless (mmapStartAddress : ℕ)
    {allocatedMemorySize : ℤ} (hallocated : 0 ≤ allocatedMemorySize)
    (calls : List SharedRingBuffer)
    (hfit : EachStep step SumsFit
      (start mmapStartAddress allocatedMemorySize) calls) :
    EachState step Respects (start mmapStartAddress allocatedMemorySize)
        calls ↔
      EachStep step Harmless (start mmapStartAddress allocatedMemorySize)
        calls :=
  eachState_iff_eachStep (fun _ h => h.toRespects) invariant_step
    not_respects_step (invariant_start mmapStartAddress hallocated) hfit

/-- A ring of the camera's images. -/
def imageRing (length : ℕ) : SharedRingBuffer :=
  ⟨360960, length, 0, 0x40000000, 0x10000000⟩

/-- With a mapping that is larger than its own address, two images are
added. -/
theorem respects_twoImages :
    EachState step Respects (start 0x40000000 0x50000000)
      [imageRing 1, imageRing 1] :=
  (respects_iff_harmless 0x40000000 (by decide) [imageRing 1, imageRing 1]
    (by decide +kernel)).mpr (by decide +kernel)

/-- A ring that fills the mapping is not added. -/
theorem fitting_ring_rejected :
    ¬ ∀ (mmapStartAddress : ℕ) (allocatedMemorySize : ℤ)
        (calls : List SharedRingBuffer), 0 ≤ allocatedMemorySize →
      EachStep step SumsFit (start mmapStartAddress allocatedMemorySize)
          calls →
        EachState step Respects (start mmapStartAddress allocatedMemorySize)
          calls := by
  intro hall
  have hstates := hall 0x40000000 2887680 [imageRing 8] (by decide)
    (by decide +kernel)
  have hbuffers := (hstates.2 _ rfl).buffers_eq _ rfl
  exact absurd (congrArg List.length hbuffers) (by decide)

end SharedMemoryManager

end NetworkExperiments.Visensor
