import NetworkExperiments.SlamServer.SharedMemory
import NetworkExperiments.Support.CInt
import NetworkExperiments.Support.Tiling

/-!
# The layout of the shared memory

The constructor of `SharedMemoryManager` computes the space that it maps, the
addresses of the camera regions and those of the last two regions in three
different ways.  They agree: the regions follow one another without a gap from
the first byte of the mapping to its last, for every number of cameras.  So no
write to one region is seen in another.
-/

namespace NetworkExperiments.SlamServer

namespace SharedMemory

/-- Memories that differ in data bytes of the region only. -/
def WritesData (region : SharedMemory) (memory memory' : ByteMemory) : Prop :=
  ∀ a, ¬ (region.data ≤ a ∧ a < region.data + region.size) →
    memory' a = memory a

/-- Neither the flag nor a data byte of `region'` changes from `memory` to
`memory'`. -/
def Unchanged (region' : SharedMemory) (memory memory' : ByteMemory) : Prop :=
  region'.newDataAvailable memory' = region'.newDataAvailable memory ∧
    region'.contents memory' = region'.contents memory

/-- Setting the flag of `region` or writing to its data leaves `region'`
unchanged. -/
structure Isolated (region region' : SharedMemory) : Prop where
  flag : ∀ memory value,
    region'.Unchanged memory (region.setNewDataAvailable memory value)
  data : ∀ memory memory', region.WritesData memory memory' →
    region'.Unchanged memory memory'

theorem unchanged_of_writesData {region region' : SharedMemory}
    (h : Disjoint region region') {memory memory' : ByteMemory}
    (hwrite : region.WritesData memory memory') :
    region'.Unchanged memory memory' := by
  have houtside : ∀ a, region'.addr ≤ a → a < region'.stop →
      memory' a = memory a := by
    intro a hlo hhi
    apply hwrite
    rintro ⟨hdata, hstop⟩
    have haddr : region.addr ≤ a := Nat.le_of_succ_le hdata
    exact h.ne haddr hstop hlo hhi rfl
  constructor
  · rw [newDataAvailable, newDataAvailable,
      houtside region'.addr (Nat.le_refl _) region'.addr_lt_stop]
  · apply ByteMemory.bytes_congr
    intro k hk
    apply houtside
    · rw [data_eq]
      omega
    · rw [stop_eq, data_eq]
      omega

theorem isolated_of_disjoint {region region' : SharedMemory}
    (h : Disjoint region region') : Isolated region region' where
  flag memory value :=
    ⟨newDataAvailable_set_of_disjoint h.symm memory value,
      contents_set (Or.inr h.symm) memory value⟩
  data _ _ := unchanged_of_writesData h

end SharedMemory

/-- All regions that the manager has. -/
def SharedMemoryManager.regions (m : SharedMemoryManager) :
    List SharedMemory :=
  m.cams ++ [m.imu, m.config]

namespace MemoryConfig

open SharedMemory Tiling

variable (c : MemoryConfig)

/-- `mem_space`, the number of bytes that the constructor maps. -/
def memSpace : ℤ :=
  CInt.toInt (CInt.toInt (CInt.toInt (CInt.toInt (CInt.toInt
    (CInt.toInt (c.imageSize + 1) * c.numCams) + c.imuSize) + 1) +
      c.configSize) + 1)

/-- None of the sums overflows, and where the first one could, it is not
used. -/
theorem memSpace_eq :
    c.memSpace = ((c.imageSize + 1) * c.numCams + c.imuSize + 1 +
      c.configSize + 1 : ℕ) := by
  have hspace := c.memSpace_lt
  have hcams : CInt.toInt (CInt.toInt (c.imageSize + 1) * c.numCams) =
      ((c.imageSize + 1) * c.numCams : ℕ) := by
    by_cases hn : c.numCams = 0
    · simp [hn, CInt.toInt]
    · have hone : (c.imageSize + 1) * 1 ≤ (c.imageSize + 1) * c.numCams :=
        Nat.mul_le_mul_left _ (Nat.pos_of_ne_zero hn)
      have hsum : CInt.toInt ((c.imageSize : ℤ) + 1) = c.imageSize + 1 :=
        CInt.toInt_eq_self (by omega) (by omega)
      have hproduct : ((c.imageSize : ℤ) + 1) * c.numCams =
          ((c.imageSize + 1) * c.numCams : ℕ) := by
        push_cast
        rfl
      rw [hsum, hproduct, CInt.toInt_eq_self (by omega) (by omega)]
  rw [memSpace, hcams]
  generalize (c.imageSize + 1) * c.numCams = cams at hspace ⊢
  have hexact : ∀ x : ℤ, 0 ≤ x → x < 2 ^ 31 → CInt.toInt x = x :=
    fun x hlo hhi => CInt.toInt_eq_self (by omega) hhi
  rw [hexact (cams + c.imuSize) (by omega) (by omega),
    hexact (cams + c.imuSize + 1) (by omega) (by omega),
    hexact (cams + c.imuSize + 1 + c.configSize) (by omega) (by omega),
    hexact _ (by omega) (by omega)]
  push_cast
  rfl

theorem tiles_cams (addr n : ℕ) :
    Tiles SharedMemory.addr stop addr
      ((List.range n).map fun i =>
        (⟨addr + (c.imageSize + headerSize) * i, c.imageSize⟩ : SharedMemory))
      (addr + (c.imageSize + headerSize) * n) := by
  induction n with
  | zero => exact Nat.add_zero addr
  | succ n ih =>
      rw [List.range_succ, List.map_append, List.map_singleton]
      refine ih.append ⟨rfl, Nat.le_of_lt (addr_lt_stop _), ?_⟩
      · change addr + (c.imageSize + headerSize) * n + headerSize +
          c.imageSize = addr + (c.imageSize + headerSize) * (n + 1)
        rw [Nat.mul_succ]
        omega

theorem tiles_regions (addr : ℕ) :
    Tiles SharedMemory.addr stop addr
      (SharedMemoryManager.ofConfig c addr).regions
      (addr + c.memSpace.toNat) := by
  refine (c.tiles_cams addr c.numCams).append
    ⟨rfl, Nat.le_of_lt (addr_lt_stop _), rfl, Nat.le_of_lt (addr_lt_stop _), ?_⟩
  · change (SharedMemoryManager.ofConfig c addr).config.stop = _
    rw [memSpace_eq, Int.toNat_natCast]
    simp only [SharedMemoryManager.ofConfig, stop, data, headerSize]
    omega

/-- The regions that the constructor builds are pairwise disjoint, lie in the
mapping and cover it; what is written to one of them is not seen in any
other. -/
theorem regions_tile_mapping (addr : ℕ) :
    let regions := (SharedMemoryManager.ofConfig c addr).regions
    regions.Pairwise SharedMemory.Disjoint ∧
      (∀ a, (∃ r ∈ regions, r.addr ≤ a ∧ a < r.stop) ↔
        addr ≤ a ∧ (a : ℤ) < addr + c.memSpace) ∧
      regions.Pairwise fun r r' => Isolated r r' ∧ Isolated r' r := by
  have htiles := c.tiles_regions addr
  have hdisjoint : (SharedMemoryManager.ofConfig c addr).regions.Pairwise
      SharedMemory.Disjoint := htiles.pairwise.imp Or.inl
  refine ⟨hdisjoint, ?_, ?_⟩
  · intro a
    obtain ⟨space, hspace⟩ : ∃ space : ℕ, c.memSpace = space :=
      ⟨_, c.memSpace_eq⟩
    rw [htiles.mem_iff, hspace, Int.toNat_natCast]
    omega
  · exact hdisjoint.imp fun h =>
      ⟨isolated_of_disjoint h, isolated_of_disjoint h.symm⟩

end MemoryConfig

end NetworkExperiments.SlamServer
