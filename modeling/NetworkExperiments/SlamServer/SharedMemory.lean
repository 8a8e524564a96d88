import Mathlib.Algebra.Ring.Nat
import NetworkExperiments.Support.ByteMemory

/-!
# The shared memory of the slam_sensor_server program

The memory is shared with the producers of images and imu samples.  It consists
of regions, each a flag byte followed by data: one region for each camera, then
the imu region and the config region.  The constructor of
`SharedMemoryManager` computes where they start; the regions are disjoint, so
that setting the flag of one changes neither the flag nor the data of another.
-/

namespace NetworkExperiments.SlamServer

/-- `HEADER_SIZE`: the flag byte. -/
def headerSize : ℕ := 1

structure SharedMemory where
  addr : ℕ
  size : ℕ
  deriving DecidableEq, Repr

namespace SharedMemory

def data (region : SharedMemory) : ℕ := region.addr + headerSize

/-- The data bytes of the region. -/
def contents (region : SharedMemory) (memory : ByteMemory) : List UInt8 :=
  memory.bytes region.data region.size

/-- The flag byte read as a `bool`. -/
def newDataAvailable (region : SharedMemory) (memory : ByteMemory) : Bool :=
  memory region.addr ≠ 0

def setNewDataAvailable (region : SharedMemory) (memory : ByteMemory)
    (value : Bool) : ByteMemory :=
  Function.update memory region.addr (if value then 1 else 0)

@[simp] theorem newDataAvailable_set_self (region : SharedMemory)
    (memory : ByteMemory) (value : Bool) :
    region.newDataAvailable (region.setNewDataAvailable memory value) =
      value := by
  rw [newDataAvailable, setNewDataAvailable, Function.update_self]
  cases value <;> rfl

/-- The first address after the region. -/
def stop (region : SharedMemory) : ℕ := region.data + region.size

@[simp] theorem data_eq (region : SharedMemory) :
    region.data = region.addr + 1 := rfl

@[simp] theorem stop_eq (region : SharedMemory) :
    region.stop = region.addr + 1 + region.size := rfl

/-- The regions have no byte in common. -/
def Disjoint (region region' : SharedMemory) : Prop :=
  region.stop ≤ region'.addr ∨ region'.stop ≤ region.addr

theorem Disjoint.symm {region region' : SharedMemory}
    (h : Disjoint region region') : Disjoint region' region :=
  Or.symm h

theorem addr_lt_stop (region : SharedMemory) : region.addr < region.stop := by
  rw [stop_eq]
  omega

theorem Disjoint.ne {region region' : SharedMemory}
    (h : Disjoint region region') {a b : ℕ} (hlo : region.addr ≤ a)
    (hhi : a < region.stop) (hlo' : region'.addr ≤ b)
    (hhi' : b < region'.stop) : a ≠ b := by
  rcases h with h | h <;> omega

theorem newDataAvailable_set_of_disjoint {region region' : SharedMemory}
    (h : Disjoint region region') (memory : ByteMemory) (value : Bool) :
    region.newDataAvailable (region'.setNewDataAvailable memory value) =
      region.newDataAvailable memory := by
  have hne : region.addr ≠ region'.addr :=
    h.ne (Nat.le_refl _) region.addr_lt_stop (Nat.le_refl _)
      region'.addr_lt_stop
  rw [newDataAvailable, setNewDataAvailable, Function.update_of_ne hne,
    newDataAvailable]

/-- Setting a flag changes no data byte: not of its own region, nor of a
disjoint one. -/
theorem contents_set {region region' : SharedMemory}
    (h : region = region' ∨ Disjoint region region') (memory : ByteMemory)
    (value : Bool) :
    region.contents (region'.setNewDataAvailable memory value) =
      region.contents memory := by
  apply ByteMemory.bytes_update
  rw [data_eq]
  rcases h with rfl | h | h
  · exact Or.inl (Nat.lt_succ_self _)
  · exact Or.inr h
  · have hlt := Nat.lt_of_lt_of_le region'.addr_lt_stop h
    exact Or.inl (Nat.lt_succ_of_lt hlt)

end SharedMemory

/-- The regions of the shared memory. -/
inductive Region
  | cam (i : ℕ)
  | imu
  | config
  deriving DecidableEq, Repr

/-- The arguments of the constructor of `SharedMemoryManager`.  The space that
it computes for them fits in `int`, so that its arithmetic is exact. -/
structure MemoryConfig where
  numCams : ℕ
  imageSize : ℕ
  imuSize : ℕ
  configSize : ℕ
  memSpace_lt : (imageSize + 1) * numCams + imuSize + 1 + configSize + 1 <
    2 ^ 31

structure SharedMemoryManager where
  numCams : ℕ
  cams : List SharedMemory
  imu : SharedMemory
  config : SharedMemory

namespace SharedMemoryManager

/-- The constructor, for memory mapped at `addr`. -/
def ofConfig (c : MemoryConfig) (addr : ℕ) : SharedMemoryManager :=
  let imu : SharedMemory :=
    ⟨addr + (c.imageSize + headerSize) * c.numCams, c.imuSize⟩
  { numCams := c.numCams
    cams := (List.range c.numCams).map fun i =>
      ⟨addr + (c.imageSize + headerSize) * i, c.imageSize⟩
    imu := imu
    config := ⟨imu.data + imu.size, c.configSize⟩ }

/-- `cams_.at(cam_id)`, which throws for an index out of range. -/
def cam (m : SharedMemoryManager) (camId : ℕ) : Option SharedMemory :=
  m.cams[camId]?

end SharedMemoryManager

namespace MemoryConfig

variable (c : MemoryConfig) (addr : ℕ)

/-- The regions that there are. -/
def HasRegion : Region → Prop
  | .cam i => i < c.numCams
  | .imu | .config => True

/-- The object for a region. -/
def sharedMemory : Region → SharedMemory
  | .cam i => ⟨addr + (c.imageSize + headerSize) * i, c.imageSize⟩
  | .imu => (SharedMemoryManager.ofConfig c addr).imu
  | .config => (SharedMemoryManager.ofConfig c addr).config

theorem size_cam_lt {i : ℕ} (hi : i < c.numCams) :
    (c.sharedMemory addr (.cam i)).size < 2 ^ 31 := by
  have hmul : (c.imageSize + 1) * 1 ≤ (c.imageSize + 1) * c.numCams :=
    Nat.mul_le_mul_left _ (Nat.zero_lt_of_lt hi)
  have hspace := c.memSpace_lt
  change c.imageSize < 2 ^ 31
  omega

theorem cam_ofConfig {i : ℕ} (hi : i < c.numCams) :
    (SharedMemoryManager.ofConfig c addr).cam i =
      some (c.sharedMemory addr (.cam i)) := by
  rw [SharedMemoryManager.cam, SharedMemoryManager.ofConfig]
  simp only [List.getElem?_map, List.getElem?_range hi, Option.map_some]
  rfl

variable {c addr}

theorem stop_cam_le {i j : ℕ} (hij : i < j) :
    (c.sharedMemory addr (.cam i)).stop ≤
      addr + (c.imageSize + headerSize) * j := by
  have hmul : (c.imageSize + headerSize) * (i + 1) ≤
      (c.imageSize + headerSize) * j := Nat.mul_le_mul_left _ hij
  rw [Nat.mul_add] at hmul
  simp only [SharedMemory.stop, SharedMemory.data, sharedMemory]
  omega

theorem stop_imu_eq :
    (c.sharedMemory addr .imu).stop = (c.sharedMemory addr .config).addr :=
  rfl

theorem addr_imu_le :
    (c.sharedMemory addr .imu).addr ≤ (c.sharedMemory addr .config).addr := by
  rw [← stop_imu_eq, SharedMemory.stop, SharedMemory.data]
  omega

theorem disjoint_of_ne {r r' : Region} (hr : c.HasRegion r)
    (hr' : c.HasRegion r') (hne : r ≠ r') :
    (c.sharedMemory addr r).Disjoint (c.sharedMemory addr r') := by
  have hcams : ∀ {i j}, i < j → (c.sharedMemory addr (.cam i)).Disjoint
      (c.sharedMemory addr (.cam j)) := fun hij => Or.inl (stop_cam_le hij)
  have himu : ∀ {i}, i < c.numCams → (c.sharedMemory addr (.cam i)).Disjoint
      (c.sharedMemory addr .imu) := fun hi => Or.inl (stop_cam_le hi)
  have hconfig : ∀ {i}, i < c.numCams → (c.sharedMemory addr (.cam i)).Disjoint
      (c.sharedMemory addr .config) := fun hi =>
    Or.inl (Nat.le_trans (stop_cam_le hi) addr_imu_le)
  cases r with
  | cam i =>
      cases r' with
      | cam j =>
          rcases Nat.lt_or_gt_of_ne (fun h => hne (congrArg _ h)) with h | h
          · exact hcams h
          · exact (hcams h).symm
      | imu => exact himu hr
      | config => exact hconfig hr
  | imu =>
      cases r' with
      | cam j => exact (himu hr').symm
      | imu => exact absurd rfl hne
      | config => exact Or.inl (Nat.le_of_eq stop_imu_eq)
  | config =>
      cases r' with
      | cam j => exact (hconfig hr').symm
      | imu => exact Or.inr (Nat.le_of_eq stop_imu_eq)
      | config => exact absurd rfl hne

/-- Setting the flag of a region changes no other flag. -/
theorem newDataAvailable_set {r r' : Region} (hr : c.HasRegion r)
    (hr' : c.HasRegion r') (memory : ByteMemory) (value : Bool) :
    (c.sharedMemory addr r).newDataAvailable
        ((c.sharedMemory addr r').setNewDataAvailable memory value) =
      if r = r' then value
      else (c.sharedMemory addr r).newDataAvailable memory := by
  by_cases heq : r = r'
  · rw [if_pos heq, heq, SharedMemory.newDataAvailable_set_self]
  · rw [if_neg heq]
    exact SharedMemory.newDataAvailable_set_of_disjoint
      (disjoint_of_ne hr hr' heq) memory value

/-- Setting the flag of a region changes no data byte of any region. -/
theorem contents_set {r r' : Region} (hr : c.HasRegion r)
    (hr' : c.HasRegion r') (memory : ByteMemory) (value : Bool) :
    (c.sharedMemory addr r).contents
        ((c.sharedMemory addr r').setNewDataAvailable memory value) =
      (c.sharedMemory addr r).contents memory := by
  apply SharedMemory.contents_set
  by_cases heq : r = r'
  · exact Or.inl (congrArg _ heq)
  · exact Or.inr (disjoint_of_ne hr hr' heq)

end MemoryConfig

end NetworkExperiments.SlamServer
