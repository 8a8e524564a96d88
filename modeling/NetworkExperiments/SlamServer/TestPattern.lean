import NetworkExperiments.SlamServer.MemoryLayout

/-!
# The test pattern of the server

At its start, `main` fills the image of camera 0 with the decimal texts of
0, 1, 2 and so on, one every four bytes.  A text and its terminating NUL are
written as a whole, so the last ones have to be short enough: behind the image
are the flag and the data of the next region.
-/

namespace NetworkExperiments.SlamServer

open SharedMemory

/-- What `sprintf` writes for `"%d"` and a number that is not negative. -/
def decimalText (n : ℕ) : List UInt8 :=
  (Nat.toDigits 10 n).map (fun c => UInt8.ofNat c.toNat) ++ [0]

def sprintfDecimal (memory : ByteMemory) (a n : ℕ) : ByteMemory :=
  memory.write a (decimalText n).length fun k => (decimalText n).getD k 0

/-- `for(int i = 0; i<IMAGE_SIZE; i+=4)`, after some iterations. -/
def fillLoop (data : ℕ) (memory : ByteMemory) : ℕ → ByteMemory
  | 0 => memory
  | k + 1 => sprintfDecimal (fillLoop data memory k) (data + 4 * k) (4 * k / 4)

/-- The start of `main`, for the given image size.  Without a camera 0, `cam`
throws. -/
def testPattern (m : SharedMemoryManager) (imageSize : ℕ)
    (memory : ByteMemory) : Option ByteMemory :=
  (m.cam 0).map fun region =>
    fillLoop region.data (memory.write region.data 4 fun _ => 0)
      ((imageSize + 3) / 4)

/-- Whatever is in memory, the test pattern changes data bytes of camera 0 only:
no flag, and no data of another region. -/
structure PatternContained (c : MemoryConfig) (addr : ℕ) : Prop where
  writesData : ∀ memory memory',
    testPattern (SharedMemoryManager.ofConfig c addr) c.imageSize memory =
        some memory' →
      (c.sharedMemory addr (.cam 0)).WritesData memory memory'
  flag_eq : ∀ memory memory',
    testPattern (SharedMemoryManager.ofConfig c addr) c.imageSize memory =
        some memory' →
      ∀ r, c.HasRegion r → (c.sharedMemory addr r).newDataAvailable memory' =
        (c.sharedMemory addr r).newDataAvailable memory
  contents_eq : ∀ memory memory',
    testPattern (SharedMemoryManager.ofConfig c addr) c.imageSize memory =
        some memory' →
      ∀ r, c.HasRegion r → r ≠ .cam 0 →
        (c.sharedMemory addr r).contents memory' =
          (c.sharedMemory addr r).contents memory

/-! ## The length of the texts -/

theorem length_decimalText (n : ℕ) :
    (decimalText n).length = (Nat.toDigits 10 n).length + 1 := by
  rw [decimalText, List.length_append, List.length_map]
  rfl

/-- With three digits at most, a text takes the four bytes that the loop
advances. -/
theorem length_decimalText_le_iff (n : ℕ) :
    (decimalText n).length ≤ 4 ↔ n < 1000 := by
  rw [length_decimalText, Nat.add_le_add_iff_right]
  exact Nat.length_toDigits_le_iff (by decide) (by decide)

theorem sprintfDecimal_of_outside (memory : ByteMemory) {a n x : ℕ}
    (hn : n < 1000) (hx : x < a ∨ a + 4 ≤ x) :
    sprintfDecimal memory a n x = memory x := by
  have hlength := (length_decimalText_le_iff n).mpr hn
  exact ByteMemory.write_of_outside memory _ (by omega)

/-- As long as the numbers have three digits, the loop stays behind itself. -/
theorem fillLoop_of_outside (data : ℕ) (memory : ByteMemory) {k x : ℕ}
    (hk : k ≤ 1000) (hx : x < data ∨ data + 4 * k ≤ x) :
    fillLoop data memory k x = memory x := by
  induction k with
  | zero => rfl
  | succ k ih =>
      have hnumber : 4 * k / 4 < 1000 := by omega
      rw [fillLoop, sprintfDecimal_of_outside _ hnumber (by omega)]
      exact ih (by omega) (by omega)

theorem fillLoop_at_end (data : ℕ) (memory : ByteMemory) {k : ℕ}
    (hk : 1000 ≤ k) :
    fillLoop data memory (k + 1) (data + 4 * (k + 1)) =
      (decimalText k).getD 4 0 := by
  have hlong : 4 < (decimalText k).length := by
    have := length_decimalText_le_iff k
    omega
  have hnumber : 4 * k / 4 = k := Nat.mul_div_cancel_left k (by decide)
  have hplace : data + 4 * (k + 1) = data + 4 * k + 4 := by omega
  rw [fillLoop, sprintfDecimal, hnumber, hplace]
  exact ByteMemory.write_of_inside _ _ hlong

/-! ## The regions -/

theorem testPattern_eq {c : MemoryConfig} {addr : ℕ} (h : 0 < c.numCams)
    (memory : ByteMemory) :
    testPattern (SharedMemoryManager.ofConfig c addr) c.imageSize memory =
      some (fillLoop (c.sharedMemory addr (.cam 0)).data
        (memory.write (c.sharedMemory addr (.cam 0)).data 4 fun _ => 0)
        ((c.imageSize + 3) / 4)) := by
  rw [testPattern, MemoryConfig.cam_ofConfig c addr h, Option.map_some]

theorem testPattern_eq_none {c : MemoryConfig} {addr : ℕ}
    (h : c.numCams = 0) (memory : ByteMemory) :
    testPattern (SharedMemoryManager.ofConfig c addr) c.imageSize memory =
      none := by
  rw [testPattern, SharedMemoryManager.cam, SharedMemoryManager.ofConfig, h]
  rfl

/-- What writes to the data of camera 0 only changes no flag and no data of
another region. -/
theorem patternContained_of_writesData {c : MemoryConfig} {addr : ℕ}
    (h : ∀ memory memory',
      testPattern (SharedMemoryManager.ofConfig c addr) c.imageSize memory =
          some memory' →
        0 < c.numCams ∧
          (c.sharedMemory addr (.cam 0)).WritesData memory memory') :
    PatternContained c addr := by
  refine ⟨fun memory memory' hpattern => (h memory memory' hpattern).2, ?_, ?_⟩
  · intro memory memory' hpattern r hr
    obtain ⟨hcam, hwrites⟩ := h memory memory' hpattern
    by_cases hzero : r = .cam 0
    · subst hzero
      have hflag : memory' (c.sharedMemory addr (.cam 0)).addr =
          memory (c.sharedMemory addr (.cam 0)).addr := by
        apply hwrites
        rw [data_eq]
        omega
      rw [newDataAvailable, newDataAvailable, hflag]
    · have hdisjoint : (c.sharedMemory addr (.cam 0)).Disjoint
          (c.sharedMemory addr r) :=
        MemoryConfig.disjoint_of_ne (show c.HasRegion (.cam 0) from hcam) hr
          (Ne.symm hzero)
      exact (unchanged_of_writesData hdisjoint hwrites).1
  · intro memory memory' hpattern r hr hne
    obtain ⟨hcam, hwrites⟩ := h memory memory' hpattern
    have hdisjoint : (c.sharedMemory addr (.cam 0)).Disjoint
        (c.sharedMemory addr r) :=
      MemoryConfig.disjoint_of_ne (show c.HasRegion (.cam 0) from hcam) hr
        (Ne.symm hne)
    exact (unchanged_of_writesData hdisjoint hwrites).2

theorem writesData_of_le {c : MemoryConfig} (addr : ℕ) (hmul : 4 ∣ c.imageSize)
    (hpos : 0 < c.imageSize) (hle : c.imageSize ≤ 4000) (hcam : 0 < c.numCams)
    {memory memory' : ByteMemory}
    (h : testPattern (SharedMemoryManager.ofConfig c addr) c.imageSize memory =
      some memory') :
    (c.sharedMemory addr (.cam 0)).WritesData memory memory' := by
  rw [testPattern_eq hcam] at h
  obtain rfl := Option.some.inj h
  obtain ⟨n, hn⟩ := hmul
  have hsize : (c.sharedMemory addr (.cam 0)).size = c.imageSize := rfl
  intro a ha
  rw [hsize] at ha
  rw [fillLoop_of_outside _ _ (by omega) (by omega)]
  exact ByteMemory.write_of_outside memory _ (by omega)

theorem not_patternContained {c : MemoryConfig} (addr : ℕ)
    (hmul : 4 ∣ c.imageSize) (hlarge : 4000 < c.imageSize)
    (hcam : 0 < c.numCams) : ¬ PatternContained c addr := by
  intro h
  obtain ⟨n, hn⟩ := hmul
  obtain ⟨k, rfl⟩ : ∃ k, n = k + 1 := ⟨n - 1, by omega⟩
  have hcount : (c.imageSize + 3) / 4 = k + 1 := by omega
  obtain ⟨x, hx⟩ : ∃ x : UInt8, (decimalText k).getD 4 0 ≠ x := by
    by_cases hzero : (decimalText k).getD 4 0 = 0
    · refine ⟨1, ?_⟩
      rw [hzero]
      decide
    · exact ⟨0, hzero⟩
  have hwrites := h.writesData (fun _ => x) _ (testPattern_eq hcam _)
  have hbehind := hwrites ((c.sharedMemory addr (.cam 0)).data + c.imageSize)
    fun hinside => Nat.lt_irrefl _ hinside.2
  rw [hcount, hn, fillLoop_at_end _ _ (by omega)] at hbehind
  exact hx hbehind

/-- The test pattern stays inside of the image exactly when that has at most
4000 bytes. -/
theorem patternContained_iff (c : MemoryConfig) (addr : ℕ)
    (hmul : 4 ∣ c.imageSize) (hpos : 0 < c.imageSize) :
    PatternContained c addr ↔ c.numCams = 0 ∨ c.imageSize ≤ 4000 := by
  constructor
  · intro h
    by_contra hnot
    obtain ⟨hcam, hlarge⟩ := not_or.mp hnot
    exact not_patternContained addr hmul (Nat.not_le.mp hlarge)
      (Nat.pos_of_ne_zero hcam) h
  · intro h
    apply patternContained_of_writesData
    intro memory memory' hpattern
    by_cases hcam : c.numCams = 0
    · rw [testPattern_eq_none hcam] at hpattern
      exact absurd hpattern (Option.some_ne_none _).symm
    · have hcam := Nat.pos_of_ne_zero hcam
      exact ⟨hcam, writesData_of_le addr hmul hpos
        (h.resolve_left (Nat.ne_of_gt hcam)) hcam hpattern⟩

/-- The regions of `main`, for two cameras. -/
def mainConfig (imageSize : ℕ) (h : imageSize < 2 ^ 29) : MemoryConfig where
  numCams := 2
  imageSize := imageSize
  imuSize := 10
  configSize := 10
  memSpace_lt := by omega

/-- With the image size for debugging the pattern is contained. -/
theorem patternContained_debug :
    PatternContained (mainConfig 100 (by decide)) 0x40000000 :=
  (patternContained_iff (mainConfig 100 (by decide)) 0x40000000 (by decide)
    (by decide)).mpr (Or.inr (by decide))

/-- With the image size of the camera it is not. -/
theorem pattern_exceeds_image :
    ¬ ∀ (c : MemoryConfig) (addr : ℕ), 4 ∣ c.imageSize → 0 < c.imageSize →
      PatternContained c addr := by
  intro hall
  have hcontained := hall (mainConfig 360960 (by decide)) 0x40000000
    (by decide) (by decide)
  exact not_patternContained 0x40000000 (by decide) (by decide) (by decide)
    hcontained

end NetworkExperiments.SlamServer
