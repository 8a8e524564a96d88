import NetworkExperiments.Visensor.SharedRingBuffer
import NetworkExperiments.VisensorMod.Containment

/-!
# The pages that the server and the FPGA share

The server finds the ring in memory that it has mapped, and the FPGA finds it
at physical addresses; both come from the kernel module.  This file models
`aslam_read`, which answers the two questions that the constructor of
`SharedRingBuffer` asks, and the constructor, which maps as many bytes as it is
told.  `ring_shared` says that the two ways to the ring lead to the same bytes,
all inside of the block from `kmalloc`.
-/

namespace NetworkExperiments.Visensor.SharedPages

open VisensorMod

/-- `aslam_read`: the value returned, and the `int` copied to the caller.  What
is read depends on the number of bytes asked for, and four bytes are copied
even so. -/
def aslamRead (statics : Statics) (virtToPhys : ℕ → ℕ) (count : ℕ) :
    ℤ × Option ℤ :=
  match count with
  | 0 => (4, some (CInt.toInt (virtToPhys statics.kmallocArea)))
  | 1 => (4, some statics.bytesInMemory)
  | _ => (-5, none)

/-- `mmap` of a number of bytes at offset 0.  The kernel rounds it up to pages
and chooses the address; the result is `none` where it is `MAP_FAILED`. -/
def mmap (cfg : Config) (statics : Statics) (virtToPhys : ℕ → ℕ)
    (remapPfnRange : Outcome Unit) (address length : ℕ) : Option Mapping :=
  if length = 0 then none
  else
    (aslamMmap cfg statics virtToPhys remapPfnRange
      { vmStart := address
        vmEnd := address +
          (length + cfg.pageSize - 1) / cfg.pageSize * cfg.pageSize
        vmPgoff := 0 }).2

/-- The constructor of `SharedRingBuffer`: the buffer and what has been mapped
for it.  The program exits when `mmap` fails. -/
def constructor (cfg : Config) (statics : Statics) (virtToPhys : ℕ → ℕ)
    (remapPfnRange : Outcome Unit) (address dataSize length : ℕ) :
    Option (SharedRingBuffer × Mapping) :=
  (aslamRead statics virtToPhys 1).2.bind fun allocatedMemorySize =>
    (mmap cfg statics virtToPhys remapPfnRange address
        (CInt.toSize cfg.bits allocatedMemorySize)).bind fun mapping =>
      (aslamRead statics virtToPhys 0).2.map fun bufferPysicalAddress =>
        ({ dataSize := dataSize
           length := length
           position := 0
           mmapStartAddress := address
           bufferPysicalAddress := bufferPysicalAddress }, mapping)

/-- The physical address behind an address of a mapping that starts at
`vmStart`. -/
def translate (cfg : Config) (mapping : Mapping) (vmStart addr : ℕ) :
    Option ℕ :=
  if vmStart ≤ addr ∧ addr < vmStart + mapping.size then
    some ((mapping.pfn + (addr - vmStart) / cfg.pageSize) * cfg.pageSize +
      (addr - vmStart) % cfg.pageSize)
  else none

/-- The server and the FPGA find the same byte behind every byte of the ring,
and it lies in a block of physical memory. -/
def SharesRing (cfg : Config) (c : RingConfig) (mapping : Mapping)
    (block size : ℕ) : Prop :=
  ∀ i < c.length, ∀ k < c.dataSize,
    ∃ addr, translate cfg mapping c.mmapStart (c.slotData i + k) =
        some addr ∧
      (addr : ℤ) = c.slotAddress i + k ∧ block ≤ addr ∧ addr < block + size

/-! ## Mapping the whole area -/

/-- In a mapping of whole pages, addresses are only shifted. -/
theorem translate_eq {cfg : Config} {base size : ℕ}
    (hbase : cfg.pageSize ∣ base) (vmStart : ℕ) {offset : ℕ}
    (hoffset : offset < size) :
    translate cfg ⟨base >>> cfg.pageShift, size⟩ vmStart
      (vmStart + offset) = some (base + offset) := by
  obtain ⟨pages, rfl⟩ := hbase
  have hpfn : (cfg.pageSize * pages) >>> cfg.pageShift = pages := by
    rw [Nat.shiftRight_eq_div_pow]
    exact Nat.mul_div_cancel_left pages cfg.pageSize_pos
  have hinside : vmStart ≤ vmStart + offset ∧
      vmStart + offset < vmStart + size := by omega
  have hdiv := Nat.div_add_mod offset cfg.pageSize
  rw [translate, if_pos hinside, hpfn, Nat.add_sub_cancel_left, Nat.add_mul,
    Nat.mul_comm pages, Nat.mul_comm (offset / cfg.pageSize), Nat.add_assoc,
    hdiv]

theorem mmap_area {cfg : Config} (statics : Statics) (virtToPhys : ℕ → ℕ)
    (address : ℕ) (hpos : 0 < cfg.areaBytes) :
    mmap cfg statics virtToPhys (.done ()) address cfg.areaBytes =
      some ⟨virtToPhys statics.kmallocArea >>> cfg.pageShift,
        cfg.areaBytes⟩ := by
  have hpage := cfg.pageSize_pos
  obtain ⟨pages, hpages⟩ := cfg.pageSize_dvd_areaBytes
  have hround : (cfg.areaBytes + cfg.pageSize - 1) / cfg.pageSize *
      cfg.pageSize = cfg.areaBytes := by
    rw [hpages, Nat.add_sub_assoc hpage, Nat.mul_add_div hpage,
      Nat.div_eq_of_lt (by omega), Nat.add_zero, Nat.mul_comm]
  have hlength : CInt.toSize cfg.bits (CInt.toLong cfg.bits
      (((address + cfg.areaBytes : ℕ) : ℤ) - address)) = cfg.areaBytes := by
    rw [CInt.toSize_toLong, ← Int.natCast_sub (Nat.le_add_right _ _),
      Nat.add_sub_cancel_left]
    exact CInt.toSize_natCast cfg.areaBytes_lt
  rw [mmap, if_neg (Nat.pos_iff_ne_zero.mp hpos), hround]
  simp only [aslamMmap, aslamKmem, hlength, Nat.lt_irrefl, if_true, if_false]

theorem aslamInit_statics (cfg : Config) {answers : Answers} {ptr : ℕ}
    (hkmalloc : answers.kmalloc = some ptr) (statics : Statics) :
    (aslamInit cfg answers statics).2.1.kmallocArea = roundUp cfg ptr ∧
      (aslamInit cfg answers statics).2.1.bytesInMemory =
        CInt.toInt cfg.areaBytes := by
  obtain ⟨kmalloc, region, cdev, cl⟩ := answers
  cases (hkmalloc : kmalloc = some ptr)
  simp only [aslamInit, and_self]

/-! ## The ring -/

section Ring

variable {cfg : Config} (h : cfg.Sensible) {ptr : ℕ}
  (hwrap : ptr + cfg.kmallocBytes ≤ 2 ^ cfg.bits) {virtToPhys : ℕ → ℕ}
  (hlinear : LinearOn cfg virtToPhys ptr cfg.kmallocBytes)
  (hphys : virtToPhys ptr + cfg.kmallocBytes ≤ 2 ^ 31)
include h hwrap hlinear hphys

/-- The physical area begins at a page, in the block, and its end is still an
`int`. -/
theorem physicalArea_spec :
    cfg.pageSize ∣ virtToPhys (roundUp cfg ptr) ∧
      virtToPhys ptr ≤ virtToPhys (roundUp cfg ptr) ∧
      virtToPhys (roundUp cfg ptr) + cfg.areaBytes <
        virtToPhys ptr + cfg.kmallocBytes ∧
      virtToPhys (roundUp cfg ptr) + cfg.areaBytes < 2 ^ 31 := by
  obtain ⟨hdvd, hle, hend⟩ := area_spec h hwrap
  have harea := hlinear.linear _ hle (by omega)
  refine ⟨hlinear.aligned _ hle (by omega) hdvd, ?_, ?_, ?_⟩ <;> omega

/-- A ring that fits into the area, with the place behind it. -/
def ringConfig (address : ℕ) {dataSize length : ℕ} (hdataSize : 0 < dataSize)
    (hlength : 0 < length)
    (hfits : dataSize * (length + 1) ≤ cfg.areaBytes) : RingConfig where
  start := virtToPhys (roundUp cfg ptr)
  mmapStart := address
  dataSize := dataSize
  length := length
  dataSize_pos := hdataSize
  length_pos := hlength
  start_ge := by omega
  span_lt := by
    have := (physicalArea_spec h hwrap hlinear hphys).2.2.2
    omega
  end_lt := by
    have := (physicalArea_spec h hwrap hlinear hphys).2.2.2
    have hcast : ((dataSize * (length + 1) : ℕ) : ℤ) =
        (dataSize : ℤ) * (length + 1) := by
      push_cast
      rfl
    omega

/-- The constructor makes the buffer of this ring, and maps the area. -/
theorem constructor_eq {statics : Statics}
    (harea : statics.kmallocArea = roundUp cfg ptr)
    (hbytes : statics.bytesInMemory = CInt.toInt cfg.areaBytes) (address : ℕ)
    {dataSize length : ℕ} (hdataSize : 0 < dataSize) (hlength : 0 < length)
    (hfits : dataSize * (length + 1) ≤ cfg.areaBytes) :
    constructor cfg statics virtToPhys (.done ()) address dataSize length =
      some ((ringConfig h hwrap hlinear hphys address hdataSize hlength
          hfits).buffer 0,
        ⟨virtToPhys (roundUp cfg ptr) >>> cfg.pageShift, cfg.areaBytes⟩) := by
  obtain ⟨-, -, -, hend⟩ := physicalArea_spec h hwrap hlinear hphys
  have hstart : CInt.toInt (virtToPhys (roundUp cfg ptr) : ℕ) =
      virtToPhys (roundUp cfg ptr) :=
    CInt.toInt_natCast (Nat.lt_of_le_of_lt (Nat.le_add_right _ _) hend)
  have hpos : 0 < cfg.areaBytes :=
    lt_of_lt_of_le (Nat.mul_pos hdataSize (Nat.succ_pos _)) hfits
  have hint : CInt.toInt cfg.areaBytes = cfg.areaBytes :=
    CInt.toInt_natCast (Nat.lt_of_le_of_lt (Nat.le_add_left _ _) hend)
  have hsize : CInt.toSize cfg.bits statics.bytesInMemory =
      cfg.areaBytes := by
    rw [hbytes, hint]
    exact CInt.toSize_natCast cfg.areaBytes_lt
  have hmapping := mmap_area statics virtToPhys address hpos
  rw [harea] at hmapping
  simp only [constructor, aslamRead, Option.bind_some, hsize, hmapping, harea,
    hstart, Option.map_some]
  rfl

end Ring

/-- Once the module is loaded, the server and the FPGA share the ring: each byte
of a slot is the same byte of physical memory for both, inside of the block,
and no address of the ring overflows. -/
theorem ring_shared {cfg : Config} (h : cfg.Sensible) {answers : Answers}
    {ptr : ℕ} (hkmalloc : answers.kmalloc = some ptr)
    (hwrap : ptr + cfg.kmallocBytes ≤ 2 ^ cfg.bits) (statics : Statics)
    {virtToPhys : ℕ → ℕ}
    (hlinear : LinearOn cfg virtToPhys ptr cfg.kmallocBytes)
    (hphys : virtToPhys ptr + cfg.kmallocBytes ≤ 2 ^ 31) (address : ℕ)
    {dataSize length : ℕ} (hdataSize : 0 < dataSize) (hlength : 0 < length)
    (hfits : dataSize * (length + 1) ≤ cfg.areaBytes) :
    ∃ (c : RingConfig) (mapping : Mapping),
      constructor cfg (aslamInit cfg answers statics).2.1 virtToPhys
          (.done ()) address dataSize length = some (c.buffer 0, mapping) ∧
        c.dataSize = dataSize ∧ c.length = length ∧
        SharesRing cfg c mapping (virtToPhys ptr) cfg.kmallocBytes := by
  obtain ⟨hdvd, hle, hend, -⟩ := physicalArea_spec h hwrap hlinear hphys
  obtain ⟨harea, hbytes⟩ := aslamInit_statics cfg hkmalloc statics
  refine ⟨ringConfig h hwrap hlinear hphys address hdataSize hlength hfits, _,
    constructor_eq h hwrap hlinear hphys harea hbytes address hdataSize
      hlength hfits, rfl, rfl, ?_⟩
  intro i hi k hk
  change i < length at hi
  change k < dataSize at hk
  have hslot : i * dataSize + dataSize ≤ dataSize * (length + 1) := by
    rw [Nat.mul_comm dataSize, ← Nat.succ_mul]
    exact Nat.mul_le_mul_right _ (by omega)
  refine ⟨virtToPhys (roundUp cfg ptr) + (i * dataSize + k), ?_, ?_, ?_, ?_⟩
  · have htranslate := translate_eq hdvd address
      (show i * dataSize + k < cfg.areaBytes by omega)
    rw [← Nat.add_assoc] at htranslate
    exact htranslate
  · change _ = (virtToPhys (roundUp cfg ptr) : ℤ) + dataSize * i + k
    push_cast
    rw [Int.mul_comm (i : ℤ)]
    omega
  · omega
  · omega

/-- The ring of the camera, on a machine whose kernel addresses start at
`0xc0000000`. -/
theorem cameraRing_shared :
    ∃ (c : RingConfig) (mapping : Mapping),
      constructor armConfig
          (aslamInit armConfig allSucceed ⟨0, 0, 0, 0, 0⟩).2.1
          (fun addr => addr - 0xc0000000) (.done ()) 0x40000000 360960 8 =
        some (c.buffer 0, mapping) ∧
        c.dataSize = 360960 ∧ c.length = 8 ∧
        SharesRing armConfig c mapping 0x100010 armConfig.kmallocBytes := by
  have hlinear : LinearOn armConfig (fun addr => addr - 0xc0000000) 0xc0100010
      armConfig.kmallocBytes := by
    constructor
    · intro addr hge hlt
      omega
    · intro addr hge hlt hdvd
      exact Nat.dvd_sub hdvd (by decide)
  exact ring_shared ⟨by decide, by decide, by decide⟩ rfl (by decide)
    ⟨0, 0, 0, 0, 0⟩ hlinear (by decide) 0x40000000 (by decide) (by decide)
    (by decide)

end NetworkExperiments.Visensor.SharedPages
