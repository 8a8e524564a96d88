import NetworkExperiments.VisensorMod.Module

/-!
# Containment of the kernel buffer

The block has two pages more than the area in it, so that the area fits behind
the page boundary to which its start is rounded up.  The pages that are marked,
the `int`s that are stored and the frames that can be mapped are then all
inside of the block.
-/

namespace NetworkExperiments.VisensorMod

/-- The page count and the page size are such that the size of the block fits
into an `int`, and a page has at least eight bytes. -/
structure Config.Sensible (cfg : Config) : Prop where
  pageShift_ge : 3 ≤ cfg.pageShift
  npages_nonneg : 0 ≤ cfg.npages
  bytes_le : (cfg.npages + 2) * cfg.pageSize ≤ 2 ^ 31 - 1

/-- The addresses at which an `int` is stored. -/
def storedAddresses (calls : List Call) : List ℕ :=
  calls.filterMap fun
    | .store _ addr _ => some addr
    | _ => none

/-- The module keeps to the block from `kmalloc`: the area is page aligned,
every page marked and every `int` stored is inside of the block, and each `int`
of the area is stored once. -/
structure Contained (cfg : Config) (ptr : ℕ) (statics : Statics)
    (calls : List Call) : Prop where
  allocated : .kmalloc ptr cfg.kmallocBytes ∈ calls
  bytes_eq : cfg.kmallocBytes = (cfg.npages.toNat + 2) * cfg.pageSize
  aligned : cfg.pageSize ∣ statics.kmallocArea
  marks_inside : ∀ block addr, .setPageReserved block addr ∈ calls →
    block = ptr ∧ ptr ≤ (addr >>> cfg.pageShift) * cfg.pageSize ∧
      (addr >>> cfg.pageShift + 1) * cfg.pageSize ≤ ptr + cfg.kmallocBytes
  stores_inside : ∀ block addr value, .store block addr value ∈ calls →
    block = ptr ∧ ptr ≤ addr ∧ addr + 4 ≤ ptr + cfg.kmallocBytes
  stored_eq : storedAddresses calls =
    (List.range (cfg.npages.toNat * cfg.pageSize / 4)).map fun k =>
      statics.kmallocArea + 4 * k

/-- The physical addresses of a block follow one another, and `virt_to_phys`
keeps the alignment to pages. -/
structure LinearOn (cfg : Config) (virtToPhys : ℕ → ℕ) (ptr size : ℕ) :
    Prop where
  linear : ∀ addr, ptr ≤ addr → addr < ptr + size →
    virtToPhys addr = virtToPhys ptr + (addr - ptr)
  aligned : ∀ addr, ptr ≤ addr → addr < ptr + size → cfg.pageSize ∣ addr →
    cfg.pageSize ∣ virtToPhys addr

/-- The limits of the mapping are page aligned and in order. -/
structure VmArea.Aligned (cfg : Config) (vma : VmArea) : Prop where
  start_dvd : cfg.pageSize ∣ vma.vmStart
  end_dvd : cfg.pageSize ∣ vma.vmEnd
  start_le : vma.vmStart ≤ vma.vmEnd
  end_lt : vma.vmEnd < 2 ^ cfg.bits

/-- The frames of a mapping, whose size is rounded up to pages. -/
def Mapping.frames (cfg : Config) (m : Mapping) : List ℕ :=
  List.range' m.pfn ((m.size + cfg.pageSize - 1) / cfg.pageSize)

/-- Nothing is mapped and an error is returned, or only frames that are wholly
inside of the block are mapped. -/
def MapsInside (cfg : Config) (virtToPhys : ℕ → ℕ) (ptr : ℕ)
    (result : ℤ × Option Mapping) : Prop :=
  match result.2 with
  | none => result.1 < 0
  | some m => ∀ frame ∈ m.frames cfg,
      virtToPhys ptr ≤ frame * cfg.pageSize ∧
        (frame + 1) * cfg.pageSize ≤ virtToPhys ptr + cfg.kmallocBytes

/-! ## Sizes -/

section Sizes

variable {cfg : Config} (h : cfg.Sensible)
include h

theorem Config.Sensible.npages_eq : cfg.npages = cfg.npages.toNat :=
  (Int.toNat_of_nonneg h.npages_nonneg).symm

theorem Config.Sensible.bytes_lt :
    (cfg.npages.toNat + 2) * cfg.pageSize < 2 ^ 31 := by
  have hle := h.bytes_le
  rw [h.npages_eq] at hle
  have hcast : (((cfg.npages.toNat + 2) * cfg.pageSize : ℕ) : ℤ) =
      (cfg.npages.toNat + 2) * cfg.pageSize := by
    rw [Int.natCast_mul]
    rfl
  omega

theorem Config.Sensible.kmallocBytes_eq :
    cfg.kmallocBytes = (cfg.npages.toNat + 2) * cfg.pageSize := by
  have hlt := h.bytes_lt
  have hpages : cfg.npages.toNat + 2 ≤
      (cfg.npages.toNat + 2) * cfg.pageSize :=
    Nat.le_mul_of_pos_right _ cfg.pageSize_pos
  have hint : CInt.toInt (cfg.npages + 2) =
      ((cfg.npages.toNat + 2 : ℕ) : ℤ) := by
    rw [h.npages_eq]
    exact CInt.toInt_eq_self (by omega) (by omega)
  have hbits := cfg.pow_bits_ge
  rw [Config.kmallocBytes, hint, ← Int.natCast_mul]
  exact CInt.toSize_natCast (by omega)

theorem Config.Sensible.areaBytes_eq :
    cfg.areaBytes = cfg.npages.toNat * cfg.pageSize := by
  have hlt := h.bytes_lt
  have hbits := cfg.pow_bits_ge
  rw [Nat.add_mul] at hlt
  rw [Config.areaBytes, h.npages_eq, Int.toNat_natCast, ← Int.natCast_mul]
  exact CInt.toSize_natCast (by omega)

theorem Config.Sensible.pageOffsets_eq :
    pageOffsets cfg = (List.range cfg.npages.toNat).map fun j =>
      ((j * cfg.pageSize : ℕ) : ℤ) := by
  have hlt := h.bytes_lt
  have hpos := cfg.pageSize_pos
  have hpages : cfg.npages.toNat + 2 ≤
      (cfg.npages.toNat + 2) * cfg.pageSize :=
    Nat.le_mul_of_pos_right _ hpos
  have hfuel : cfg.npages.toNat < loopFuel := by
    rw [loopFuel]
    omega
  rw [Nat.add_mul] at hlt
  have hvalues := CountingLoop.values_range cfg.bits_ge hfuel
    (fun j hj => (Nat.mul_lt_mul_right hpos).mpr hj) (Nat.le_refl _)
    (show cfg.npages.toNat * cfg.pageSize < 2 ^ 31 by omega)
  rw [← h.areaBytes_eq, values_pageOffsets] at hvalues
  exact Option.some.inj hvalues

theorem Config.Sensible.ints_eq :
    cfg.areaBytes / 4 = cfg.areaBytes / 8 * 2 := by
  have hpage : 8 ∣ cfg.pageSize := pow_dvd_pow 2 h.pageShift_ge
  have harea : 8 ∣ cfg.areaBytes :=
    hpage.trans cfg.pageSize_dvd_areaBytes
  omega

theorem Config.Sensible.patternIndices_eq :
    patternIndices cfg = (List.range (cfg.areaBytes / 8)).map fun j =>
      ((j * 2 : ℕ) : ℤ) := by
  have hlt := h.bytes_lt
  rw [Nat.add_mul, ← h.areaBytes_eq] at hlt
  have hfuel : cfg.areaBytes / 8 < loopFuel := by
    rw [loopFuel]
    omega
  have hints := h.ints_eq
  have hvalues := CountingLoop.values_range cfg.bits_ge hfuel
    (fun j hj => (show j * 2 < cfg.areaBytes / 4 by omega))
    (Nat.le_of_eq hints) (by omega)
  exact Option.some.inj ((values_patternIndices cfg).symm.trans hvalues)

end Sizes

/-! ## The area in the block -/

/-- The start of the area: the first page boundary of the block. -/
theorem roundUp_spec (cfg : Config) {ptr : ℕ}
    (hwrap : ptr + cfg.pageSize ≤ 2 ^ cfg.bits) :
    cfg.pageSize ∣ roundUp cfg ptr ∧ ptr ≤ roundUp cfg ptr ∧
      roundUp cfg ptr < ptr + cfg.pageSize := by
  have hpos := cfg.pageSize_pos
  have hshift : cfg.pageShift ≤ cfg.bits := by
    have := cfg.bits_ge
    have := cfg.pageShift_lt
    omega
  have hlast : ptr + cfg.pageSize - 1 < 2 ^ cfg.bits := by omega
  have hcast : (ptr : ℤ) + cfg.pageSize - 1 =
      ((ptr + cfg.pageSize - 1 : ℕ) : ℤ) := by omega
  have hround : roundUp cfg ptr =
      cfg.pageSize * ((ptr + cfg.pageSize - 1) / cfg.pageSize) := by
    rw [roundUp, hcast, CInt.toSize_natCast hlast]
    exact CInt.and_mask hshift hlast
  have hdiv := Nat.div_add_mod (ptr + cfg.pageSize - 1) cfg.pageSize
  have hmod := Nat.mod_lt (ptr + cfg.pageSize - 1) hpos
  rw [hround]
  exact ⟨Nat.dvd_mul_right _ _, by omega, by omega⟩

section Area

variable {cfg : Config} (h : cfg.Sensible) {ptr : ℕ}
  (hwrap : ptr + cfg.kmallocBytes ≤ 2 ^ cfg.bits)
include h hwrap

theorem area_spec :
    cfg.pageSize ∣ roundUp cfg ptr ∧ ptr ≤ roundUp cfg ptr ∧
      roundUp cfg ptr + cfg.areaBytes < ptr + cfg.kmallocBytes := by
  have hpos := cfg.pageSize_pos
  rw [h.kmallocBytes_eq, Nat.add_mul] at hwrap
  have hround := roundUp_spec cfg (show ptr + cfg.pageSize ≤ 2 ^ cfg.bits by
    omega)
  rw [h.kmallocBytes_eq, h.areaBytes_eq, Nat.add_mul]
  exact ⟨hround.1, hround.2.1, by omega⟩

theorem toSize_area {k : ℕ} (hk : k ≤ cfg.areaBytes) :
    CInt.toSize cfg.bits ((roundUp cfg ptr : ℕ) + (k : ℤ)) =
      roundUp cfg ptr + k := by
  have harea := (area_spec h hwrap).2.2
  rw [← Int.natCast_add]
  exact CInt.toSize_natCast (by omega)

theorem intAddress_area {i : ℕ} (hi : i < cfg.areaBytes / 4) :
    intAddress cfg (roundUp cfg ptr) i = roundUp cfg ptr + 4 * i := by
  have hle : 4 * i ≤ cfg.areaBytes := by omega
  rw [intAddress, ← toSize_area h hwrap hle, Int.natCast_mul]
  rfl

theorem mark_inside {block addr : ℕ}
    (hmark : .setPageReserved block addr ∈
      setPagesReserved cfg ptr (roundUp cfg ptr)) :
    block = ptr ∧ ptr ≤ (addr >>> cfg.pageShift) * cfg.pageSize ∧
      (addr >>> cfg.pageShift + 1) * cfg.pageSize ≤
        ptr + cfg.kmallocBytes := by
  obtain ⟨hdvd, hle, hend⟩ := area_spec h hwrap
  obtain ⟨i, hi, hcall⟩ := List.mem_map.mp hmark
  rw [h.pageOffsets_eq] at hi
  obtain ⟨j, hj, rfl⟩ := List.mem_map.mp hi
  have hpage : (j + 1) * cfg.pageSize ≤ cfg.areaBytes := by
    rw [h.areaBytes_eq]
    exact Nat.mul_le_mul_right _ (List.mem_range.mp hj)
  rw [Nat.add_mul, Nat.one_mul] at hpage
  rw [toSize_area h hwrap (by omega)] at hcall
  injection hcall with hblock haddr
  have hstart : (addr >>> cfg.pageShift) * cfg.pageSize = addr := by
    rw [Nat.shiftRight_eq_div_pow, ← haddr]
    exact Nat.div_mul_cancel (Nat.dvd_add hdvd (Nat.dvd_mul_left _ _))
  rw [Nat.add_mul, hstart, Nat.one_mul]
  exact ⟨hblock.symm, by omega, by omega⟩

theorem storedAddresses_storePattern :
    storedAddresses (storePattern cfg ptr (roundUp cfg ptr)) =
      (List.range (cfg.areaBytes / 4)).map fun k =>
        roundUp cfg ptr + 4 * k := by
  have hpair : ∀ j ∈ List.range (cfg.areaBytes / 8),
      [intAddress cfg (roundUp cfg ptr) ((j * 2 : ℕ) : ℤ),
        intAddress cfg (roundUp cfg ptr)
          (CInt.toInt (((j * 2 : ℕ) : ℤ) + 1))] =
      [roundUp cfg ptr + 4 * (j * 2), roundUp cfg ptr + 4 * (j * 2 + 1)] := by
    intro j hj
    have hlt := h.bytes_lt
    rw [Nat.add_mul, ← h.areaBytes_eq] at hlt
    have hints := h.ints_eq
    have hindex := List.mem_range.mp hj
    have hint : CInt.toInt (((j * 2 : ℕ) : ℤ) + 1) = ((j * 2 + 1 : ℕ) : ℤ) :=
      CInt.toInt_eq_self (by omega) (by omega)
    rw [hint, intAddress_area h hwrap (by omega),
      intAddress_area h hwrap (by omega)]
  rw [storedAddresses, storePattern, List.filterMap_flatMap,
    h.patternIndices_eq, List.flatMap_map, h.ints_eq,
    ← CountingLoop.flatMap_pairs]
  exact List.flatMap_congr hpair

theorem store_inside {block addr : ℕ} {value : ℤ}
    (hstore : .store block addr value ∈
      storePattern cfg ptr (roundUp cfg ptr)) :
    block = ptr ∧ ptr ≤ addr ∧ addr + 4 ≤ ptr + cfg.kmallocBytes := by
  obtain ⟨-, hle, hend⟩ := area_spec h hwrap
  have hblock : block = ptr := by
    obtain ⟨_, _, hcall⟩ := mem_storePattern hstore
    injection hcall
  have haddr : addr ∈ storedAddresses
      (storePattern cfg ptr (roundUp cfg ptr)) :=
    List.mem_filterMap.mpr ⟨_, hstore, rfl⟩
  rw [storedAddresses_storePattern h hwrap] at haddr
  obtain ⟨k, hk, rfl⟩ := List.mem_map.mp haddr
  have hindex := List.mem_range.mp hk
  exact ⟨hblock, by omega, by omega⟩

end Area

/-! ## Loading the module -/

/-- The calls of a load are those that manage resources, and after them the two
loops over the area. -/
theorem aslamInit_calls {answers : Answers} {ptr : ℕ}
    (hkmalloc : answers.kmalloc = some ptr) (cfg : Config)
    (statics : Statics) :
    (aslamInit cfg answers statics).2.1.kmallocArea = roundUp cfg ptr ∧
      ∃ first, (aslamInit cfg answers statics).2.2 =
          .kmalloc ptr cfg.kmallocBytes :: first ++
            (setPagesReserved cfg ptr (roundUp cfg ptr) ++
              storePattern cfg ptr (roundUp cfg ptr)) ∧
        (∀ block addr, .setPageReserved block addr ∉ first) ∧
        ∀ block addr value, .store block addr value ∉ first := by
  obtain ⟨kmalloc, region, cdev, cl⟩ := answers
  cases (hkmalloc : kmalloc = some ptr)
  refine ⟨rfl, _, rfl, ?_, ?_⟩
  · cases region <;> cases cdev <;> simp
  · cases region <;> cases cdev <;> simp

theorem storedAddresses_eq_nil {calls : List Call}
    (h : ∀ block addr value, .store block addr value ∉ calls) :
    storedAddresses calls = [] := by
  apply List.filterMap_eq_nil_iff.mpr
  intro call hcall
  cases call with
  | store block addr value => exact absurd hcall (h block addr value)
  | _ => rfl

/-- Loading the module keeps to the block, whichever of the later steps
fail. -/
theorem contained_aslamInit {cfg : Config} (h : cfg.Sensible)
    {answers : Answers} {ptr : ℕ} (hkmalloc : answers.kmalloc = some ptr)
    (hwrap : ptr + cfg.kmallocBytes ≤ 2 ^ cfg.bits) (statics : Statics) :
    Contained cfg ptr (aslamInit cfg answers statics).2.1
      (aslamInit cfg answers statics).2.2 := by
  obtain ⟨harea, first, hcalls, hmarks, hstores⟩ :=
    aslamInit_calls hkmalloc cfg statics
  have hnostore : ∀ block addr value, .store block addr value ∉
      .kmalloc ptr cfg.kmallocBytes :: first ++
        setPagesReserved cfg ptr (roundUp cfg ptr) := by
    intro block addr value hmem
    rcases List.mem_append.mp hmem with hmem | hmem
    · rcases List.mem_cons.mp hmem with hcall | hmem
      · cases hcall
      · exact hstores block addr value hmem
    · obtain ⟨i, -, hcall⟩ := List.mem_map.mp hmem
      cases hcall
  rw [← List.append_assoc] at hcalls
  refine ⟨?_, h.kmallocBytes_eq, ?_, ?_, ?_, ?_⟩
  · rw [hcalls]
    exact List.mem_cons_self
  · rw [harea]
    exact (area_spec h hwrap).1
  · intro block addr hmem
    rw [hcalls, List.append_assoc] at hmem
    rcases List.mem_append.mp hmem with hmem | hmem
    · rcases List.mem_cons.mp hmem with hcall | hmem
      · cases hcall
      · exact absurd hmem (hmarks block addr)
    · rcases List.mem_append.mp hmem with hmem | hmem
      · exact mark_inside h hwrap hmem
      · obtain ⟨_, _, hcall⟩ := mem_storePattern hmem
        cases hcall
  · intro block addr value hmem
    rw [hcalls] at hmem
    rcases List.mem_append.mp hmem with hmem | hmem
    · exact absurd hmem (hnostore block addr value)
    · exact store_inside h hwrap hmem
  · rw [hcalls, harea, storedAddresses, List.filterMap_append,
      ← h.areaBytes_eq]
    refine (congrArg (· ++ _) (storedAddresses_eq_nil hnostore)).trans ?_
    exact storedAddresses_storePattern h hwrap

/-! ## Mapping the area -/

/-- The frames of a mapping of whole pages cover just its bytes. -/
theorem frames_inside (cfg : Config) {base size frame : ℕ}
    (hbase : cfg.pageSize ∣ base) (hsize : cfg.pageSize ∣ size)
    (hframe : frame ∈ Mapping.frames cfg ⟨base >>> cfg.pageShift, size⟩) :
    base ≤ frame * cfg.pageSize ∧
      (frame + 1) * cfg.pageSize ≤ base + size := by
  have hpos := cfg.pageSize_pos
  obtain ⟨a, rfl⟩ := hbase
  obtain ⟨b, rfl⟩ := hsize
  have hfirst : (cfg.pageSize * a) >>> cfg.pageShift = a := by
    rw [Nat.shiftRight_eq_div_pow]
    exact Nat.mul_div_cancel_left a hpos
  have hcount : (cfg.pageSize * b + cfg.pageSize - 1) / cfg.pageSize = b := by
    rw [Nat.add_sub_assoc hpos, Nat.mul_add_div hpos,
      Nat.div_eq_of_lt (by omega), Nat.add_zero]
  rw [Mapping.frames, hfirst, hcount] at hframe
  obtain ⟨hge, hlt⟩ := List.mem_range'_1.mp hframe
  rw [← Nat.mul_add, Nat.mul_comm cfg.pageSize, Nat.mul_comm cfg.pageSize]
  exact ⟨Nat.mul_le_mul_right _ hge, Nat.mul_le_mul_right _ hlt⟩

/-- `aslam_mmap` maps frames of the block only. -/
theorem mapsInside_aslamMmap {cfg : Config} (h : cfg.Sensible) {ptr : ℕ}
    (hwrap : ptr + cfg.kmallocBytes ≤ 2 ^ cfg.bits) {virtToPhys : ℕ → ℕ}
    (hlinear : LinearOn cfg virtToPhys ptr cfg.kmallocBytes)
    {statics : Statics} (harea : statics.kmallocArea = roundUp cfg ptr)
    (remapPfnRange : Outcome Unit) {vma : VmArea} (hvma : vma.Aligned cfg) :
    MapsInside cfg virtToPhys ptr
      (aslamMmap cfg statics virtToPhys remapPfnRange vma) := by
  obtain ⟨hdvd, hle, hend⟩ := area_spec h hwrap
  obtain ⟨hstartDvd, hendDvd, horder, hlt⟩ := hvma
  have hlength : CInt.toSize cfg.bits
      (CInt.toLong cfg.bits ((vma.vmEnd : ℤ) - vma.vmStart)) =
      vma.vmEnd - vma.vmStart := by
    rw [CInt.toSize_toLong, ← Int.natCast_sub horder]
    exact CInt.toSize_natCast (by omega)
  unfold aslamMmap aslamKmem
  split
  · simp only [hlength]
    split
    · exact (by decide : (-5 : ℤ) < 0)
    · next hsize =>
        cases remapPfnRange with
        | failed ret neg => exact neg
        | done value =>
            intro frame hframe
            rw [harea] at hframe
            have hphys := hlinear.linear _ hle (by omega)
            have hinside := frames_inside cfg
              (hlinear.aligned _ hle (by omega) hdvd)
              (Nat.dvd_sub hendDvd hstartDvd) hframe
            omega
  · exact (by decide : (-5 : ℤ) < 0)

/-- Loading the module and mapping its area keep to the block that `kmalloc`
has returned. -/
theorem buffer_contained {cfg : Config} (h : cfg.Sensible)
    {answers : Answers} {ptr : ℕ} (hkmalloc : answers.kmalloc = some ptr)
    (hwrap : ptr + cfg.kmallocBytes ≤ 2 ^ cfg.bits) (statics : Statics)
    {virtToPhys : ℕ → ℕ}
    (hlinear : LinearOn cfg virtToPhys ptr cfg.kmallocBytes)
    (remapPfnRange : Outcome Unit) {vma : VmArea} (hvma : vma.Aligned cfg) :
    let result := aslamInit cfg answers statics
    Contained cfg ptr result.2.1 result.2.2 ∧
      MapsInside cfg virtToPhys ptr
        (aslamMmap cfg result.2.1 virtToPhys remapPfnRange vma) := by
  have harea := (aslamInit_calls hkmalloc cfg statics).1
  exact ⟨contained_aslamInit h hkmalloc hwrap statics,
    mapsInside_aslamMmap h hwrap hlinear harea remapPfnRange hvma⟩

/-- All calls of the kernel succeed, and the block is not page aligned. -/
def allSucceed : Answers where
  kmalloc := some 0xc0100010
  allocChrdevRegion := .done 0x0f800000
  cdevAdd := .done ()
  classCreate := 0xc2000000

/-- The first two pages of the area, mapped on a machine whose kernel addresses
start at `0xc0000000`. -/
theorem buffer_contained_twoPages :
    let result := aslamInit armConfig allSucceed ⟨0, 0, 0, 0, 0⟩
    Contained armConfig 0xc0100010 result.2.1 result.2.2 ∧
      MapsInside armConfig (fun addr => addr - 0xc0000000) 0xc0100010
        (aslamMmap armConfig result.2.1 (fun addr => addr - 0xc0000000)
          (.done ()) ⟨0x40000000, 0x40002000, 0⟩) := by
  have hsensible : armConfig.Sensible :=
    ⟨by decide, by decide, by decide⟩
  have hlinear : LinearOn armConfig (fun addr => addr - 0xc0000000) 0xc0100010
      armConfig.kmallocBytes := by
    constructor
    · intro addr hge hlt
      omega
    · intro addr hge hlt hdvd
      exact Nat.dvd_sub hdvd (by decide)
  exact buffer_contained hsensible rfl (by decide) ⟨0, 0, 0, 0, 0⟩ hlinear
    (.done ()) ⟨by decide, by decide, by decide, by decide⟩

end NetworkExperiments.VisensorMod
