import NetworkExperiments.Support.CountingLoop

/-!
# The visensor kernel module

This file models `visensor.c`: what loading and unloading the module do, and
how its memory is mapped.  The kernel decides which of the calls that are
checked succeed; its answers are arguments.  The calls that took effect are
listed in order.  Marks and stores go through `kmalloc_area`, which is derived
from the pointer of one `kmalloc`; they are listed with that pointer.
-/

namespace NetworkExperiments.VisensorMod

/-- The machine, and the page count of the module.  `unsigned long` has `bits`
bits and a page `2 ^ pageShift` bytes. -/
structure Config where
  bits : ℕ
  bits_ge : 32 ≤ bits
  pageShift : ℕ
  pageShift_lt : pageShift < 31
  npages : ℤ

namespace Config

def pageSize (cfg : Config) : ℕ := 2 ^ cfg.pageShift

/-- `PAGE_MASK`, which is `~(PAGE_SIZE - 1)`. -/
def pageMask (cfg : Config) : ℕ := 2 ^ cfg.bits - cfg.pageSize

/-- `npages * PAGE_SIZE`, of type `unsigned long`. -/
def areaBytes (cfg : Config) : ℕ :=
  CInt.toSize cfg.bits (cfg.npages * cfg.pageSize)

/-- `(npages + 2) * PAGE_SIZE`; the sum is an `int`. -/
def kmallocBytes (cfg : Config) : ℕ :=
  CInt.toSize cfg.bits (CInt.toInt (cfg.npages + 2) * cfg.pageSize)

theorem pageSize_pos (cfg : Config) : 0 < cfg.pageSize :=
  Nat.two_pow_pos _

theorem areaBytes_lt (cfg : Config) : cfg.areaBytes < 2 ^ cfg.bits :=
  CInt.toSize_lt _ _

theorem pow_bits_ge (cfg : Config) : 2 ^ 32 ≤ 2 ^ cfg.bits :=
  Nat.pow_le_pow_right (by decide) cfg.bits_ge

theorem pageSize_le (cfg : Config) : cfg.pageSize ≤ 2 ^ 30 :=
  Nat.pow_le_pow_right (by decide) (Nat.le_of_lt_succ cfg.pageShift_lt)

theorem pageSize_dvd (cfg : Config) : cfg.pageSize ∣ 2 ^ cfg.bits :=
  pow_dvd_pow 2 (by have := cfg.bits_ge; have := cfg.pageShift_lt; omega)

theorem pageSize_dvd_areaBytes (cfg : Config) :
    cfg.pageSize ∣ cfg.areaBytes := by
  refine CInt.dvd_toSize ?_ ?_
  · have := cfg.bits_ge
    have := cfg.pageShift_lt
    omega
  · rw [pageSize, Int.natCast_pow]
    exact Int.dvd_mul_left _ _

end Config

/-- A machine with 32 bits and pages of 4096 bytes, and the page count that the
source has there. -/
def armConfig : Config where
  bits := 32
  bits_ge := by decide
  pageShift := 12
  pageShift_lt := by decide
  npages := 360960 * 10 / 4096

/-! ## The loops -/

/-- The counter of a loop takes `2 ^ 32` values, so a loop that has not ended
after as many tests does not end. -/
def loopFuel : ℕ := 2 ^ 32

/-- The loop over the pages ends: the counter reaches the last page of the
address space, which is not below the bound. -/
theorem pageLoop_ends (cfg : Config) :
    (CountingLoop.values cfg.bits cfg.areaBytes cfg.pageSize loopFuel
      0).isSome := by
  have hsplit : 2 ^ (32 - cfg.pageShift) * cfg.pageSize = 2 ^ 32 := by
    have := cfg.pageShift_lt
    rw [Config.pageSize, ← Nat.pow_add, Nat.sub_add_cancel (by omega)]
  have hpos := cfg.pageSize_pos
  have hle := cfg.pageSize_le
  have hbits := cfg.pow_bits_ge
  have hcount : 2 ^ (32 - cfg.pageShift) ≤ 2 ^ 32 :=
    Nat.pow_le_pow_right (by decide) (Nat.sub_le _ _)
  have hfuel : 2 ^ (32 - cfg.pageShift) - 1 < loopFuel := by
    rw [loopFuel]
    omega
  have hlast : ((2 ^ (32 - cfg.pageShift) - 1 : ℕ) : ℤ) * cfg.pageSize =
      -(cfg.pageSize : ℤ) + (2 ^ 32 : ℕ) := by
    rw [← hsplit, Int.natCast_sub (Nat.two_pow_pos _), Int.sub_mul,
      Int.natCast_mul]
    omega
  have hcounter : CountingLoop.counter cfg.pageSize
      (2 ^ (32 - cfg.pageShift) - 1) = -(cfg.pageSize : ℤ) := by
    rw [CountingLoop.counter, hlast, CInt.toInt, Int.add_bmod_right]
    exact CInt.toInt_eq_self (by omega) (by omega)
  apply CountingLoop.isSome_values hfuel
  rw [hcounter, CInt.toSize_neg hpos (by omega)]
  obtain ⟨pages, hpages⟩ := cfg.pageSize_dvd
  obtain ⟨n, hn⟩ := cfg.pageSize_dvd_areaBytes
  have hlt := cfg.areaBytes_lt
  rw [hpages, hn] at hlt
  have hstep : n + 1 ≤ pages := Nat.lt_of_mul_lt_mul_left hlt
  have hmul := Nat.mul_le_mul_left cfg.pageSize hstep
  rw [Nat.mul_add, Nat.mul_one] at hmul
  omega

/-- The values of `i` in `for (i = 0; i < npages * PAGE_SIZE; i+= PAGE_SIZE)`. -/
def pageOffsets (cfg : Config) : List ℤ :=
  (CountingLoop.values cfg.bits cfg.areaBytes cfg.pageSize loopFuel 0).get
    (pageLoop_ends cfg)

/-- The loop that stores the pattern ends: its bound is at most a quarter of
the range of the unsigned type, and a negative counter is not below it. -/
theorem patternLoop_ends (cfg : Config) :
    (CountingLoop.values cfg.bits (cfg.areaBytes / 4) 2 loopFuel
      0).isSome := by
  have hfuel : 2 ^ 30 < loopFuel := by decide
  have hcounter : CountingLoop.counter 2 (2 ^ 30) = -((2 ^ 31 : ℕ) : ℤ) := by
    decide
  have hbits := cfg.pow_bits_ge
  have hlt := cfg.areaBytes_lt
  apply CountingLoop.isSome_values hfuel
  rw [hcounter, CInt.toSize_neg (by decide) (by omega)]
  omega

/-- The values of `i` in
`for (i = 0; i < (npages * PAGE_SIZE / sizeof(int)); i += 2)`. -/
def patternIndices (cfg : Config) : List ℤ :=
  (CountingLoop.values cfg.bits (cfg.areaBytes / 4) 2 loopFuel 0).get
    (patternLoop_ends cfg)

theorem values_pageOffsets (cfg : Config) :
    CountingLoop.values cfg.bits cfg.areaBytes cfg.pageSize loopFuel 0 =
      some (pageOffsets cfg) :=
  (Option.some_get (pageLoop_ends cfg)).symm

theorem values_patternIndices (cfg : Config) :
    CountingLoop.values cfg.bits (cfg.areaBytes / 4) 2 loopFuel 0 =
      some (patternIndices cfg) :=
  (Option.some_get (patternLoop_ends cfg)).symm

/-- No page is visited exactly when the area is empty. -/
theorem pageOffsets_eq_nil_iff (cfg : Config) :
    pageOffsets cfg = [] ↔ cfg.areaBytes = 0 :=
  CountingLoop.eq_nil_iff (values_pageOffsets cfg)

/-! ## Loading and unloading -/

/-- What a function of the kernel returns: zero, or a negative error. -/
inductive Outcome (α : Type)
  | done (value : α)
  | failed (ret : ℤ) (neg : ret < 0)

def Outcome.ret {α : Type} : Outcome α → ℤ
  | .done _ => 0
  | .failed ret _ => ret

/-- The answers of the kernel during one load: the block from `kmalloc` or
`NULL`, the device number, whether `cdev_add` succeeds, and the class. -/
structure Answers where
  kmalloc : Option ℕ
  allocChrdevRegion : Outcome ℕ
  cdevAdd : Outcome Unit
  classCreate : ℕ

/-- The calls that took effect.  Marks and stores come with the block that
their address belongs to. -/
inductive Call
  | kmalloc (ptr size : ℕ)
  | kfree (ptr : ℕ)
  | allocChrdevRegion (dev : ℕ)
  | unregisterChrdevRegion (dev : ℕ)
  | cdevAdd (dev : ℕ)
  | cdevDel
  | classCreate (cl : ℕ)
  | classDestroy (cl : ℕ)
  | deviceCreate (cl dev : ℕ)
  | deviceDestroy (cl dev : ℕ)
  | setPageReserved (block addr : ℕ)
  | store (block addr : ℕ) (value : ℤ)
  deriving DecidableEq, Repr

/-- The static variables of the module. -/
structure Statics where
  kmallocPtr : ℕ
  kmallocArea : ℕ
  aslamDev : ℕ
  cl : ℕ
  bytesInMemory : ℤ
  deriving DecidableEq, Repr

/-- The loop over the pages of the area, with its `SetPageReserved`. -/
def setPagesReserved (cfg : Config) (block area : ℕ) : List Call :=
  (pageOffsets cfg).map fun i =>
    .setPageReserved block (CInt.toSize cfg.bits (area + i))

/-- `kmalloc_area[i]`. -/
def intAddress (cfg : Config) (area : ℕ) (i : ℤ) : ℕ :=
  CInt.toSize cfg.bits (area + 4 * i)

/-- The loop that stores the pattern. -/
def storePattern (cfg : Config) (block area : ℕ) : List Call :=
  (patternIndices cfg).flatMap fun i =>
    [.store block (intAddress cfg area i) (CInt.toInt (0xdead * 2 ^ 16 + i)),
      .store block (intAddress cfg area (CInt.toInt (i + 1)))
        (CInt.toInt (0xbeef * 2 ^ 16 + i))]

theorem mem_storePattern {cfg : Config} {block area : ℕ} {call : Call}
    (h : call ∈ storePattern cfg block area) :
    ∃ addr value, call = .store block addr value := by
  obtain ⟨i, -, hcall⟩ := List.mem_flatMap.mp h
  rcases List.mem_cons.mp hcall with rfl | hcall
  · exact ⟨_, _, rfl⟩
  · rw [List.mem_singleton] at hcall
    exact ⟨_, _, hcall⟩

/-- `kmalloc_ptr` rounded up to a page boundary. -/
def roundUp (cfg : Config) (ptr : ℕ) : ℕ :=
  CInt.toSize cfg.bits (ptr + cfg.pageSize - 1) &&& cfg.pageMask

/-- `aslam_init`: the value returned, the static variables then, and the
calls.  A failure of `alloc_chrdev_region` or `cdev_add` is cleaned up after,
but does not end the function. -/
def aslamInit (cfg : Config) (answers : Answers) (statics : Statics) :
    ℤ × Statics × List Call :=
  match answers.kmalloc with
  | none => (-12, { statics with kmallocPtr := 0 }, [])
  | some ptr =>
      let area := roundUp cfg ptr
      let cl := answers.classCreate
      let region : ℕ × List Call :=
        match answers.allocChrdevRegion with
        | .done dev => (dev, [.allocChrdevRegion dev])
        | .failed _ _ => (statics.aslamDev, [.kfree ptr])
      let dev := region.1
      let cdev : List Call :=
        match answers.cdevAdd with
        | .done _ => [.cdevAdd dev]
        | .failed _ _ => [.unregisterChrdevRegion dev, .kfree ptr]
      (answers.cdevAdd.ret,
        { kmallocPtr := ptr, kmallocArea := area, aslamDev := dev, cl := cl,
          bytesInMemory := CInt.toInt cfg.areaBytes },
        .kmalloc ptr cfg.kmallocBytes :: region.2 ++ cdev ++
          [.classCreate cl, .deviceCreate cl dev] ++
          (setPagesReserved cfg ptr area ++ storePattern cfg ptr area))

/-- `aslam_exit`, which calls `SetPageReserved` on every page again. -/
def aslamExit (cfg : Config) (statics : Statics) : List Call :=
  [.deviceDestroy statics.cl statics.aslamDev, .classDestroy statics.cl,
      .cdevDel, .unregisterChrdevRegion statics.aslamDev] ++
    setPagesReserved cfg statics.kmallocPtr statics.kmallocArea ++
    [.kfree statics.kmallocPtr]

/-! ## Mapping the area -/

/-- The part of a `vm_area_struct` that the module reads. -/
structure VmArea where
  vmStart : ℕ
  vmEnd : ℕ
  vmPgoff : ℕ

/-- What `remap_pfn_range` maps: a number of bytes, from a frame on. -/
structure Mapping where
  pfn : ℕ
  size : ℕ
  deriving DecidableEq, Repr

/-- `aslam_kmem`: the value returned, and what has been mapped. -/
def aslamKmem (cfg : Config) (statics : Statics) (virtToPhys : ℕ → ℕ)
    (remapPfnRange : Outcome Unit) (vma : VmArea) : ℤ × Option Mapping :=
  let length := CInt.toLong cfg.bits (vma.vmEnd - vma.vmStart)
  if cfg.areaBytes < CInt.toSize cfg.bits length then (-5, none)
  else
    match remapPfnRange with
    | .failed ret _ => (ret, none)
    | .done _ =>
        (0, some ⟨virtToPhys statics.kmallocArea >>> cfg.pageShift,
          CInt.toSize cfg.bits length⟩)

/-- `aslam_mmap`: only offset zero can be mapped. -/
def aslamMmap (cfg : Config) (statics : Statics) (virtToPhys : ℕ → ℕ)
    (remapPfnRange : Outcome Unit) (vma : VmArea) : ℤ × Option Mapping :=
  if vma.vmPgoff = 0 then
    aslamKmem cfg statics virtToPhys remapPfnRange vma
  else (-5, none)

end NetworkExperiments.VisensorMod
