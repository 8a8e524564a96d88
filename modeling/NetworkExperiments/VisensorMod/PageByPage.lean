import NetworkExperiments.Visensor.SharedPages

/-!
# Mapping page by page

Beside `aslam_kmem`, which maps the contiguous area in one piece, the module has
`aslam_vmem` for an area whose pages are scattered over the physical memory: it
asks the kernel for each page and maps it alone.

`vmem_maps_area` says which bytes a process sees then, also when the kernel
refuses a page, and that on a contiguous area the two functions agree.
-/

namespace NetworkExperiments.VisensorMod

/-- One page that `remap_pfn_range` has mapped. -/
structure PageMapping where
  start : ℕ
  pfn : ℕ
  deriving DecidableEq, Repr

/-- The loop of `aslam_vmem`.  The length is positive when a page is taken off
it, so it does not leave the range of `long`. -/
def vmemLoop (cfg : Config) (vmallocToPfn : ℕ → ℕ)
    (remapPfnRange : ℕ → ℕ → Outcome Unit) (length : ℤ) (start area : ℕ) :
    ℤ × List PageMapping :=
  if 0 < length then
    let pfn := vmallocToPfn area
    match remapPfnRange start pfn with
    | .failed ret _ => (ret, [])
    | .done _ =>
        let rest := vmemLoop cfg vmallocToPfn remapPfnRange
          (length - cfg.pageSize)
          (CInt.toSize cfg.bits (start + cfg.pageSize))
          (CInt.toSize cfg.bits (area + cfg.pageSize))
        (rest.1, ⟨start, pfn⟩ :: rest.2)
  else (0, [])
termination_by length.toNat
decreasing_by
  have hpos := cfg.pageSize_pos
  omega

/-- `aslam_vmem`: the value returned, and the pages that have been mapped. -/
def aslamVmem (cfg : Config) (vmallocArea : ℕ) (vmallocToPfn : ℕ → ℕ)
    (remapPfnRange : ℕ → ℕ → Outcome Unit) (vma : VmArea) :
    ℤ × List PageMapping :=
  let length := CInt.toLong cfg.bits (vma.vmEnd - vma.vmStart)
  if cfg.areaBytes < CInt.toSize cfg.bits length then (-5, [])
  else
    vmemLoop cfg vmallocToPfn remapPfnRange length vma.vmStart vmallocArea

/-- The physical address behind an address, where single pages are mapped. -/
def translatePages (cfg : Config) (pages : List PageMapping) (addr : ℕ) :
    Option ℕ :=
  (pages.find? fun page =>
      page.start ≤ addr ∧ addr < page.start + cfg.pageSize).map fun page =>
    page.pfn * cfg.pageSize + (addr - page.start)

/-- The physical address of a byte of the kernel's virtual memory. -/
def vmallocToPhys (cfg : Config) (vmallocToPfn : ℕ → ℕ) (addr : ℕ) : ℕ :=
  vmallocToPfn (addr / cfg.pageSize * cfg.pageSize) * cfg.pageSize +
    addr % cfg.pageSize

/-- The first `n` pages are mapped: all of them, or the kernel has refused the
next one, or the limits are too far apart.  A process finds the bytes of the
area in them and nothing anywhere else. -/
structure MapsPages (cfg : Config) (vmallocArea : ℕ) (vmallocToPfn : ℕ → ℕ)
    (remapPfnRange : ℕ → ℕ → Outcome Unit) (vma : VmArea)
    (result : ℤ × List PageMapping) (n : ℕ) : Prop where
  returns :
    (result.1 = 0 ∧ vma.vmStart + n * cfg.pageSize = vma.vmEnd) ∨
    (result.1 < 0 ∧ vma.vmStart + n * cfg.pageSize < vma.vmEnd ∧
      (result.1 = (remapPfnRange (vma.vmStart + n * cfg.pageSize)
          (vmallocToPfn (vmallocArea + n * cfg.pageSize))).ret ∨
        (result.1 = -5 ∧ n = 0 ∧
          vma.vmStart + cfg.areaBytes < vma.vmEnd)))
  translates : ∀ addr, translatePages cfg result.2 addr =
    if vma.vmStart ≤ addr ∧ addr < vma.vmStart + n * cfg.pageSize then
      some (vmallocToPhys cfg vmallocToPfn
        (vmallocArea + (addr - vma.vmStart)))
    else none

/-- The pages of the area follow one another in the physical memory, from the
frame `base` on. -/
def Contiguous (cfg : Config) (vmallocArea : ℕ) (vmallocToPfn : ℕ → ℕ)
    (base : ℕ) : Prop :=
  ∀ k, k * cfg.pageSize < cfg.areaBytes →
    vmallocToPfn (vmallocArea + k * cfg.pageSize) = base + k

/-- The same value is returned, and a process finds the same bytes, as when the
area is mapped in one piece. -/
structure AgreesWithPiece (cfg : Config) (vma : VmArea)
    (result : ℤ × List PageMapping) (piece : ℤ × Option Mapping) : Prop where
  returns : result.1 = piece.1
  translates : ∀ addr, translatePages cfg result.2 addr =
    piece.2.bind fun mapping =>
      Visensor.SharedPages.translate cfg mapping vma.vmStart addr

/-! ## The pages -/

/-- The first `n` pages of the mapping. -/
def firstPages (cfg : Config) (vmallocToPfn : ℕ → ℕ) (start area n : ℕ) :
    List PageMapping :=
  (List.range n).map fun j =>
    ⟨start + j * cfg.pageSize, vmallocToPfn (area + j * cfg.pageSize)⟩

theorem firstPages_succ (cfg : Config) (vmallocToPfn : ℕ → ℕ)
    (start area n : ℕ) :
    firstPages cfg vmallocToPfn start area (n + 1) =
      ⟨start, vmallocToPfn area⟩ ::
        firstPages cfg vmallocToPfn (start + cfg.pageSize)
          (area + cfg.pageSize) n := by
  rw [firstPages, firstPages, List.range_succ_eq_map, List.map_cons,
    List.map_map, Nat.zero_mul]
  refine congrArg (_ :: ·) (List.map_congr_left fun j _ => ?_)
  simp only [Function.comp_apply, Nat.succ_mul, Nat.add_assoc,
    Nat.add_comm cfg.pageSize]

/-- The loop maps pages from the first one on, until the kernel refuses one. -/
theorem vmemLoop_spec (cfg : Config) (vmallocToPfn : ℕ → ℕ)
    (remapPfnRange : ℕ → ℕ → Outcome Unit) (pages : ℕ) {start area : ℕ}
    (hstart : start + pages * cfg.pageSize < 2 ^ cfg.bits)
    (harea : area + pages * cfg.pageSize < 2 ^ cfg.bits) :
    ∃ n ≤ pages,
      (vmemLoop cfg vmallocToPfn remapPfnRange
          ((pages * cfg.pageSize : ℕ) : ℤ) start area).2 =
        firstPages cfg vmallocToPfn start area n ∧
      let ret := (vmemLoop cfg vmallocToPfn remapPfnRange
        ((pages * cfg.pageSize : ℕ) : ℤ) start area).1
      (ret = 0 ∧ n = pages) ∨
        (ret < 0 ∧ n < pages ∧
          ret = (remapPfnRange (start + n * cfg.pageSize)
            (vmallocToPfn (area + n * cfg.pageSize))).ret) := by
  induction pages generalizing start area with
  | zero =>
      rw [vmemLoop, if_neg (by simp)]
      exact ⟨0, Nat.le_refl 0, rfl, Or.inl ⟨rfl, rfl⟩⟩
  | succ pages ih =>
      have hpos := cfg.pageSize_pos
      rw [Nat.succ_mul] at hstart harea
      have hmore : (0 : ℤ) < ((pages + 1) * cfg.pageSize : ℕ) := by
        rw [Nat.succ_mul]
        omega
      rw [vmemLoop, if_pos hmore]
      cases hremap : remapPfnRange start (vmallocToPfn area) with
      | failed ret neg =>
          simp only [hremap]
          refine ⟨0, Nat.zero_le _, rfl, Or.inr ⟨neg, Nat.succ_pos _, ?_⟩⟩
          rw [Nat.zero_mul, Nat.add_zero, Nat.add_zero, hremap, Outcome.ret]
      | done _ =>
          have hlength : (((pages + 1) * cfg.pageSize : ℕ) : ℤ) -
              cfg.pageSize = (pages * cfg.pageSize : ℕ) := by
            rw [Nat.succ_mul]
            omega
          have hnextStart : CInt.toSize cfg.bits
              ((start : ℤ) + cfg.pageSize) = start + cfg.pageSize := by
            rw [← Int.natCast_add]
            exact CInt.toSize_natCast (by omega)
          have hnextArea : CInt.toSize cfg.bits
              ((area : ℤ) + cfg.pageSize) = area + cfg.pageSize := by
            rw [← Int.natCast_add]
            exact CInt.toSize_natCast (by omega)
          obtain ⟨n, hle, hmapped, hret⟩ := ih
            (show start + cfg.pageSize + pages * cfg.pageSize <
              2 ^ cfg.bits by omega)
            (show area + cfg.pageSize + pages * cfg.pageSize <
              2 ^ cfg.bits by omega)
          have hshift : ∀ a, a + (n + 1) * cfg.pageSize =
              a + cfg.pageSize + n * cfg.pageSize := by
            intro a
            rw [Nat.succ_mul]
            omega
          simp only [hremap, hlength, hnextStart, hnextArea]
          refine ⟨n + 1, Nat.succ_le_succ hle, ?_, ?_⟩
          · rw [firstPages_succ, hmapped]
          · simp only [hshift, Nat.succ_lt_succ_iff, Nat.succ_inj]
            exact hret

theorem vmallocToPhys_add {cfg : Config} (vmallocToPfn : ℕ → ℕ) {area : ℕ}
    (harea : cfg.pageSize ∣ area) {offset : ℕ} (h : offset < cfg.pageSize) :
    vmallocToPhys cfg vmallocToPfn (area + offset) =
      vmallocToPfn area * cfg.pageSize + offset := by
  have hpos := cfg.pageSize_pos
  obtain ⟨k, rfl⟩ := harea
  rw [vmallocToPhys, Nat.mul_add_div hpos, Nat.div_eq_of_lt h, Nat.add_zero,
    Nat.mul_add_mod, Nat.mod_eq_of_lt h, Nat.mul_comm k]

/-- An address is in the page that is as far from the first one as whole pages
fit between. -/
theorem translatePages_firstPages {cfg : Config} (vmallocToPfn : ℕ → ℕ)
    (start : ℕ) {area : ℕ} (harea : cfg.pageSize ∣ area) (n addr : ℕ) :
    translatePages cfg (firstPages cfg vmallocToPfn start area n) addr =
      if start ≤ addr ∧ addr < start + n * cfg.pageSize then
        some (vmallocToPhys cfg vmallocToPfn (area + (addr - start)))
      else none := by
  have hpos := cfg.pageSize_pos
  induction n with
  | zero =>
      have hnone : ¬ (start ≤ addr ∧ addr < start + 0 * cfg.pageSize) := by
        omega
      rw [if_neg hnone]
      rfl
  | succ n ih =>
      rw [translatePages] at ih ⊢
      rw [firstPages, List.range_succ, List.map_append, List.find?_append,
        ← firstPages]
      by_cases hfirst : start ≤ addr ∧ addr < start + n * cfg.pageSize
      · have hall : start ≤ addr ∧
            addr < start + (n + 1) * cfg.pageSize := by
          rw [Nat.succ_mul]
          omega
        rw [if_pos hfirst] at ih
        obtain ⟨page, hpage, hphys⟩ := Option.map_eq_some_iff.mp ih
        rw [if_pos hall, hpage, Option.some_or, Option.map_some, hphys]
      · rw [if_neg hfirst, Option.map_eq_none_iff] at ih
        rw [ih, Option.none_or, List.map_singleton, Nat.succ_mul]
        by_cases hlast : start + n * cfg.pageSize ≤ addr ∧
            addr < start + n * cfg.pageSize + cfg.pageSize
        · have hall : start ≤ addr ∧
              addr < start + (n * cfg.pageSize + cfg.pageSize) := by omega
          have hbyte : area + (addr - start) =
              area + n * cfg.pageSize + (addr - (start + n * cfg.pageSize)) :=
            by omega
          have hphys := vmallocToPhys_add vmallocToPfn
            (Nat.dvd_add harea (Nat.dvd_mul_left _ n))
            (show addr - (start + n * cfg.pageSize) < cfg.pageSize by omega)
          rw [if_pos hall, hbyte, hphys,
            List.find?_cons_of_pos (by simpa using hlast), Option.map_some]
        · have hnone : ¬ (start ≤ addr ∧
              addr < start + (n * cfg.pageSize + cfg.pageSize)) := by omega
          rw [if_neg hnone, List.find?_cons_of_neg (by simpa using hlast)]
          rfl

/-! ## The area -/

section Limits

variable {cfg : Config} (h : cfg.Sensible) {vma : VmArea}
  (hvma : vma.Aligned cfg)
include h hvma

theorem limits_spec :
    ∃ pages, vma.vmEnd = vma.vmStart + pages * cfg.pageSize ∧
      CInt.toSize cfg.bits (CInt.toLong cfg.bits
        ((vma.vmEnd : ℤ) - vma.vmStart)) = pages * cfg.pageSize ∧
      (pages * cfg.pageSize ≤ cfg.areaBytes →
        CInt.toLong cfg.bits ((vma.vmEnd : ℤ) - vma.vmStart) =
          (pages * cfg.pageSize : ℕ)) := by
  obtain ⟨hstartDvd, hendDvd, horder, hlt⟩ := hvma
  obtain ⟨pages, hpages⟩ := Nat.dvd_sub hendDvd hstartDvd
  rw [Nat.mul_comm] at hpages
  have hdiff : (vma.vmEnd : ℤ) - vma.vmStart =
      (pages * cfg.pageSize : ℕ) := by omega
  refine ⟨pages, by omega, ?_, fun hle => ?_⟩
  · rw [hdiff, CInt.toSize_toLong]
    exact CInt.toSize_natCast (by omega)
  · have hbytes := h.bytes_lt
    rw [Nat.add_mul, ← h.areaBytes_eq] at hbytes
    have hbits : 2 ^ 31 * 2 ≤ 2 ^ cfg.bits := cfg.pow_bits_ge
    rw [hdiff, CInt.toLong]
    exact Int.bmod_eq_of_le (by omega) (by omega)

variable {vmallocArea : ℕ} (harea : cfg.pageSize ∣ vmallocArea)
  (hwrap : vmallocArea + cfg.areaBytes < 2 ^ cfg.bits)
include harea hwrap

theorem mapsPages_aslamVmem (vmallocToPfn : ℕ → ℕ)
    (remapPfnRange : ℕ → ℕ → Outcome Unit) :
    ∃ n, MapsPages cfg vmallocArea vmallocToPfn remapPfnRange vma
      (aslamVmem cfg vmallocArea vmallocToPfn remapPfnRange vma) n := by
  obtain ⟨pages, hend, hsize, hlong⟩ := limits_spec h hvma
  rw [aslamVmem]
  simp only [hsize]
  split
  · next hlonger =>
      refine ⟨0, Or.inr ⟨by decide, by omega, Or.inr ⟨rfl, rfl, by omega⟩⟩,
        ?_⟩
      exact translatePages_firstPages vmallocToPfn vma.vmStart harea 0
  · next hfits =>
      have hle := Nat.not_lt.mp hfits
      have hlast := hvma.end_lt
      rw [hlong hle]
      obtain ⟨n, -, hmapped, hret⟩ := vmemLoop_spec cfg vmallocToPfn
        remapPfnRange pages
        (show vma.vmStart + pages * cfg.pageSize < 2 ^ cfg.bits by omega)
        (show vmallocArea + pages * cfg.pageSize < 2 ^ cfg.bits by omega)
      refine ⟨n, ?_, ?_⟩
      · rcases hret with ⟨hzero, hall⟩ | ⟨hneg, hlt, hrefused⟩
        · exact Or.inl ⟨hzero, by rw [hall, hend]⟩
        · have hbytes : n * cfg.pageSize < pages * cfg.pageSize :=
            Nat.mul_lt_mul_of_pos_right hlt cfg.pageSize_pos
          exact Or.inr ⟨hneg, by omega, Or.inl hrefused⟩
      · rw [hmapped]
        exact translatePages_firstPages vmallocToPfn vma.vmStart harea n

/-- A mapping in one piece translates like the single pages of a contiguous
area. -/
theorem agreesWithPiece_aslamVmem {vmallocToPfn : ℕ → ℕ}
    {remapPfnRange : ℕ → ℕ → Outcome Unit} {statics : Statics}
    {virtToPhys : ℕ → ℕ}
    (hremap : ∀ start pfn, (remapPfnRange start pfn).ret = 0)
    (hcontiguous : Contiguous cfg vmallocArea vmallocToPfn
      (virtToPhys statics.kmallocArea >>> cfg.pageShift)) :
    AgreesWithPiece cfg vma
      (aslamVmem cfg vmallocArea vmallocToPfn remapPfnRange vma)
      (aslamKmem cfg statics virtToPhys (.done ()) vma) := by
  obtain ⟨n, hreturns, htranslates⟩ :=
    mapsPages_aslamVmem h hvma harea hwrap vmallocToPfn remapPfnRange
  obtain ⟨pages, hend, hsize, -⟩ := limits_spec h hvma
  by_cases hlonger : cfg.areaBytes < pages * cfg.pageSize
  · rw [aslamVmem, aslamKmem]
    simp only [hsize, if_pos hlonger]
    exact ⟨rfl, fun addr => rfl⟩
  · have hdone : (aslamVmem cfg vmallocArea vmallocToPfn remapPfnRange
        vma).1 = 0 ∧ n * cfg.pageSize = pages * cfg.pageSize := by
      rcases hreturns with ⟨hzero, hall⟩ | ⟨hneg, -, hrefused | ⟨-, -, hfar⟩⟩
      · exact ⟨hzero, by omega⟩
      · rw [hrefused, hremap] at hneg
        exact absurd hneg (by decide)
      · omega
    rw [aslamKmem]
    simp only [hsize, if_neg hlonger]
    refine ⟨hdone.1, fun addr => ?_⟩
    rw [htranslates, hdone.2, Option.bind_some,
      Visensor.SharedPages.translate]
    split
    · next hinside =>
        have hpos := cfg.pageSize_pos
        have hdiv := Nat.div_add_mod' (addr - vma.vmStart) cfg.pageSize
        have hbyte : vmallocArea + (addr - vma.vmStart) =
            vmallocArea +
              (addr - vma.vmStart) / cfg.pageSize * cfg.pageSize +
              (addr - vma.vmStart) % cfg.pageSize := by omega
        rw [hbyte, vmallocToPhys_add vmallocToPfn
          (Nat.dvd_add harea (Nat.dvd_mul_left _ _)) (Nat.mod_lt _ hpos),
          hcontiguous _ (by omega)]
    · rfl

end Limits

/-- Whatever pages the kernel refuses, `aslam_vmem` shows a process the first
bytes of the area up to there and nothing else; on a contiguous area it does
what `aslam_kmem` does. -/
theorem vmem_maps_area {cfg : Config} (h : cfg.Sensible) {vma : VmArea}
    (hvma : vma.Aligned cfg) {vmallocArea : ℕ}
    (harea : cfg.pageSize ∣ vmallocArea)
    (hwrap : vmallocArea + cfg.areaBytes < 2 ^ cfg.bits)
    (vmallocToPfn : ℕ → ℕ) (remapPfnRange : ℕ → ℕ → Outcome Unit) :
    (∃ n, MapsPages cfg vmallocArea vmallocToPfn remapPfnRange vma
      (aslamVmem cfg vmallocArea vmallocToPfn remapPfnRange vma) n) ∧
    ∀ (statics : Statics) (virtToPhys : ℕ → ℕ),
      (∀ start pfn, (remapPfnRange start pfn).ret = 0) →
      Contiguous cfg vmallocArea vmallocToPfn
        (virtToPhys statics.kmallocArea >>> cfg.pageShift) →
      AgreesWithPiece cfg vma
        (aslamVmem cfg vmallocArea vmallocToPfn remapPfnRange vma)
        (aslamKmem cfg statics virtToPhys (.done ()) vma) :=
  ⟨mapsPages_aslamVmem h hvma harea hwrap vmallocToPfn remapPfnRange,
    fun _ _ hremap hcontiguous =>
      agreesWithPiece_aslamVmem h hvma harea hwrap hremap hcontiguous⟩

theorem vmem_maps_area_threePages :
    let vma : VmArea := ⟨0x40000000, 0x40003000, 0⟩
    let result := aslamVmem armConfig 0xf0000000
      (fun addr => (addr - 0xc0000000) / 4096) (fun _ _ => .done ()) vma
    (∃ n, MapsPages armConfig 0xf0000000
      (fun addr => (addr - 0xc0000000) / 4096) (fun _ _ => .done ()) vma
      result n) ∧
    AgreesWithPiece armConfig vma result
      (aslamKmem armConfig ⟨0xf0000000, 0xf0000000, 0, 0, 0⟩
        (fun addr => addr - 0xc0000000) (.done ()) vma) := by
  have hsensible : armConfig.Sensible :=
    ⟨by decide, by decide, by decide⟩
  have hcontiguous : Contiguous armConfig 0xf0000000
      (fun addr => (addr - 0xc0000000) / 4096)
      ((0xf0000000 - 0xc0000000) >>> armConfig.pageShift) := by
    intro k _
    have hpage : armConfig.pageSize = 4096 := rfl
    have hbase : (0xf0000000 - 0xc0000000) >>> armConfig.pageShift =
        0x30000 := rfl
    simp only [hpage, hbase]
    omega
  have hmaps := vmem_maps_area hsensible
    (show VmArea.Aligned armConfig ⟨0x40000000, 0x40003000, 0⟩ from
      ⟨by decide, by decide, by decide, by decide⟩)
    (show armConfig.pageSize ∣ 0xf0000000 by decide) (by decide)
    (fun addr => (addr - 0xc0000000) / 4096) (fun _ _ => .done ())
  exact ⟨hmaps.1, hmaps.2 ⟨0xf0000000, 0xf0000000, 0, 0, 0⟩
    (fun addr => addr - 0xc0000000) (fun _ _ => rfl) hcontiguous⟩

end NetworkExperiments.VisensorMod
