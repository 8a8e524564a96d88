import Mathlib.Algebra.Order.Group.Nat
import Mathlib.Algebra.Ring.Nat
import Mathlib.Data.Nat.ModEq

/-!
# Windows to physical addresses

The constructor of `FPGARegisters` and `DevMem::open_dev` map the registers of a
device into memory.  Both split the physical address of the device with masks
that they compute from the size of the window, map as many bytes as the window
has from the upper part on, and add the lower part to the address returned.
What is mapped are whole pages, so an access can be inside of them although it
is behind the end of the length that was mapped.
-/

namespace NetworkExperiments.Visensor

/-- `mmap` of the physical memory, by length and offset.  It succeeds only for
offsets that are multiples of the page size. -/
structure Mmap (bits pageSize : ℕ) where
  map : ℕ → BitVec bits → Option ℕ
  aligned : ∀ {length offset address},
    map length offset = some address → pageSize ∣ offset.toNat

/-- A window: what was mapped, and the two addresses that the constructors
keep. -/
structure RegisterWindow where
  offset : ℕ
  length : ℕ
  mappedBase : ℕ
  mappedDevBase : ℕ
  deriving DecidableEq, Repr

namespace RegisterWindow

section Constructors

variable {bits pageSize : ℕ} (mmap : Mmap bits pageSize)

/-- Map `length` bytes from the bits of `devBase` outside of the mask on. -/
def mapOutside (devBase mask : BitVec bits) (length : ℕ) :
    Option RegisterWindow :=
  (mmap.map length (devBase &&& ~~~mask)).map fun mappedBase =>
    { offset := (devBase &&& ~~~mask).toNat
      length := length
      mappedBase := mappedBase
      mappedDevBase := mappedBase + (devBase &&& mask).toNat }

/-- `FPGARegisters::FPGARegisters`.  The size is an `int`, which is extended to
the type of the address. -/
def fpgaRegisters (startAddress : BitVec bits) (size : BitVec 32) :
    Option RegisterWindow :=
  mapOutside mmap startAddress ((size - 1).signExtend bits) size.toNat

/-- `DevMem::open_dev`. -/
def openDev (devBase size : BitVec bits) : Option RegisterWindow :=
  mapOutside mmap devBase (size - 1) size.toNat

end Constructors

/-- The physical address of a virtual one in the mapped pages, which are those
of the physical addresses from `offset` to `offset + length`. -/
def physical (pageSize : ℕ) (w : RegisterWindow) (address : ℕ) : Option ℕ :=
  let p := w.offset + (address - w.mappedBase)
  if w.mappedBase ≤ address ∧
      p / pageSize ≤ (w.offset + w.length - 1) / pageSize then some p
  else none

/-- Each of the four bytes that `getRegisterValue` and `setRegisterValue` access
at an offset in the window is mapped, and is the byte of the device at this
offset. -/
def RefersTo (pageSize : ℕ) (w : RegisterWindow) (base size : ℕ) : Prop :=
  ∀ k, k + 4 ≤ size → ∀ j < 4,
    w.physical pageSize (w.mappedDevBase + k + j) = some (base + k + j)

/-- The size rounded up to whole pages. -/
def pageUp (pageSize size : ℕ) : ℕ :=
  (size - 1) / pageSize * pageSize + pageSize

/-- No register fits into the window, or the lower part of the base is not
larger than what rounding up to pages adds to the size. -/
def Fits (pageSize base size : ℕ) : Prop :=
  size < 4 ∨ (base &&& (size - 1)) + size ≤ pageUp pageSize size

instance (pageSize base size : ℕ) : Decidable (Fits pageSize base size) :=
  inferInstanceAs (Decidable (_ ∨ _))

/-! ## The two parts of the base -/

variable {bits pageSize : ℕ} {mmap : Mmap bits pageSize}

theorem toNat_and_not_add_and (x mask : BitVec bits) :
    (x &&& ~~~mask).toNat + (x &&& mask).toNat = x.toNat := by
  have hdisjoint : (x &&& ~~~mask) &&& (x &&& mask) = BitVec.ofNat bits 0 := by
    ext i
    simp only [BitVec.getElem_and, BitVec.getElem_not, BitVec.getElem_zero]
    cases x[i] <;> cases mask[i] <;> rfl
  have hor : (x &&& ~~~mask) ||| (x &&& mask) = x := by
    ext i
    simp only [BitVec.getElem_or, BitVec.getElem_and, BitVec.getElem_not]
    cases x[i] <;> cases mask[i] <;> rfl
  rw [← BitVec.toNat_add_of_and_eq_zero hdisjoint,
    BitVec.add_eq_or_of_and_eq_zero _ _ hdisjoint, hor]

/-- In the window, the addresses of the source belong to those of the
device. -/
theorem physical_mapOutside {devBase mask : BitVec bits} {length : ℕ}
    {w : RegisterWindow} (h : mapOutside mmap devBase mask length = some w)
    (k : ℕ) :
    w.physical pageSize (w.mappedDevBase + k) =
      if (devBase.toNat + k) / pageSize ≤ (w.offset + length - 1) / pageSize
      then some (devBase.toNat + k) else none := by
  obtain ⟨mappedBase, -, rfl⟩ := Option.map_eq_some_iff.mp h
  have hsum := toNat_and_not_add_and devBase mask
  have hoffset : (devBase &&& ~~~mask).toNat +
      (mappedBase + (devBase &&& mask).toNat + k - mappedBase) =
        devBase.toNat + k := by
    omega
  have hbase : mappedBase ≤ mappedBase + (devBase &&& mask).toNat + k := by
    omega
  simp only [physical, hoffset, hbase, true_and]

theorem lastPage_iff (hpage : 0 < pageSize) {offset size : ℕ} (rest : ℕ)
    (haligned : pageSize ∣ offset) (hsize : 0 < size) :
    (offset + rest + (size - 1)) / pageSize ≤
        (offset + size - 1) / pageSize ↔
      rest + size ≤ pageUp pageSize size := by
  obtain ⟨pages, rfl⟩ := haligned
  have hlast : pageSize * pages + size - 1 = size - 1 + pageSize * pages := by
    omega
  have hend : pageSize * pages + rest + (size - 1) =
      rest + (size - 1) + pageSize * pages := by omega
  rw [hlast, hend, Nat.add_mul_div_left _ _ hpage,
    Nat.add_mul_div_left _ _ hpage, Nat.add_le_add_iff_right,
    ← Nat.lt_succ_iff, Nat.div_lt_iff_lt_mul hpage, Nat.succ_mul, pageUp]
  omega

/-- The window refers to the device exactly when its last byte is mapped. -/
theorem refersTo_iff_fits (hpage : 0 < pageSize) {base mask : BitVec bits}
    {size : ℕ} (hmask : mask.toNat = size - 1) (hsize : 0 < size)
    {w : RegisterWindow} (h : mapOutside mmap base mask size = some w) :
    RefersTo pageSize w base.toNat size ↔ Fits pageSize base.toNat size := by
  have hphysical := physical_mapOutside h
  obtain ⟨mappedBase, hmap, rfl⟩ := Option.map_eq_some_iff.mp h
  have hsum := toNat_and_not_add_and base mask
  have hlast := lastPage_iff hpage (base &&& mask).toNat
    (mmap.aligned hmap) hsize
  rw [hsum, BitVec.toNat_and (y := mask), hmask] at hlast
  have hinside : ∀ k, k < size →
      (base.toNat + k) / pageSize ≤ (base.toNat + (size - 1)) / pageSize :=
    fun k hk => Nat.div_le_div_right (by omega)
  constructor
  · intro hrefers
    by_cases hsmall : size < 4
    · exact Or.inl hsmall
    · right
      have hbyte := hrefers (size - 4) (by omega) 3 (by decide)
      have hindex : size - 4 + 3 = size - 1 := by omega
      rw [Nat.add_assoc, hphysical, hindex] at hbyte
      apply hlast.mp
      by_contra hbehind
      rw [if_neg hbehind] at hbyte
      exact absurd hbyte (Option.some_ne_none _).symm
  · rintro hfits k hk j hj
    have hrest : (base.toNat &&& (size - 1)) + size ≤ pageUp pageSize size :=
      hfits.resolve_left (by omega)
    have hmapped := (hinside (k + j) (by omega)).trans (hlast.mpr hrest)
    rw [Nat.add_assoc, hphysical, if_pos hmapped, Nat.add_assoc]

/-! ## The two constructors -/

theorem toNat_sub_one {n : ℕ} {size : BitVec n} (h : 0 < size.toNat) :
    (size - 1).toNat = size.toNat - 1 := by
  have hone : (1 : BitVec n).toNat = 1 :=
    Nat.mod_eq_of_lt (Nat.lt_of_le_of_lt h size.isLt)
  have hle : 1 ≤ size := by
    rw [BitVec.le_def, hone]
    exact h
  rw [BitVec.toNat_sub_of_le hle, hone]

theorem toNat_signExtend_sub_one (hbits : 32 ≤ bits) {size : BitVec 32}
    (h : 0 < size.toInt) :
    ((size - 1).signExtend bits).toNat = size.toNat - 1 := by
  have hlt := size.isLt
  have hpos : 0 < size.toNat ∧ size.toNat < 2 ^ 31 := by
    rw [BitVec.toInt_eq_toNat_cond] at h
    split at h <;> omega
  have hsub := toNat_sub_one hpos.1
  have hmsb : (size - 1).msb = false := by
    rw [BitVec.msb_eq_false_iff_two_mul_lt, hsub]
    omega
  have hpow : 2 ^ 32 ≤ 2 ^ bits := Nat.pow_le_pow_right (by decide) hbits
  rw [BitVec.signExtend_eq_setWidth_of_msb_false hmsb, BitVec.toNat_setWidth,
    hsub, Nat.mod_eq_of_lt (by omega)]

/-- A window whose size is a power of two refers to the registers exactly when
it is smaller than a page or the base is a multiple of its size. -/
theorem fits_two_pow {pageShift s : ℕ} (base : ℕ) (hs : 2 ≤ s) :
    Fits (2 ^ pageShift) base (2 ^ s) ↔ s < pageShift ∨ 2 ^ s ∣ base := by
  have hfour : 2 ^ 2 ≤ 2 ^ s := Nat.pow_le_pow_right (by decide) hs
  have hrest : base % 2 ^ s < 2 ^ s := Nat.mod_lt _ (Nat.two_pow_pos s)
  have hlarge : ¬ 2 ^ s < 4 := by omega
  rw [Fits, Nat.and_two_pow_sub_one_eq_mod, or_iff_right hlarge, pageUp]
  by_cases hpage : s < pageShift
  · -- the window and the rest of the base are in one page
    have hhalf : 2 ^ (s + 1) ≤ 2 ^ pageShift :=
      Nat.pow_le_pow_right (by decide) hpage
    rw [Nat.pow_succ] at hhalf
    have hzero : (2 ^ s - 1) / 2 ^ pageShift = 0 :=
      Nat.div_eq_of_lt (by omega)
    rw [hzero]
    simp only [hpage, true_or, iff_true]
    omega
  · have hpages : 2 ^ s = 2 ^ (s - pageShift) * 2 ^ pageShift := by
      rw [← Nat.pow_add, Nat.sub_add_cancel (Nat.not_lt.mp hpage)]
    have hpos := Nat.two_pow_pos pageShift
    have hlast : (2 ^ s - 1) / 2 ^ pageShift = 2 ^ (s - pageShift) - 1 := by
      apply Nat.div_eq_of_lt_le
      · rw [Nat.sub_mul, ← hpages]
        omega
      · rw [Nat.sub_add_cancel Nat.one_le_two_pow, ← hpages]
        omega
    have hround : (2 ^ (s - pageShift) - 1) * 2 ^ pageShift + 2 ^ pageShift =
        2 ^ s := by
      rw [← Nat.succ_mul, Nat.succ_eq_add_one,
        Nat.sub_add_cancel Nat.one_le_two_pow, hpages]
    rw [hlast, hround, or_iff_right hpage, Nat.dvd_iff_mod_eq_zero]
    omega

/-- A window of `FPGARegisters` or `DevMem` that has been mapped refers to the
registers of its device exactly when it fits into the mapped pages. -/
theorem window_refersTo_iff {bits pageSize : ℕ} (hbits : 32 ≤ bits)
    (hpage : 0 < pageSize) (mmap : Mmap bits pageSize) (base : BitVec bits) :
    (∀ (size : BitVec 32) (w : RegisterWindow), 0 < size.toInt →
      fpgaRegisters mmap base size = some w →
        (RefersTo pageSize w base.toNat size.toNat ↔
          Fits pageSize base.toNat size.toNat)) ∧
    ∀ (size : BitVec bits) (w : RegisterWindow), 0 < size.toNat →
      openDev mmap base size = some w →
        (RefersTo pageSize w base.toNat size.toNat ↔
          Fits pageSize base.toNat size.toNat) := by
  constructor
  · intro size w hsize hopen
    have hmask := toNat_signExtend_sub_one hbits hsize
    have hpos : 0 < size.toNat := by
      rw [BitVec.toInt_eq_toNat_cond] at hsize
      split at hsize <;> omega
    exact refersTo_iff_fits hpage hmask hpos hopen
  · intro size w hsize hopen
    exact refersTo_iff_fits hpage (toNat_sub_one hsize) hsize hopen

/-- A kernel with pages of 4096 bytes that maps everything at one address. -/
def mmapAt (address : ℕ) : Mmap 32 4096 where
  map _ offset := if 4096 ∣ offset.toNat then some address else none
  aligned h := by
    by_contra hdvd
    rw [if_neg hdvd] at h
    exact Option.some_ne_none _ h.symm

/-- The windows of the camera registers and of the I2C core. -/
theorem window_refersTo_cameraRegisters :
    (∀ w, fpgaRegisters (mmapAt 0xb6f00000) 0x7e200000 32 = some w →
      RefersTo 4096 w 0x7e200000 32) ∧
    ∀ w, openDev (mmapAt 0xb6f00000) 0x41600000 256 = some w →
      RefersTo 4096 w 0x41600000 256 := by
  have hregisters := window_refersTo_iff (by decide) (by decide)
    (mmapAt 0xb6f00000) 0x7e200000
  have hcore := window_refersTo_iff (by decide) (by decide)
    (mmapAt 0xb6f00000) 0x41600000
  exact ⟨fun w h => (hregisters.1 32 w (by decide) h).mpr (by decide),
    fun w h => (hcore.2 256 w (by decide) h).mpr (by decide)⟩

/-- A window of two pages whose base is not a multiple of its size ends behind
the mapped pages. -/
theorem window_ends_behind_pages :
    ¬ ∀ (bits pageSize : ℕ) (mmap : Mmap bits pageSize) (base : BitVec bits),
      32 ≤ bits → 0 < pageSize →
        ∀ (size : BitVec 32) (w : RegisterWindow), 0 < size.toInt →
          fpgaRegisters mmap base size = some w →
            RefersTo pageSize w base.toNat size.toNat := by
  intro hall
  have hrefers := hall 32 4096 (mmapAt 0xb6f00000) 0x7e201000 (by decide)
    (by decide) 0x2000
    ⟨0x7e200000, 0x2000, 0xb6f00000, 0xb6f01000⟩ (by decide) (by decide)
  exact absurd (hrefers 0x1000 (by decide) 0 (by decide)) (by decide)

end RegisterWindow

end NetworkExperiments.Visensor
