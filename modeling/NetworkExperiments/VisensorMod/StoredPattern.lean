import NetworkExperiments.Support.ByteMemory
import NetworkExperiments.Support.ByteOrder
import NetworkExperiments.VisensorMod.Containment

/-!
# The pattern in memory

`aslam_init` stores a pattern in its area, for a test application to check.
This file says what it leaves in physical memory: the area holds the pattern,
and no other byte has changed.
-/

namespace NetworkExperiments.VisensorMod

/-- The `int` with index `k` of the pattern. -/
def patternInt (k : ℕ) : ℤ :=
  if k % 2 = 0 then CInt.toInt (0xdead * 2 ^ 16 + k)
  else CInt.toInt (0xbeef * 2 ^ 16 + (k - 1 : ℕ))

/-- The byte of the pattern at an offset of the area. -/
def patternByte (order : ByteOrder) (offset : ℕ) : UInt8 :=
  (order.storeInt (patternInt (offset / 4))).getD (offset % 4) 0

/-- Physical memory after a call.  Only stores change it. -/
def memoryAfter (order : ByteOrder) (virtToPhys : ℕ → ℕ)
    (memory : ByteMemory) : Call → ByteMemory
  | .store _ addr value =>
      memory.write (virtToPhys addr) 4 fun k =>
        (order.storeInt value).getD k 0
  | _ => memory

theorem foldl_memoryAfter_of_noStore (order : ByteOrder)
    (virtToPhys : ℕ → ℕ) (memory : ByteMemory) {calls : List Call}
    (h : ∀ block addr value, .store block addr value ∉ calls) :
    calls.foldl (memoryAfter order virtToPhys) memory = memory := by
  induction calls with
  | nil => rfl
  | cons call calls ih =>
      have hrest := ih fun block addr value hmem =>
        h block addr value (List.mem_cons_of_mem _ hmem)
      cases call with
      | store block addr value =>
          exact absurd List.mem_cons_self (h block addr value)
      | _ => exact hrest

section Area

variable {cfg : Config} (h : cfg.Sensible) {ptr : ℕ}
  (hwrap : ptr + cfg.kmallocBytes ≤ 2 ^ cfg.bits)
include h hwrap

theorem storePattern_eq :
    storePattern cfg ptr (roundUp cfg ptr) =
      (List.range (cfg.areaBytes / 4)).map fun k =>
        .store ptr (roundUp cfg ptr + 4 * k) (patternInt k) := by
  have hpair : ∀ j ∈ List.range (cfg.areaBytes / 8),
      ([.store ptr (intAddress cfg (roundUp cfg ptr) ((j * 2 : ℕ) : ℤ))
          (CInt.toInt (0xdead * 2 ^ 16 + ((j * 2 : ℕ) : ℤ))),
        .store ptr (intAddress cfg (roundUp cfg ptr)
          (CInt.toInt (((j * 2 : ℕ) : ℤ) + 1)))
          (CInt.toInt (0xbeef * 2 ^ 16 + ((j * 2 : ℕ) : ℤ)))] : List Call) =
      [.store ptr (roundUp cfg ptr + 4 * (j * 2)) (patternInt (j * 2)),
        .store ptr (roundUp cfg ptr + 4 * (j * 2 + 1))
          (patternInt (j * 2 + 1))] := by
    intro j hj
    have hlt := h.bytes_lt
    rw [Nat.add_mul, ← h.areaBytes_eq] at hlt
    have hints := h.ints_eq
    have hindex := List.mem_range.mp hj
    have hint : CInt.toInt (((j * 2 : ℕ) : ℤ) + 1) = ((j * 2 + 1 : ℕ) : ℤ) :=
      CInt.toInt_eq_self (by omega) (by omega)
    have heven : patternInt (j * 2) =
        CInt.toInt (0xdead * 2 ^ 16 + ((j * 2 : ℕ) : ℤ)) :=
      if_pos (Nat.mul_mod_left j 2)
    have hodd : patternInt (j * 2 + 1) =
        CInt.toInt (0xbeef * 2 ^ 16 + ((j * 2 : ℕ) : ℤ)) :=
      if_neg (by omega)
    rw [hint, intAddress_area h hwrap (by omega),
      intAddress_area h hwrap (by omega), heven, hodd]
  rw [storePattern, h.patternIndices_eq, List.flatMap_map, h.ints_eq,
    ← CountingLoop.flatMap_pairs]
  exact List.flatMap_congr hpair

/-- The stores fill the area, which is in one piece in physical memory too. -/
theorem foldl_memoryAfter_storePattern (order : ByteOrder)
    {virtToPhys : ℕ → ℕ}
    (hlinear : LinearOn cfg virtToPhys ptr cfg.kmallocBytes)
    (memory : ByteMemory) :
    (storePattern cfg ptr (roundUp cfg ptr)).foldl
        (memoryAfter order virtToPhys) memory =
      memory.write (virtToPhys (roundUp cfg ptr)) cfg.areaBytes
        (patternByte order) := by
  obtain ⟨-, hle, hend⟩ := area_spec h hwrap
  have hints := h.ints_eq
  have hsize : cfg.areaBytes = 4 * (cfg.areaBytes / 4) := by
    have hpage : 8 ∣ cfg.pageSize := pow_dvd_pow 2 h.pageShift_ge
    have harea : 8 ∣ cfg.areaBytes :=
      hpage.trans cfg.pageSize_dvd_areaBytes
    omega
  have hplace : ∀ k < cfg.areaBytes / 4,
      virtToPhys (roundUp cfg ptr + 4 * k) =
        virtToPhys (roundUp cfg ptr) + 4 * k := by
    intro k hk
    rw [hlinear.linear _ (by omega) (by omega),
      hlinear.linear (roundUp cfg ptr) hle (by omega)]
    omega
  have hfold : (storePattern cfg ptr (roundUp cfg ptr)).foldl
      (memoryAfter order virtToPhys) memory =
      (List.range (cfg.areaBytes / 4)).foldl
        (fun m k => m.write (virtToPhys (roundUp cfg ptr) + 4 * k) 4 fun j =>
          (order.storeInt (patternInt k)).getD j 0) memory := by
    rw [storePattern_eq h hwrap, List.foldl_map]
    apply List.foldl_ext
    intro m k hk
    rw [memoryAfter, hplace k (List.mem_range.mp hk)]
  rw [hfold, ByteMemory.foldl_write_words _ _ (by decide), ← hsize]
  rfl

/-- Loading the module writes the pattern into its area, and nothing else. -/
theorem memory_aslamInit (order : ByteOrder) {virtToPhys : ℕ → ℕ}
    (hlinear : LinearOn cfg virtToPhys ptr cfg.kmallocBytes)
    {answers : Answers} (hkmalloc : answers.kmalloc = some ptr)
    (statics : Statics) (memory : ByteMemory) :
    (aslamInit cfg answers statics).2.2.foldl (memoryAfter order virtToPhys)
        memory =
      memory.write (virtToPhys (roundUp cfg ptr)) cfg.areaBytes
        (patternByte order) := by
  obtain ⟨-, first, hcalls, -, hstores⟩ :=
    aslamInit_calls hkmalloc cfg statics
  have hnostore : ∀ block addr value, .store block addr value ∉
      .kmalloc ptr cfg.kmallocBytes :: first ++
        setPagesReserved cfg ptr (roundUp cfg ptr) := by
    intro block addr value hmem
    rcases List.mem_append.mp hmem with hmem | hmem
    · rcases List.mem_cons.mp hmem with hcall | hmem
      · cases hcall
      · exact hstores block addr value hmem
    · obtain ⟨i, -, hcall⟩ := List.mem_map.mp hmem
      cases hcall
  rw [hcalls, ← List.append_assoc, List.foldl_append,
    foldl_memoryAfter_of_noStore order virtToPhys memory hnostore]
  exact foldl_memoryAfter_storePattern h hwrap order hlinear memory

end Area

end NetworkExperiments.VisensorMod
