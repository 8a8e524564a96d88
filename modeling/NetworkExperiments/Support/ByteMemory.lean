import Mathlib.Data.List.Basic
import Mathlib.Logic.Function.Basic

/-!
# Byte-addressed memory

A memory gives a byte for each address.  `bytes` reads a range of it, `write`
writes one; the lemmas split a range and say which writes leave it alone.
-/

/-- The contents of memory. -/
abbrev ByteMemory : Type := ℕ → UInt8

namespace ByteMemory

/-- The `n` bytes that start at address `a`. -/
def bytes (memory : ByteMemory) (a n : ℕ) : List UInt8 :=
  (List.range n).map fun k => memory (a + k)

@[simp] theorem length_bytes (memory : ByteMemory) (a n : ℕ) :
    (memory.bytes a n).length = n := by
  simp [bytes]

@[simp] theorem bytes_zero (memory : ByteMemory) (a : ℕ) :
    memory.bytes a 0 = [] := rfl

theorem getElem?_bytes (memory : ByteMemory) (a : ℕ) {k n : ℕ} (h : k < n) :
    (memory.bytes a n)[k]? = some (memory (a + k)) := by
  rw [bytes, List.getElem?_map, List.getElem?_range h, Option.map_some]

theorem bytes_add (memory : ByteMemory) (a m n : ℕ) :
    memory.bytes a (m + n) = memory.bytes a m ++ memory.bytes (a + m) n := by
  simp only [bytes, List.range_add, List.map_append, List.map_map]
  congr 1
  apply List.map_congr_left
  intro k _
  simp only [Function.comp_apply, Nat.add_assoc]

theorem take_bytes (memory : ByteMemory) (a : ℕ) {m n : ℕ} (h : m ≤ n) :
    (memory.bytes a n).take m = memory.bytes a m := by
  obtain ⟨k, rfl⟩ := Nat.exists_eq_add_of_le h
  rw [bytes_add]
  exact List.take_left' (memory.length_bytes a m)

theorem drop_bytes (memory : ByteMemory) (a : ℕ) {m n : ℕ} (h : m ≤ n) :
    (memory.bytes a n).drop m = memory.bytes (a + m) (n - m) := by
  obtain ⟨k, rfl⟩ := Nat.exists_eq_add_of_le h
  rw [bytes_add, Nat.add_sub_cancel_left]
  exact List.drop_left' (memory.length_bytes a m)

/-- Memories that agree on a range have the same bytes there. -/
theorem bytes_congr {memory memory' : ByteMemory} {a n : ℕ}
    (h : ∀ k < n, memory (a + k) = memory' (a + k)) :
    memory.bytes a n = memory'.bytes a n := by
  apply List.map_congr_left
  intro k hk
  exact h k (List.mem_range.mp hk)

/-- A write outside of a range leaves its bytes alone. -/
theorem bytes_update (memory : ByteMemory) {x a n : ℕ} (v : UInt8)
    (h : x < a ∨ a + n ≤ x) :
    ByteMemory.bytes (Function.update memory x v) a n = memory.bytes a n := by
  apply bytes_congr
  intro k hk
  have hne : a + k ≠ x := by omega
  rw [Function.update_of_ne hne]

/-- The memory after the first `n` bytes of `data` have been written from
address `a` on. -/
def write (memory : ByteMemory) (a n : ℕ) (data : ℕ → UInt8) : ByteMemory :=
  fun x => if a ≤ x ∧ x < a + n then data (x - a) else memory x

theorem write_of_inside (memory : ByteMemory) (data : ℕ → UInt8) {a n k : ℕ}
    (h : k < n) : memory.write a n data (a + k) = data k := by
  have hinside : a ≤ a + k ∧ a + k < a + n := by omega
  rw [write, if_pos hinside, Nat.add_sub_cancel_left]

theorem write_of_outside (memory : ByteMemory) (data : ℕ → UInt8) {a n x : ℕ}
    (h : x < a ∨ a + n ≤ x) : memory.write a n data x = memory x := by
  have houtside : ¬ (a ≤ x ∧ x < a + n) := by omega
  rw [write, if_neg houtside]

@[simp] theorem write_zero (memory : ByteMemory) (a : ℕ) (data : ℕ → UInt8) :
    memory.write a 0 data = memory :=
  funext fun _ => write_of_outside memory data (by omega)

theorem write_succ (memory : ByteMemory) (a n : ℕ) (data : ℕ → UInt8) :
    memory.write a (n + 1) data =
      Function.update (memory.write a n data) (a + n) (data n) := by
  funext x
  by_cases hx : x = a + n
  · subst hx
    rw [Function.update_self]
    exact write_of_inside memory data (Nat.lt_succ_self n)
  · rw [Function.update_of_ne hx, write, write]
    have hiff : (a ≤ x ∧ x < a + (n + 1)) ↔ (a ≤ x ∧ x < a + n) := by omega
    simp only [hiff]

theorem write_congr (memory : ByteMemory) {a n : ℕ} {data data' : ℕ → UInt8}
    (h : ∀ k < n, data k = data' k) :
    memory.write a n data = memory.write a n data' := by
  funext x
  by_cases hx : a ≤ x ∧ x < a + n
  · rw [write, write, if_pos hx, if_pos hx]
    exact h (x - a) (by omega)
  · rw [write, write, if_neg hx, if_neg hx]

/-- A write hides an earlier one inside of it. -/
theorem write_write (memory : ByteMemory) {a m b n : ℕ}
    (data data' : ℕ → UInt8) (hlo : a ≤ b) (hhi : b + n ≤ a + m) :
    (memory.write b n data).write a m data' = memory.write a m data' := by
  funext x
  by_cases hx : a ≤ x ∧ x < a + m
  · simp only [write, if_pos hx]
  · have houtside : ¬ (b ≤ x ∧ x < b + n) := by omega
    simp only [write, if_neg hx, if_neg houtside]

/-- Words that are written one behind the other are one write. -/
theorem foldl_write_words (memory : ByteMemory) (a : ℕ) {w : ℕ} (hw : 0 < w)
    (data : ℕ → ℕ → UInt8) (n : ℕ) :
    (List.range n).foldl (fun m k => m.write (a + w * k) w (data k)) memory =
      memory.write a (w * n) fun i => data (i / w) (i % w) := by
  induction n with
  | zero => rw [Nat.mul_zero, write_zero, List.range_zero, List.foldl_nil]
  | succ n ih =>
      rw [List.range_succ, List.foldl_append, ih, List.foldl_cons,
        List.foldl_nil, Nat.mul_succ]
      funext x
      by_cases hlast : a + w * n ≤ x ∧ x < a + w * n + w
      · obtain ⟨k, rfl⟩ := Nat.exists_eq_add_of_le hlast.1
        have hk : k < w := by omega
        have hdiv : (w * n + k) / w = n := by
          rw [Nat.mul_add_div hw, Nat.div_eq_of_lt hk, Nat.add_zero]
        have hmod : (w * n + k) % w = k := by
          rw [Nat.mul_add_mod, Nat.mod_eq_of_lt hk]
        rw [write_of_inside _ _ hk, Nat.add_assoc,
          write_of_inside _ _ (by omega), hdiv, hmod]
      · rw [write_of_outside _ _ (by omega), write, write]
        have hiff : (a ≤ x ∧ x < a + w * n) ↔
            (a ≤ x ∧ x < a + (w * n + w)) := by omega
        simp only [hiff]

end ByteMemory
