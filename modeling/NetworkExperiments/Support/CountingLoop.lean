import Mathlib.Data.List.Range
import Mathlib.Data.Nat.Find
import NetworkExperiments.Support.CInt

/-!
# Counting loops of C

`for (i = 0; i < bound; i += step)` has a counter of type `int`, which wraps,
and a bound of an unsigned type with `bits` bits, to which the comparison
converts the counter.  `values` lists the values of the counter for which the
body runs.  Such a loop need not end; it does as soon as the counter, on its
way around, takes one value that is not below the bound.
-/

namespace CountingLoop

variable {bits bound : ℕ} {step : ℤ}

/-- The values of the counter for which the body runs, from `i` on, or `none`
when the loop goes on for more than `fuel` tests. -/
def values (bits bound : ℕ) (step : ℤ) : ℕ → ℤ → Option (List ℤ)
  | 0, _ => none
  | fuel + 1, i =>
      if CInt.toSize bits i < bound then
        (values bits bound step fuel (CInt.toInt (i + step))).map (i :: ·)
      else some []

/-- The counter after `k` iterations. -/
def counter (step : ℤ) (k : ℕ) : ℤ := CInt.toInt (k * step)

theorem counter_zero : counter step 0 = 0 := by
  simp [counter, CInt.toInt]

theorem counter_succ (k : ℕ) :
    CInt.toInt (counter step k + step) = counter step (k + 1) := by
  have hsum : (k : ℤ) * step + step = (k + 1 : ℕ) * step := by
    rw [Int.natCast_add, Int.add_mul, Int.natCast_one, Int.one_mul]
  rw [counter, counter, CInt.toInt, CInt.toInt, Int.bmod_add_bmod, hsum,
    CInt.toInt]

/-- The loop runs while the counter is below the bound. -/
theorem values_eq_some {n fuel k : ℕ} (hfuel : n < fuel)
    (hbelow : ∀ j < n, CInt.toSize bits (counter step (k + j)) < bound)
    (hend : bound ≤ CInt.toSize bits (counter step (k + n))) :
    values bits bound step fuel (counter step k) =
      some ((List.range' k n).map (counter step)) := by
  induction n generalizing k fuel with
  | zero =>
      cases fuel with
      | zero => exact absurd hfuel (Nat.lt_irrefl 0)
      | succ fuel =>
          have hstop : ¬ CInt.toSize bits (counter step k) < bound :=
            Nat.not_lt.mpr hend
          rw [values, if_neg hstop]
          rfl
  | succ n ih =>
      cases fuel with
      | zero => exact absurd hfuel (Nat.not_lt_zero _)
      | succ fuel =>
          have hshift : ∀ j, k + 1 + j = k + (j + 1) := by omega
          have hrest := ih (k := k + 1) (Nat.lt_of_succ_lt_succ hfuel)
            (fun j hj => hshift j ▸ hbelow (j + 1) (Nat.succ_lt_succ hj))
            (hshift n ▸ hend)
          have hrun : CInt.toSize bits (counter step k) < bound :=
            hbelow 0 (Nat.succ_pos n)
          rw [values, if_pos hrun, counter_succ, hrest]
          rfl

/-- The loop ends when the counter takes a value that is not below the
bound. -/
theorem isSome_values {n fuel : ℕ} (hfuel : n < fuel)
    (hend : bound ≤ CInt.toSize bits (counter step n)) :
    (values bits bound step fuel 0).isSome := by
  have hex : ∃ n, bound ≤ CInt.toSize bits (counter step n) := ⟨n, hend⟩
  have hbelow : ∀ j < Nat.find hex,
      CInt.toSize bits (counter step (0 + j)) < bound := by
    intro j hj
    rw [Nat.zero_add]
    exact Nat.not_le.mp (Nat.find_min hex hj)
  have hfirst : bound ≤ CInt.toSize bits (counter step (0 + Nat.find hex)) := by
    rw [Nat.zero_add]
    exact Nat.find_spec hex
  have hvalues := values_eq_some
    (lt_of_le_of_lt (Nat.find_min' hex hend) hfuel) hbelow hfirst
  rw [counter_zero] at hvalues
  rw [hvalues]
  rfl

/-- A loop whose counter does not wrap counts up to the bound. -/
theorem values_range {s n fuel : ℕ} (hbits : 32 ≤ bits) (hfuel : n < fuel)
    (hbelow : ∀ j < n, j * s < bound) (hend : bound ≤ n * s)
    (hmax : n * s < 2 ^ 31) :
    values bits bound s fuel 0 =
      some ((List.range n).map fun j => ((j * s : ℕ) : ℤ)) := by
  have hcounter : ∀ j ≤ n, counter s j = ((j * s : ℕ) : ℤ) := by
    intro j hj
    have hle : j * s ≤ n * s := Nat.mul_le_mul_right s hj
    rw [counter, ← Int.natCast_mul]
    exact CInt.toInt_eq_self (by omega) (by omega)
  have hsize : ∀ j ≤ n, CInt.toSize bits (counter s (0 + j)) = j * s := by
    intro j hj
    have hle : j * s ≤ n * s := Nat.mul_le_mul_right s hj
    have hpow : 2 ^ 31 < 2 ^ bits := Nat.pow_lt_pow_right (by decide) hbits
    rw [Nat.zero_add, hcounter j hj]
    exact CInt.toSize_natCast (by omega)
  have hrun : ∀ j < n, CInt.toSize bits (counter s (0 + j)) < bound := by
    intro j hj
    rw [hsize j (Nat.le_of_lt hj)]
    exact hbelow j hj
  have hstop : bound ≤ CInt.toSize bits (counter s (0 + n)) := by
    rw [hsize n (Nat.le_refl n)]
    exact hend
  have hvalues := values_eq_some hfuel hrun hstop
  rw [counter_zero] at hvalues
  have hmap : (List.range n).map (counter s) =
      (List.range n).map fun j => ((j * s : ℕ) : ℤ) :=
    List.map_congr_left fun j hj =>
      hcounter j (Nat.le_of_lt (List.mem_range.mp hj))
  rw [hvalues, ← List.range_eq_range', hmap]

theorem eq_nil_iff {fuel : ℕ} {l : List ℤ}
    (h : values bits bound step (fuel + 1) 0 = some l) : l = [] ↔ bound = 0 := by
  have hzero : CInt.toSize bits 0 = 0 := rfl
  rw [values, hzero] at h
  split at h
  · next hpos =>
      obtain ⟨rest, -, rfl⟩ := Option.map_eq_some_iff.mp h
      exact ⟨fun hnil => absurd hnil (List.cons_ne_nil _ _), fun hbound =>
        absurd hpos (Nat.not_lt.mpr (Nat.le_of_eq hbound))⟩
  · next hpos =>
      exact ⟨fun _ => Nat.eq_zero_of_not_pos hpos,
        fun _ => (Option.some.inj h).symm⟩

/-- A loop that counts in twos and treats two indices at a time treats every
index once. -/
theorem flatMap_pairs {α : Type*} (f : ℕ → α) (n : ℕ) :
    ((List.range n).flatMap fun j => [f (j * 2), f (j * 2 + 1)]) =
      (List.range (n * 2)).map f := by
  induction n with
  | zero => rfl
  | succ n ih =>
      have hnext : (n + 1) * 2 = n * 2 + 1 + 1 := by omega
      rw [List.range_succ, List.flatMap_append, ih, hnext, List.range_succ,
        List.range_succ, List.map_append, List.map_append, List.append_assoc]
      rfl

end CountingLoop
