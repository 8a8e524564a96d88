import Mathlib.Data.List.Perm.Subperm
import Mathlib.Data.Nat.ModEq

/-!
# Cyclic buffers

A producer writes items `0, 1, 2, ...` cyclically into `L` slots: item `k` goes
to slot `k % L`.  Within a window of `L` consecutive items the slot determines
the item, and `Latest` names the item that a slot holds.  `InOrder` is what a
consumer of such a buffer should achieve: it delivers finished items only, and
in the order in which they were produced.
-/

namespace CyclicSlots

variable {L : ℕ}

/-- Within a window of `L` items, the slot determines the item. -/
theorem mod_eq_mod_iff {a b : ℕ} (hab : a ≤ b) (hb : b < a + L) :
    a % L = b % L ↔ a = b := by
  constructor
  · intro h
    have hdvd : L ∣ b - a := (Nat.modEq_iff_dvd' hab).mp h
    have hzero : b - a = 0 :=
      Nat.eq_zero_of_dvd_of_lt hdvd (by omega)
    omega
  · rintro rfl
    rfl

theorem succ_mod {p : ℕ} (hp : p < L) :
    (p + 1) % L = if p + 1 ≥ L then 0 else p + 1 := by
  split
  · have hpL : p + 1 = L := by omega
    rw [hpL, Nat.mod_self]
  · exact Nat.mod_eq_of_lt (by omega)

/-- `s` is the latest of the items `0, ..., k` that went to slot `p`. -/
structure Latest (L p k s : ℕ) : Prop where
  slot : s % L = p
  le : s ≤ k
  lt : k < s + L

namespace Latest

variable {p k s : ℕ}

/-- The producer is in slot `p` exactly when its item is the latest there. -/
theorem mod_eq_iff (h : Latest L p k s) : k % L = p ↔ k = s := by
  rw [← h.slot, eq_comm, mod_eq_mod_iff h.le h.lt, eq_comm]

/-- When the producer goes on, the latest item of a slot does not get
older. -/
theorem producer_succ (h : Latest L p k s) :
    ∃ s', Latest L p (k + 1) s' ∧ s ≤ s' := by
  have hlt := h.lt
  have hle := h.le
  by_cases hnext : k + 1 < s + L
  · exact ⟨s, ⟨h.slot, by omega, hnext⟩, Nat.le_refl s⟩
  · refine ⟨s + L, ⟨?_, by omega, by omega⟩, by omega⟩
    rw [Nat.add_mod_right, h.slot]

/-- When the producer is past item `s` of slot `p`, the next slot holds item
`s + 1`. -/
theorem next_slot (h : Latest L p k s) (hk : k ≠ s) :
    Latest L ((p + 1) % L) k (s + 1) := by
  have hlt := h.lt
  have hle := h.le
  refine ⟨?_, by omega, by omega⟩
  rw [← h.slot, Nat.mod_add_mod]

end Latest

/-- The delivered items are finished ones, in the order of production.
`finished` is the number of finished items. -/
structure InOrder (finished : ℕ) (items : List ℕ) : Prop where
  increasing : items.Pairwise (· < ·)
  finished : ∀ k ∈ items, k < finished

namespace InOrder

variable {finished : ℕ} {items : List ℕ}

theorem nil (finished : ℕ) : InOrder finished [] :=
  ⟨List.Pairwise.nil, by simp⟩

theorem mono (h : InOrder finished items) {finished' : ℕ}
    (hle : finished ≤ finished') : InOrder finished' items :=
  ⟨h.increasing, fun k hk => lt_of_lt_of_le (h.finished k hk) hle⟩

theorem concat (h : InOrder finished items) {k : ℕ} (hk : k < finished)
    (hlast : ∀ i ∈ items, i < k) : InOrder finished (items ++ [k]) := by
  constructor
  · rw [List.pairwise_append]
    refine ⟨h.increasing, List.pairwise_singleton _ _, ?_⟩
    intro i hi j hj
    rw [List.mem_singleton.mp hj]
    exact hlast i hi
  · intro i hi
    rcases List.mem_append.mp hi with hi | hi
    · exact h.finished i hi
    · rw [List.mem_singleton.mp hi]
      exact hk

/-- Items that are left out do not change the order of the others. -/
theorem sublist (h : InOrder finished items) {items' : List ℕ}
    (hsub : items'.Sublist items) : InOrder finished items' :=
  ⟨h.increasing.sublist hsub, fun k hk => h.finished k (hsub.subset hk)⟩

/-- No more items are delivered than have been finished. -/
theorem length_le (h : InOrder finished items) : items.length ≤ finished := by
  have hnodup : items.Nodup := h.increasing.imp fun hlt => ne_of_lt hlt
  have hsub : items ⊆ List.range finished := fun k hk =>
    List.mem_range.mpr (h.finished k hk)
  calc
    items.length ≤ (List.range finished).length :=
      (List.subperm_of_subset hnodup hsub).length_le
    _ = finished := List.length_range

end InOrder

/-! ## Counting by slots -/

section Counting

variable {α β : Type*} [DecidableEq β] (slot : α → β) (items : List α)

theorem countP_mem_cons {slots : List β} {i : β} (hi : i ∉ slots) :
    (items.countP fun a => slot a ∈ i :: slots) =
      (items.countP fun a => slot a = i) +
        items.countP fun a => slot a ∈ slots := by
  induction items with
  | nil => rfl
  | cons a items ih =>
      rw [List.countP_cons, List.countP_cons, List.countP_cons, ih]
      by_cases ha : slot a = i
      · subst ha
        simp [hi]
        omega
      · simp [ha]
        omega

/-- The counts of different slots add up to the count of the items in them. -/
theorem sum_countP {slots : List β} (h : slots.Nodup) :
    (slots.map fun i => items.countP fun a => slot a = i).sum =
      items.countP fun a => slot a ∈ slots := by
  induction slots with
  | nil => simp
  | cons i slots ih =>
      obtain ⟨hi, hslots⟩ := List.nodup_cons.mp h
      rw [List.map_cons, List.sum_cons, ih hslots,
        countP_mem_cons slot items hi]

end Counting

end CyclicSlots
