import Mathlib.Data.List.Pairwise

/-!
# Intervals that tile a range

`Tiles start stop a xs b` says that the intervals `[start x, stop x)`, for `x`
in `xs`, follow one another without a gap from `a` to `b`.  Such intervals are
pairwise disjoint and cover exactly the range `[a, b)`.
-/

namespace Tiling

variable {α : Type*} (start stop : α → ℕ)

/-- The intervals of `xs` follow one another from `a` to `b`. -/
def Tiles : ℕ → List α → ℕ → Prop
  | a, [], b => a = b
  | a, x :: xs, b => start x = a ∧ start x ≤ stop x ∧ Tiles (stop x) xs b

namespace Tiles

variable {start stop} {a b d : ℕ} {xs ys : List α}

theorem append (h : Tiles start stop a xs b) (h' : Tiles start stop b ys d) :
    Tiles start stop a (xs ++ ys) d := by
  induction xs generalizing a with
  | nil =>
      cases (h : a = b)
      exact h'
  | cons x xs ih => exact ⟨h.1, h.2.1, ih h.2.2⟩

theorem le (h : Tiles start stop a xs b) : a ≤ b := by
  induction xs generalizing a with
  | nil => exact Nat.le_of_eq h
  | cons x xs ih =>
      have hrest := ih h.2.2
      have hx := h.2.1
      have ha := h.1
      omega

theorem start_ge (h : Tiles start stop a xs b) {x : α} (hx : x ∈ xs) :
    a ≤ start x := by
  induction xs generalizing a with
  | nil => exact absurd hx List.not_mem_nil
  | cons y ys ih =>
      rcases List.mem_cons.mp hx with rfl | hx
      · exact Nat.le_of_eq h.1.symm
      · have hrest := ih h.2.2 hx
        have hy := h.2.1
        have ha := h.1
        omega

theorem stop_le (h : Tiles start stop a xs b) {x : α} (hx : x ∈ xs) :
    stop x ≤ b := by
  induction xs generalizing a with
  | nil => exact absurd hx List.not_mem_nil
  | cons y ys ih =>
      rcases List.mem_cons.mp hx with rfl | hx
      · exact h.2.2.le
      · exact ih h.2.2 hx

/-- Every interval stops before the next ones start. -/
theorem pairwise (h : Tiles start stop a xs b) :
    xs.Pairwise fun x y => stop x ≤ start y := by
  induction xs generalizing a with
  | nil => exact List.Pairwise.nil
  | cons x xs ih =>
      exact List.pairwise_cons.mpr ⟨fun y hy => h.2.2.start_ge hy, ih h.2.2⟩

/-- The intervals cover exactly the range. -/
theorem mem_iff (h : Tiles start stop a xs b) (k : ℕ) :
    (∃ x ∈ xs, start x ≤ k ∧ k < stop x) ↔ a ≤ k ∧ k < b := by
  induction xs generalizing a with
  | nil =>
      cases (h : a = b)
      simp only [List.not_mem_nil, false_and, exists_false, false_iff]
      omega
  | cons x xs ih =>
      have hx := h.2.1
      have ha := h.1
      have hrest := h.2.2.le
      simp only [List.mem_cons, exists_eq_or_imp, ih h.2.2]
      omega

end Tiles

end Tiling
