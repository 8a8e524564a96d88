import Mathlib.Data.List.Basic

/-!
# Interleavings of two lists

`Interleaving xs ys zs` says that `zs` consists of the items of `xs` and those
of `ys`, each in their order.
-/

/-- `zs` is an interleaving of `xs` and `ys`. -/
inductive Interleaving {α : Type*} : List α → List α → List α → Prop
  | nil : Interleaving [] [] []
  | left (x : α) {xs ys zs : List α} (h : Interleaving xs ys zs) :
      Interleaving (x :: xs) ys (x :: zs)
  | right (y : α) {xs ys zs : List α} (h : Interleaving xs ys zs) :
      Interleaving xs (y :: ys) (y :: zs)

namespace Interleaving

variable {α : Type*} {xs ys zs : List α}

theorem right_only (ys : List α) : Interleaving [] ys ys := by
  induction ys with
  | nil => exact .nil
  | cons y ys ih => exact .right y ih

theorem append (xs ys : List α) : Interleaving xs ys (xs ++ ys) := by
  induction xs with
  | nil => exact right_only ys
  | cons x xs ih => exact .left x ih

theorem append_left (us : List α) (h : Interleaving xs ys zs) :
    Interleaving (us ++ xs) ys (us ++ zs) := by
  induction us with
  | nil => exact h
  | cons u us ih => exact .left u ih

theorem append_right (us : List α) (h : Interleaving xs ys zs) :
    Interleaving xs (us ++ ys) (us ++ zs) := by
  induction us with
  | nil => exact h
  | cons u us ih => exact .right u ih

theorem mem_iff (h : Interleaving xs ys zs) {z : α} :
    z ∈ zs ↔ z ∈ xs ∨ z ∈ ys := by
  induction h with
  | nil => simp
  | left x _ ih => rw [List.mem_cons, List.mem_cons, ih, or_assoc]
  | right y _ ih => rw [List.mem_cons, List.mem_cons, ih, or_left_comm]

end Interleaving
