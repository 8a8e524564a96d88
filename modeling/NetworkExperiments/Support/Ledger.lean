import Mathlib.Data.Finset.Basic
import Mathlib.Data.Finset.Lattice.Lemmas

/-!
# Resource ledgers

A program acquires, uses and releases resources.  The ledger records which of
them are held, and whether one has been used or released that was not: memory
used after it has been freed, or a number given back twice.
-/

/-- What a program does with a resource. -/
inductive Ledger.Op (ρ : Type*)
  | acquire (r : ρ)
  | release (r : ρ)
  | use (r : ρ)
  deriving DecidableEq, Repr

/-- The resources that are held, and whether a resource that was not held has
been used or released. -/
structure Ledger (ρ : Type*) where
  held : Finset ρ
  faulted : Bool

namespace Ledger

variable {ρ : Type*} [DecidableEq ρ] {l : Ledger ρ} {r : ρ}

def empty : Ledger ρ := ⟨∅, false⟩

def step (l : Ledger ρ) : Op ρ → Ledger ρ
  | .acquire r => { l with held := insert r l.held }
  | .release r =>
      if r ∈ l.held then { l with held := l.held.erase r }
      else { l with faulted := true }
  | .use r => if r ∈ l.held then l else { l with faulted := true }

def run (l : Ledger ρ) (ops : List (Op ρ)) : Ledger ρ :=
  ops.foldl step l

@[simp] theorem run_nil : l.run [] = l := rfl

@[simp] theorem run_cons (op : Op ρ) (ops : List (Op ρ)) :
    l.run (op :: ops) = (l.step op).run ops := rfl

theorem run_append (ops ops' : List (Op ρ)) :
    l.run (ops ++ ops') = (l.run ops).run ops' :=
  List.foldl_append

theorem step_use (h : r ∈ l.held) : l.step (.use r) = l :=
  if_pos h

theorem step_release (h : r ∈ l.held) :
    l.step (.release r) = ⟨l.held.erase r, l.faulted⟩ :=
  if_pos h

theorem run_acquire_release (h : r ∉ l.held) :
    l.run [.acquire r, .release r] = l := by
  have hstep : l.step (.acquire r) = ⟨insert r l.held, l.faulted⟩ := rfl
  rw [run_cons, hstep, run_cons, step_release (Finset.mem_insert_self r _),
    Finset.erase_insert h, run_nil]

theorem step_acquire_use :
    (l.step (.acquire r)).step (.use r) = l.step (.acquire r) :=
  step_use (Finset.mem_insert_self r _)

/-! ## What stays held -/

theorem mem_held_step {op : Op ρ} (h : r ∈ l.held) (hop : op ≠ .release r) :
    r ∈ (l.step op).held := by
  cases op with
  | acquire r' => exact Finset.mem_insert_of_mem h
  | release r' =>
      have hne : r ≠ r' := fun heq => hop (heq ▸ rfl)
      rw [step]
      split
      · exact Finset.mem_erase.mpr ⟨hne, h⟩
      · exact h
  | use r' =>
      rw [step]
      split <;> exact h

/-- A resource stays held unless it is released. -/
theorem mem_held_run {ops : List (Op ρ)} (h : r ∈ l.held)
    (hops : .release r ∉ ops) : r ∈ (l.run ops).held := by
  induction ops generalizing l with
  | nil => exact h
  | cons op ops ih =>
      have hop : op ≠ .release r := fun heq =>
        hops (heq ▸ List.mem_cons_self)
      exact ih (mem_held_step h hop)
        fun hmem => hops (List.mem_cons_of_mem _ hmem)

/-- What a program acquires and never releases is held in the end. -/
theorem mem_held_of_acquire {ops : List (Op ρ)} (h : .acquire r ∈ ops)
    (hops : .release r ∉ ops) : r ∈ (l.run ops).held := by
  obtain ⟨before, after, rfl⟩ := List.append_of_mem h
  rw [run_append, run_cons]
  refine mem_held_run (Finset.mem_insert_self r _) fun hmem => hops ?_
  exact List.mem_append_right _ (List.mem_cons_of_mem _ hmem)

/-- What is not held is not held after a program that does not acquire it. -/
theorem notMem_held_run {ops : List (Op ρ)} (h : r ∉ l.held)
    (hops : .acquire r ∉ ops) : r ∉ (l.run ops).held := by
  induction ops generalizing l with
  | nil => exact h
  | cons op ops ih =>
      refine ih ?_ fun hmem => hops (List.mem_cons_of_mem _ hmem)
      cases op with
      | acquire r' =>
          have hne : r ≠ r' := fun heq => hops (heq ▸ List.mem_cons_self)
          exact fun hmem => h (Finset.mem_of_mem_insert_of_ne hmem hne)
      | release r' =>
          rw [step]
          split
          · exact fun hmem => h (Finset.mem_of_mem_erase hmem)
          · exact h
      | use r' =>
          rw [step]
          split <;> exact h

/-! ## Faults -/

theorem faulted_step (h : l.faulted = true) (op : Op ρ) :
    (l.step op).faulted = true := by
  cases op with
  | acquire r => exact h
  | release r | use r =>
      rw [step]
      split
      · exact h
      · rfl

theorem faulted_run (h : l.faulted = true) (ops : List (Op ρ)) :
    (l.run ops).faulted = true := by
  induction ops generalizing l with
  | nil => exact h
  | cons op ops ih => exact ih (faulted_step h op)

/-- Something is released or used that is not held. -/
theorem faulted_of_notMem {before after : List (Op ρ)} {op : Op ρ}
    (hop : op = .release r ∨ op = .use r) (h : r ∉ (l.run before).held) :
    (l.run (before ++ op :: after)).faulted = true := by
  have hfault : ((l.run before).step op).faulted = true := by
    rcases hop with rfl | rfl
    · rw [step, if_neg h]
    · rw [step, if_neg h]
  rw [run_append, run_cons]
  exact faulted_run hfault after

/-- Something is released or used that is neither held nor acquired. -/
theorem faulted_run_of_mem {ops : List (Op ρ)} {op : Op ρ} (hmem : op ∈ ops)
    (hop : op = .release r ∨ op = .use r) (h : r ∉ l.held)
    (hops : .acquire r ∉ ops) : (l.run ops).faulted = true := by
  obtain ⟨before, after, rfl⟩ := List.append_of_mem hmem
  refine faulted_of_notMem hop (notMem_held_run h fun hacquire => hops ?_)
  exact List.mem_append_left _ hacquire

/-! ## Programs that only add to the ledger -/

/-- An operation that acquires something or uses what is held. -/
def Keeps (l : Ledger ρ) : Op ρ → Prop
  | .acquire _ => True
  | .release _ => False
  | .use r => r ∈ l.held

/-- The resources that a program acquires. -/
def acquired (ops : List (Op ρ)) : List ρ :=
  ops.filterMap fun
    | .acquire r => some r
    | _ => none

omit [DecidableEq ρ] in
theorem mem_acquired {ops : List (Op ρ)} :
    r ∈ acquired ops ↔ .acquire r ∈ ops := by
  rw [acquired, List.mem_filterMap]
  constructor
  · rintro ⟨op, hop, heq⟩
    cases op with
    | acquire r' => exact Option.some.inj heq ▸ hop
    | release r' | use r' => cases heq
  · exact fun h => ⟨_, h, rfl⟩

omit [DecidableEq ρ] in
theorem acquired_append (ops ops' : List (Op ρ)) :
    acquired (ops ++ ops') = acquired ops ++ acquired ops' :=
  List.filterMap_append

omit [DecidableEq ρ] in
theorem acquired_flatMap {α : Type*} (f : α → List (Op ρ)) (xs : List α) :
    acquired (xs.flatMap f) = xs.flatMap fun x => acquired (f x) :=
  List.filterMap_flatMap

/-- A program that releases nothing and uses what is held adds what it
acquires. -/
theorem run_eq_union {ops : List (Op ρ)} (h : ∀ op ∈ ops, l.Keeps op) :
    l.run ops = ⟨l.held ∪ (acquired ops).toFinset, l.faulted⟩ := by
  induction ops generalizing l with
  | nil =>
      rw [acquired, List.filterMap_nil, List.toFinset_nil, Finset.union_empty,
        run_nil]
  | cons op ops ih =>
      have hrest : ∀ op ∈ ops, l.Keeps op :=
        fun op hop => h op (List.mem_cons_of_mem _ hop)
      cases op with
      | acquire r =>
          have hmore : ∀ op ∈ ops, (l.step (.acquire r)).Keeps op := by
            intro op hop
            have hkeeps := hrest op hop
            cases op with
            | acquire r' => trivial
            | release r' => exact hkeeps
            | use r' => exact Finset.mem_insert_of_mem hkeeps
          have hacquired :
              acquired (Op.acquire r :: ops) = r :: acquired ops := rfl
          rw [run_cons, ih hmore, hacquired, List.toFinset_cons,
            Finset.union_insert, ← Finset.insert_union]
          rfl
      | release r => exact absurd (h _ List.mem_cons_self) id
      | use r =>
          rw [run_cons, step_use (h _ List.mem_cons_self)]
          exact ih hrest

/-- A program that releases what is held, each thing once. -/
theorem run_release {rs : List ρ} (hnodup : rs.Nodup)
    (hheld : ∀ r ∈ rs, r ∈ l.held) :
    l.run (rs.map Op.release) = ⟨l.held \ rs.toFinset, l.faulted⟩ := by
  induction rs generalizing l with
  | nil =>
      rw [List.map_nil, run_nil, List.toFinset_nil, Finset.sdiff_empty]
  | cons r rs ih =>
      obtain ⟨hnew, hnodup⟩ := List.nodup_cons.mp hnodup
      have hrest : ∀ r' ∈ rs, r' ∈ (l.step (.release r)).held := by
        intro r' hr'
        rw [step_release (hheld r List.mem_cons_self)]
        refine Finset.mem_erase.mpr
          ⟨fun heq => hnew (heq ▸ hr'), hheld r' (List.mem_cons_of_mem _ hr')⟩
      rw [List.map_cons, run_cons, ih hnodup hrest,
        step_release (hheld r List.mem_cons_self), List.toFinset_cons,
        Finset.sdiff_insert, Finset.erase_sdiff_comm]

end Ledger
