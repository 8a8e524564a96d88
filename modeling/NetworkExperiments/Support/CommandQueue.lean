import Mathlib.Data.List.Basic

/-!
# Command queues

A device takes commands from a queue, one at a time and in its own time: it
first takes a command out of the queue and later carries it out.  Whoever
pushes commands cannot see how far the device has come.  What it can rely on is
the state that the device will have reached when it has carried out everything
pushed so far; this state changes with a push only.
-/

/-- The commands that are waiting, the one that has been taken out, and the
state of the device. -/
structure CommandQueue (S W : Type*) where
  queue : List W
  current : Option W
  state : S

namespace CommandQueue

variable {S W : Type*} (process : S → W → S) {c : CommandQueue S W} {s : S}
  {w : W}

/-- The commands that have not been carried out. -/
def pending (c : CommandQueue S W) : List W := c.current.toList ++ c.queue

def push (c : CommandQueue S W) (w : W) : CommandQueue S W :=
  { c with queue := c.queue ++ [w] }

/-- The next thing that the device does. -/
def advance (c : CommandQueue S W) : CommandQueue S W :=
  match c.current with
  | some w => { c with current := none, state := process c.state w }
  | none =>
      match c.queue with
      | [] => c
      | w :: queue => { c with queue := queue, current := some w }

/-- The state when everything pushed so far has been carried out. -/
def final (c : CommandQueue S W) : S := c.pending.foldl process c.state

theorem pending_push : (c.push w).pending = c.pending ++ [w] :=
  (List.append_assoc _ _ _).symm

@[simp] theorem final_push :
    (c.push w).final process = process (c.final process) w := by
  rw [final, pending_push, List.foldl_append]
  rfl

theorem final_of_pending (h : c.pending = []) : c.final process = c.state := by
  rw [final, h]
  rfl

/-- The device carries out the next command, or takes it out of the queue, or
there is none. -/
theorem advance_cases (c : CommandQueue S W) :
    (∃ w, c.pending = w :: (c.advance process).pending ∧
        (c.advance process).state = process c.state w) ∨
      ((c.advance process).pending = c.pending ∧
        (c.advance process).state = c.state) := by
  obtain ⟨queue, current, state⟩ := c
  cases current with
  | some w => exact Or.inl ⟨w, rfl, rfl⟩
  | none =>
      cases queue with
      | nil => exact Or.inr ⟨rfl, rfl⟩
      | cons w queue => exact Or.inr ⟨rfl, rfl⟩

@[simp] theorem final_advance :
    (c.advance process).final process = c.final process := by
  rcases advance_cases process c with ⟨w, hpending, hstate⟩ | ⟨hpending, hstate⟩
  · rw [final, final, hpending, hstate, List.foldl_cons]
  · rw [final, final, hpending, hstate]

theorem queue_advance (h : c.queue = []) : (c.advance process).queue = [] := by
  obtain ⟨queue, current, state⟩ := c
  cases (h : queue = [])
  cases current <;> rfl

theorem advance_of_pending (h : c.pending = []) : c.advance process = c := by
  obtain ⟨queue, current, state⟩ := c
  obtain ⟨hcurrent, hqueue⟩ := List.append_eq_nil_iff.mp h
  cases current with
  | some w => exact absurd hcurrent (List.cons_ne_nil _ _)
  | none =>
      cases (hqueue : queue = [])
      rfl

/-! ## The last command -/

/-- `w` is the last command pushed, and either it is still to be carried out, in
the state `s`, or it has been. -/
def Sent (w : W) (s : S) (c : CommandQueue S W) : Prop :=
  (∃ before, c.pending = before ++ [w] ∧
      before.foldl process c.state = s) ∨
    (c.pending = [] ∧ c.state = process s w)

theorem sent_push (h : c.final process = s) : Sent process w s (c.push w) :=
  Or.inl ⟨c.pending, pending_push, h⟩

theorem Sent.advance (h : Sent process w s c) :
    Sent process w s (c.advance process) := by
  rcases h with ⟨before, hpending, hstate⟩ | ⟨hpending, hstate⟩
  · rcases advance_cases process c with ⟨v, hnext, hdone⟩ | ⟨hsame, hkept⟩
    · rw [hpending] at hnext
      cases before with
      | nil =>
          obtain ⟨rfl, hrest⟩ := List.cons.inj hnext
          exact Or.inr ⟨hrest.symm, hstate ▸ hdone⟩
      | cons v' before =>
          obtain ⟨rfl, hrest⟩ := List.cons.inj hnext
          exact Or.inl ⟨before, hrest.symm, hdone ▸ hstate⟩
    · exact Or.inl ⟨before, hsame.trans hpending, hkept ▸ hstate⟩
  · rw [advance_of_pending process hpending]
    exact Or.inr ⟨hpending, hstate⟩

/-! ## The work that is left -/

/-- The number of steps until nothing is pending. -/
def work (c : CommandQueue S W) : ℕ :=
  2 * c.queue.length + c.current.toList.length

theorem work_advance_lt (h : c.pending ≠ []) :
    (c.advance process).work < c.work := by
  obtain ⟨queue, current, state⟩ := c
  cases current with
  | some w => exact Nat.lt_succ_self _
  | none =>
      cases queue with
      | nil => exact absurd rfl h
      | cons w queue =>
          change 2 * queue.length + 1 < 2 * (queue.length + 1) + 0
          omega

end CommandQueue
