import Mathlib.Data.List.Basic

/-!
# Buffers that are written from their start

`overwrite` copies items to the start of a buffer and leaves the rest of it as
it was.  A copy hides every earlier one that was not longer.
-/

namespace Buffer

variable {α : Type*}

/-- The buffer after `items` have been copied to its start. -/
def overwrite (buf items : List α) : List α :=
  items ++ buf.drop items.length

theorem length_overwrite {buf items : List α}
    (h : items.length ≤ buf.length) :
    (overwrite buf items).length = buf.length := by
  rw [overwrite, List.length_append, List.length_drop]
  omega

theorem take_overwrite (buf items : List α) :
    (overwrite buf items).take items.length = items := by
  rw [overwrite, List.take_left]

/-- A copy that fills the buffer leaves nothing of it. -/
theorem overwrite_eq_items {buf items : List α}
    (h : buf.length ≤ items.length) : overwrite buf items = items := by
  rw [overwrite, List.drop_of_length_le h, List.append_nil]

theorem drop_overwrite {buf items : List α} {n : ℕ} (h : items.length ≤ n) :
    (overwrite buf items).drop n = buf.drop n := by
  rw [overwrite, List.drop_append, List.drop_of_length_le h, List.drop_drop,
    List.nil_append, Nat.add_sub_cancel' h]

theorem overwrite_overwrite {buf items items' : List α}
    (h : items.length ≤ items'.length) :
    overwrite (overwrite buf items) items' = overwrite buf items' := by
  rw [overwrite, drop_overwrite h, overwrite]

end Buffer
