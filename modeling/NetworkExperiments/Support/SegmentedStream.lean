import Mathlib.Data.List.Basic

/-!
# Reading from a segmented stream

A stream arrives in segments of any lengths.  `read n` takes items until it
has `n` of them or the stream is exhausted, however many segments that needs.
The two specification lemmas say that it returns the first `n` items of the
whole stream and leaves the others, so that nothing depends on the
segmentation.
-/

namespace SegmentedStream

variable {α : Type*}

/-- Read up to `n` items, and return them with the remaining segments. -/
def read : ℕ → List (List α) → List α × List (List α)
  | _, [] => ([], [])
  | n, segment :: segments =>
      if n ≤ segment.length then
        (segment.take n, segment.drop n :: segments)
      else
        let rest := read (n - segment.length) segments
        (segment ++ rest.1, rest.2)

theorem read_fst (n : ℕ) (segments : List (List α)) :
    (read n segments).1 = segments.flatten.take n := by
  induction segments generalizing n with
  | nil => simp [read]
  | cons segment segments ih =>
      simp only [read, List.flatten_cons]
      split
      · next hle => rw [List.take_append_of_le_length hle]
      · next hgt =>
          have hsegment : segment.take n = segment :=
            List.take_of_length_le (by omega)
          simp only [ih, List.take_append, hsegment]

theorem read_snd (n : ℕ) (segments : List (List α)) :
    (read n segments).2.flatten = segments.flatten.drop n := by
  induction segments generalizing n with
  | nil => simp [read]
  | cons segment segments ih =>
      simp only [read, List.flatten_cons]
      split
      · next hle => rw [List.flatten_cons, List.drop_append_of_le_length hle]
      · next hgt =>
          have hsegment : segment.drop n = [] :=
            List.drop_of_length_le (by omega)
          simp only [ih, List.drop_append, hsegment, List.nil_append]

end SegmentedStream
