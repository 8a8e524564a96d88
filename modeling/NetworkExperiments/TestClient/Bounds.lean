import NetworkExperiments.Support.Run
import NetworkExperiments.TestClient.ImageTransfer

/-!
# The accesses of the test client

The client takes the index of its arrays from the first bytes of a datagram, and
the length of the copy from that of the datagram, and checks neither.  A result
of `receive_from` is readable when both are in bounds.  The client stays in
bounds exactly as long as it gets readable results; an error is not one, since
the buffer is used before the error is looked at.
-/

namespace NetworkExperiments.TestClient

open EventSystem ImageTransfer

namespace Bounds

/-- A result of `receive_from` for a buffer of 1600 bytes. -/
structure Possible (r : Received) : Prop where
  length_le : r.bytes.length ≤ 1600
  error_nil : r.error ≠ none → r.bytes = []

/-- The arrays of `main` have their sizes. -/
structure Arrays (st : State) : Prop where
  length_image : ∀ c, (st.image c).length = imageSize
  length_buf : st.buf.length = 1600

/-- A step of the loop, which goes on as long as there is no error. -/
def step (order : ByteOrder) (st : State) (r : Received) : Option State :=
  (iteration order st r).bind fun result =>
    if result.2.1 = .continues then some result.2.2 else none

/-- There are a camera number, which is 0 or 1, and a package number, and the
data fit into an image. -/
structure Readable (order : ByteOrder) (r : Received) : Prop where
  len_ge : 8 ≤ r.bytes.length
  data_le : r.bytes.length - 8 ≤ imageSize
  camNumber_eq : order.loadInt (r.bytes.take 4) = 0 ∨
    order.loadInt (r.bytes.take 4) = 1

/-- All accesses of the iteration are inside of the arrays, so that it has a
result, and a result of `receive_from` that is not readable leaves the images
and counters as they are. -/
structure Handled (order : ByteOrder) (st : State) (r : Received) : Prop where
  inside : ∃ result, iteration order st r = some result
  unchanged : ¬ Readable order r →
    ∀ result, iteration order st r = some result →
      result.2.2.image = st.image ∧ result.2.2.counter = st.counter

/-! ## One iteration -/

theorem camIndex_of_eq {x : ℤ} (h : x = 0 ∨ x = 1) :
    ∃ cam, camIndex x = some cam := by
  rcases h with rfl | rfl
  · exact ⟨0, rfl⟩
  · exact ⟨1, rfl⟩

theorem eq_of_camIndex {x : ℤ} {cam : Fin 2} (h : camIndex x = some cam) :
    x = 0 ∨ x = 1 := by
  unfold camIndex at h
  split at h
  · next hzero => exact Or.inl hzero
  · split at h
    · next hone => exact Or.inr hone
    · cases h

theorem take_overwrite (buf : List UInt8) {bytes : List UInt8} {n : ℕ}
    (h : n ≤ bytes.length) :
    (Buffer.overwrite buf bytes).take n = bytes.take n := by
  rw [Buffer.overwrite, List.take_append_of_le_length h]

theorem iteration_of_readable {order : ByteOrder} {st : State} {r : Received}
    (harrays : Arrays st) (hlength : r.bytes.length ≤ 1600)
    (h : Readable order r) {cam : Fin 2}
    (hcam : camIndex (order.loadInt (r.bytes.take 4)) = some cam) :
    ∃ image buf, image.length = imageSize ∧ buf.length = 1600 ∧
      iteration order st r =
        let st' : State :=
          { st with image := Function.update st.image cam image, buf := buf }
        let result := countPackage st' cam
          (order.loadInt ((r.bytes.drop 4).take 4))
        some (result.1, verdict r.error, result.2) := by
  have hlen := h.len_ge
  have hbuf : (Buffer.overwrite st.buf r.bytes).length = 1600 := by
    rw [Buffer.length_overwrite, harrays.length_buf]
    rw [harrays.length_buf]
    exact hlength
  have hbounds : 8 ≤ r.bytes.length ∧
      r.bytes.length ≤ (Buffer.overwrite st.buf r.bytes).length ∧
      r.bytes.length - 8 ≤ (st.image cam).length := by
    rw [hbuf, harrays.length_image cam]
    have hfits : 1592 ≤ imageSize := by decide
    omega
  have hpackage : ((Buffer.overwrite st.buf r.bytes).drop 4).take 4 =
      (r.bytes.drop 4).take 4 := by
    rw [List.take_drop, List.take_drop, take_overwrite st.buf hlen]
  refine ⟨Buffer.overwrite (st.image cam)
    (((Buffer.overwrite st.buf r.bytes).drop 8).take (r.bytes.length - 8)),
    Buffer.overwrite st.buf r.bytes, ?_, hbuf, ?_⟩
  · rw [Buffer.length_overwrite, harrays.length_image cam]
    rw [List.length_take]
    omega
  · rw [iteration, take_overwrite st.buf (Nat.le_trans (by decide) hlen), hcam,
      Option.bind_some, copyData, if_pos hbounds, Option.map_some, hpackage]

theorem arrays_countPackage {st : State} (h : Arrays st) (cam : Fin 2)
    (package : ℤ) : Arrays (countPackage st cam package).2 := by
  rw [countPackage]
  split <;> exact ⟨h.length_image, h.length_buf⟩

theorem arrays_update {st : State} (h : Arrays st) (cam : Fin 2)
    {image buf : List UInt8} (himage : image.length = imageSize)
    (hbuf : buf.length = 1600) :
    Arrays { st with
      image := Function.update st.image cam image, buf := buf } := by
  have himages : ∀ c, (Function.update st.image cam image c).length =
      imageSize :=
    (Function.forall_update_iff st.image fun _ bytes =>
      bytes.length = imageSize).mpr ⟨himage, fun c _ => h.length_image c⟩
  exact ⟨himages, hbuf⟩

/-- The copy stays inside of both arrays with the length that the subtraction
gives as a `size_t`, which is huge for less than eight bytes. -/
theorem isSome_copyData_iff {bits : ℕ} {image buf : List UInt8} {len : ℕ}
    (himage : image.length + 8 < 2 ^ bits) (hlen : len < 2 ^ bits) :
    (copyData image buf len).isSome ↔
      CInt.toSize bits ((len : ℤ) - 8) ≤ image.length ∧
        8 + CInt.toSize bits ((len : ℤ) - 8) ≤ buf.length := by
  by_cases h : 8 ≤ len
  · have hcast : ((len : ℤ) - 8) = ((len - 8 : ℕ) : ℤ) := by omega
    rw [hcast, CInt.toSize_natCast (Nat.lt_of_le_of_lt (Nat.sub_le _ _) hlen),
      copyData]
    split <;> simp <;> omega
  · have hcast : ((len : ℤ) - 8) = -((8 - len : ℕ) : ℤ) := by omega
    rw [hcast, CInt.toSize_neg (by omega) (by omega), copyData,
      if_neg fun hbounds => h hbounds.1]
    simp
    omega

/-- An iteration whose accesses are inside of the arrays has got a readable
result. -/
theorem readable_of_iteration {order : ByteOrder} {st : State} {r : Received}
    (hr : Possible r) {result : List Event × Verdict × State}
    (h : iteration order st r = some result) : Readable order r := by
  simp only [iteration, Option.bind_eq_some_iff,
    Option.map_eq_some_iff] at h
  obtain ⟨cam, hcam, image, hcopy, -⟩ := h
  have hlen : 8 ≤ r.bytes.length := by
    rw [copyData, Option.ite_none_right_eq_some] at hcopy
    exact hcopy.1.1
  rw [take_overwrite st.buf (Nat.le_trans (by decide) hlen)] at hcam
  refine ⟨hlen, ?_, eq_of_camIndex hcam⟩
  calc
    r.bytes.length - 8 ≤ r.bytes.length := Nat.sub_le _ _
    _ ≤ 1600 := hr.length_le
    _ ≤ imageSize := by decide

theorem arrays_iteration {order : ByteOrder} {st : State} {r : Received}
    (harrays : Arrays st) (hr : Possible r) (h : Readable order r) :
    ∃ events st', iteration order st r = some (events, verdict r.error, st') ∧
      Arrays st' := by
  obtain ⟨cam, hcam⟩ := camIndex_of_eq h.camNumber_eq
  obtain ⟨image, buf, himage, hbuf, hiteration⟩ :=
    iteration_of_readable harrays hr.length_le h hcam
  exact ⟨_, _, hiteration,
    arrays_countPackage (arrays_update harrays cam himage hbuf) cam _⟩

theorem handled_iff_readable {order : ByteOrder} {st : State}
    (harrays : Arrays st) {r : Received} (hr : Possible r) :
    Handled order st r ↔ Readable order r := by
  constructor
  · intro h
    obtain ⟨result, hresult⟩ := h.inside
    exact readable_of_iteration hr hresult
  · intro h
    obtain ⟨events, st', hiteration, -⟩ := arrays_iteration harrays hr h
    exact ⟨⟨_, hiteration⟩, fun hother => absurd h hother⟩

/-- A readable result is no error, and the loop goes on. -/
theorem step_of_readable {order : ByteOrder} {st : State}
    (harrays : Arrays st) {r : Received} (hr : Possible r)
    (h : Readable order r) :
    ∃ st', step order st r = some st' ∧ Arrays st' := by
  have herror : r.error = none := by
    by_contra herror
    have hlen := h.len_ge
    rw [hr.error_nil herror] at hlen
    exact absurd hlen (by decide)
  obtain ⟨events, st', hiteration, harrays'⟩ := arrays_iteration harrays hr h
  refine ⟨st', ?_, harrays'⟩
  rw [step, hiteration, herror]
  rfl

/-! ## The loop -/

/-- A client that handles all results gets through the loop, or to the error
that ends it. -/
theorem exists_loop {order : ByteOrder} {st : State} {results : List Received}
    (h : EachTurn (step order) (Handled order) st results) :
    ∃ result, loop order st results = some result := by
  induction results generalizing st with
  | nil => exact ⟨_, rfl⟩
  | cons r results ih =>
      obtain ⟨hhandled, hrest⟩ := h
      obtain ⟨⟨events, v, st'⟩, hiteration⟩ := hhandled.inside
      rw [loop, hiteration, Option.bind_some]
      cases v with
      | continues =>
          have hstep : step order st r = some st' := by
            rw [step, hiteration]
            rfl
          obtain ⟨rest, hloop⟩ := ih (hrest st' hstep)
          refine ⟨(events ++ rest.1, rest.2), ?_⟩
          simp only [hloop, Option.map_some]
      | closed => exact ⟨_, rfl⟩
      | threw => exact ⟨_, rfl⟩

theorem arrays_blackImages : Arrays blackImages :=
  ⟨start_blackImages.length_image, start_blackImages.length_buf⟩

/-- The client handles a sequence of results within bounds exactly when they
are all readable. -/
theorem eachTurn_handled_iff (order : ByteOrder) {st : State}
    (harrays : Arrays st) {results : List Received}
    (hpossible : ∀ r ∈ results, Possible r) :
    EachTurn (step order) (Handled order) st results ↔
      ∀ r ∈ results, Readable order r := by
  have hiff : ∀ st r, Arrays st → Possible r →
      (Handled order st r ↔ Readable order r) := by
    intro st r hst hr
    exact handled_iff_readable hst hr
  have hstep : ∀ st r, Arrays st → Possible r → Readable order r →
      ∃ st', step order st r = some st' ∧ Arrays st' := by
    intro st r hst hr h
    exact step_of_readable hst hr h
  exact eachTurn_iff_forall hiff hstep harrays hpossible

/-- The first datagram without data. -/
def noData : Received := received (List.replicate 8 0)

theorem eachTurn_handled_noData :
    EachTurn (step .little) (Handled .little) blackImages
      [noData, noData] := by
  have hpossible : Possible noData := ⟨by decide, by decide⟩
  have hall : ∀ r ∈ [noData, noData], Possible r := by
    simp [hpossible]
  refine (eachTurn_handled_iff .little arrays_blackImages hall).mpr ?_
  have hreadable : Readable .little noData :=
    ⟨by decide, by decide, by decide⟩
  simp [hreadable]

/-- An error: eight bytes less than none are copied before it is looked
at. -/
theorem error_copied :
    ¬ ∀ (order : ByteOrder) (st : State) (results : List Received),
      Arrays st → (∀ r ∈ results, Possible r) →
      EachTurn (step order) (Handled order) st results := by
  intro hall
  have hpossible : Possible ⟨[], some .failure⟩ := ⟨by decide, fun _ => rfl⟩
  have hturn := hall .little blackImages [⟨[], some .failure⟩]
    arrays_blackImages (by simp [hpossible])
  obtain ⟨result, hresult⟩ := hturn.1.inside
  exact absurd (readable_of_iteration hpossible hresult).len_ge (by decide)

end Bounds

end NetworkExperiments.TestClient
