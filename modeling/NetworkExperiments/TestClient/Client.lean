import NetworkExperiments.Support.Buffer
import NetworkExperiments.Support.ByteOrder

/-!
# The test client

This file models the loop of `test_client/client.cpp`, which receives the
datagrams of two cameras and copies their data into one image for each camera.
The camera and package numbers and the length of the copy come from the
datagram.  An access outside of the arrays has no defined result.
-/

namespace NetworkExperiments.TestClient

/-- `IMAGE_SIZE`. -/
def imageSize : ℕ := 360960

inductive ReceiveError
  | eof
  | failure
  deriving DecidableEq, Repr

/-- A result of `receive_from`: the bytes received, none of them if there is an
error. -/
structure Received where
  bytes : List UInt8
  error : Option ReceiveError
  deriving DecidableEq, Repr

/-- The variables of `main`: the images and package counters of the two
cameras, and the receive buffer of 1600 bytes. -/
structure State where
  image : Fin 2 → List UInt8
  counter : Fin 2 → ℤ
  buf : List UInt8

/-- What the loop prints.  `complete` has the image that is complete then. -/
inductive Event
  | complete (cam : Fin 2) (package : ℤ) (image : List UInt8)
  | packagesLost (counter package : ℤ)
  deriving DecidableEq, Repr

inductive Verdict
  | continues
  | closed
  | threw
  deriving DecidableEq, Repr

/-- An index into the arrays of two elements. -/
def camIndex (x : ℤ) : Option (Fin 2) :=
  if x = 0 then some 0 else if x = 1 then some 1 else none

/-- `memcpy(image, buf + 8, len - 8)`, within both arrays. -/
def copyData (image buf : List UInt8) (len : ℕ) : Option (List UInt8) :=
  if 8 ≤ len ∧ len ≤ buf.length ∧ len - 8 ≤ image.length then
    some (Buffer.overwrite image ((buf.drop 8).take (len - 8)))
  else none

/-- The test for the last package of an image, and what is printed and
counted. -/
def countPackage (st : State) (cam : Fin 2) (package : ℤ) :
    List Event × State :=
  if package ≥ 240 then
    (.complete cam package (st.image cam) ::
        (if st.counter cam ≠ package then
          [.packagesLost (st.counter cam) package]
        else []),
      { st with counter := Function.update st.counter cam 0 })
  else
    ([], { st with
      counter :=
        Function.update st.counter cam (CInt.toInt (st.counter cam + 1)) })

/-- How an iteration ends. -/
def verdict : Option ReceiveError → Verdict
  | none => .continues
  | some .eof => .closed
  | some .failure => .threw

/-- One iteration of the loop, on a machine of the given byte order. -/
def iteration (order : ByteOrder) (st : State) (r : Received) :
    Option (List Event × Verdict × State) :=
  let buf := Buffer.overwrite st.buf r.bytes
  let package := order.loadInt ((buf.drop 4).take 4)
  (camIndex (order.loadInt (buf.take 4))).bind fun cam =>
    (copyData (st.image cam) buf r.bytes.length).map fun image =>
      let result := countPackage
        { st with image := Function.update st.image cam image, buf := buf }
        cam package
      (result.1, verdict r.error, result.2)

/-- The loop, over the results of `receive_from`. -/
def loop (order : ByteOrder) : State → List Received →
    Option (List Event × State)
  | st, [] => some ([], st)
  | st, r :: rs =>
      (iteration order st r).bind fun result =>
        match result.2.1 with
        | .continues =>
            (loop order result.2.2 rs).map fun rest =>
              (result.1 ++ rest.1, rest.2)
        | .closed | .threw => some (result.1, result.2.2)

/-- A datagram that has been received without an error. -/
def received (bytes : List UInt8) : Received :=
  { bytes := bytes, error := none }

theorem loop_received {order : ByteOrder} {st st' : State}
    {bytes : List UInt8} {events : List Event} {rs : List Received}
    (h : iteration order st (received bytes) =
      some (events, .continues, st')) :
    loop order st (received bytes :: rs) =
      (loop order st' rs).map fun rest => (events ++ rest.1, rest.2) := by
  rw [loop, h, Option.bind_some]

/-- A datagram whose processing is undefined in every state makes the loop
undefined. -/
theorem loop_eq_none {order : ByteOrder} {bytes : List UInt8}
    (hbytes : ∀ st, iteration order st (received bytes) = none)
    {datagrams : List (List UInt8)} (hmem : bytes ∈ datagrams) (st : State) :
    loop order st (datagrams.map received) = none := by
  induction datagrams generalizing st with
  | nil => exact absurd hmem List.not_mem_nil
  | cons d datagrams ih =>
      rw [List.map_cons, loop]
      rcases List.mem_cons.mp hmem with rfl | hrest
      · rw [hbytes st, Option.bind_none]
      · cases hiteration : iteration order st (received d) with
        | none => rfl
        | some result =>
            have hverdict : result.2.1 = .continues := by
              simp only [iteration, Option.bind_eq_some_iff,
                Option.map_eq_some_iff] at hiteration
              obtain ⟨cam, -, image, -, rfl⟩ := hiteration
              rfl
            rw [Option.bind_some, hverdict]
            simp only [ih hrest, Option.map_none]

end NetworkExperiments.TestClient
