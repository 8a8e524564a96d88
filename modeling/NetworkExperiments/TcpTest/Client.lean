import NetworkExperiments.Support.Buffer
import NetworkExperiments.Support.SegmentedStream
import NetworkExperiments.Visensor.DataHeader

/-!
# The TCPtest client

This file models the loop of `TCPtest/client.cpp`.  Each iteration reads a
header and, for a known `data_id`, a payload into the array `buf`, which is
reused by all iterations; a payload of camera 0 is shown as an image.  The
connection delivers a finite stream in arbitrary segments and then ends or
fails.  The loop ends with the header that cannot be read completely.
-/

namespace NetworkExperiments.TcpTest

open Visensor

/-- `IMAGE_SIZE`, the size of `buf`. -/
def imageSize : ℕ := 360960

/-- What `boost::asio::read` reports when no more bytes arrive: the peer has
closed the connection, or another error. -/
inductive StreamEnd
  | eof
  | failure
  deriving DecidableEq, Repr

/-- The bytes that arrive on the socket, in segments, and how they end. -/
structure Connection where
  segments : List (List UInt8)
  ending : StreamEnd

/-- `boost::asio::read` into a buffer of `n` bytes: the bytes read, the error
if the buffer is not full, and the connection afterwards. -/
def Connection.read (connection : Connection) (n : ℕ) :
    List UInt8 × Option StreamEnd × Connection :=
  let result := SegmentedStream.read n connection.segments
  (result.1,
    if result.1.length < n then some connection.ending else none,
    { connection with segments := result.2 })

/-- The number of bytes that have not been read yet. -/
def Connection.remaining (connection : Connection) : ℕ :=
  connection.segments.flatten.length

/-- The state of the loop.  `buf` has `imageSize` bytes. -/
structure State where
  connection : Connection
  buf : List UInt8

/-- What the loop prints or shows. -/
inductive Event
  | header (header : DataHeader)
  | payload (len : ℕ) (buf : List UInt8)
  | imshow (image : List UInt8)
  | unknownId (dataId : UInt32)
  deriving DecidableEq, Repr

/-- How an iteration ends: the loop goes on, is left because the connection
was closed, or is left by an exception. -/
inductive Verdict
  | continues
  | closed
  | threw
  deriving DecidableEq, Repr

/-- `convertImage`: an image of 752 by 480 pixels over `buf`. -/
def convertImage (buf : List UInt8) : List UInt8 :=
  buf.take (752 * 480)

/-- Read a payload of the announced size into `buf`; the buffer made from the
array covers at most the array.  The error of this read is not looked at. -/
def readPayload (st : State) (dataSize : UInt32) : ℕ × State :=
  let result := st.connection.read (min dataSize.toNat imageSize)
  (result.1.length,
    { connection := result.2.2, buf := Buffer.overwrite st.buf result.1 })

/-- The `switch` over `data_id`. -/
def handleFrame (st : State) (header : DataHeader) : List Event × State :=
  if header.dataId = 100 then
    let result := readPayload st header.dataSize
    ([.payload result.1 result.2.buf, .imshow (convertImage result.2.buf)],
      result.2)
  else if header.dataId = 101 ∨ header.dataId = 102 ∨ header.dataId = 103 ∨
      header.dataId = 10 then
    let result := readPayload st header.dataSize
    ([.payload result.1 result.2.buf], result.2)
  else
    ([.unknownId header.dataId], st)

/-- One iteration of the loop: what it prints, how it ends and the state after
it.  The buffer for the header covers at most the three words of
`header_payload`. -/
def iteration (host : Host) (st : State) : List Event × Verdict × State :=
  let result := st.connection.read (min host.sizeofVector 12)
  match result.2.1 with
  | some .eof => ([], .closed, { st with connection := result.2.2 })
  | some .failure => ([], .threw, { st with connection := result.2.2 })
  | none =>
      let header := DataHeader.ofMemory host
        (Buffer.overwrite (List.replicate 12 0) result.1)
      let frame := handleFrame { st with connection := result.2.2 } header
      (.header header :: frame.1, .continues, frame.2)

/-! ## Reads depend on the bytes only -/

theorem Connection.read_bytes (connection : Connection) (n : ℕ) :
    (connection.read n).1 = connection.segments.flatten.take n :=
  SegmentedStream.read_fst n connection.segments

theorem Connection.read_rest (connection : Connection) (n : ℕ) :
    (connection.read n).2.2.segments.flatten =
      connection.segments.flatten.drop n :=
  SegmentedStream.read_snd n connection.segments

theorem Connection.read_ending (connection : Connection) (n : ℕ) :
    (connection.read n).2.2.ending = connection.ending := rfl

/-- A read fails exactly when fewer bytes are left than it asks for. -/
theorem Connection.read_error (connection : Connection) (n : ℕ) :
    (connection.read n).2.1 =
      if connection.remaining < n then some connection.ending else none := by
  have hlength : (connection.read n).1.length = min n connection.remaining := by
    rw [connection.read_bytes, List.length_take, remaining]
  have hiff : (connection.read n).1.length < n ↔ connection.remaining < n := by
    omega
  change (if (connection.read n).1.length < n then some connection.ending
    else none) = _
  simp only [hiff]

theorem Connection.read_remaining (connection : Connection) (n : ℕ) :
    (connection.read n).2.2.remaining = connection.remaining - n := by
  rw [remaining, connection.read_rest, List.length_drop, remaining]

theorem handleFrame_remaining_le (st : State) (header : DataHeader) :
    (handleFrame st header).2.connection.remaining ≤
      st.connection.remaining := by
  unfold handleFrame
  split
  · simp only [readPayload, Connection.read_remaining]
    omega
  · split
    · simp only [readPayload, Connection.read_remaining]
      omega
    · exact Nat.le_refl _

theorem min_sizeofVector (host : Host) : min host.sizeofVector 12 = 12 :=
  Nat.min_eq_right host.sizeofVector_ge

theorem iteration_remaining_lt (host : Host) {st st' : State}
    {events : List Event}
    (h : iteration host st = (events, .continues, st')) :
    st'.connection.remaining < st.connection.remaining := by
  simp only [iteration, min_sizeofVector, Connection.read_error] at h
  split at h
  · simp at h
  · simp at h
  · next hread =>
      have henough : ¬ st.connection.remaining < 12 := by
        intro hlt
        simp [hlt] at hread
      simp only [Prod.mk.injEq, true_and] at h
      rw [← h.2]
      refine lt_of_le_of_lt (handleFrame_remaining_le _ _) ?_
      simp only [Connection.read_remaining]
      omega

/-- The loop: everything that it prints, how it is left and the state then. -/
def loop (host : Host) (st : State) : List Event × Verdict × State :=
  match h : iteration host st with
  | (events, .continues, st') =>
      have := iteration_remaining_lt host h
      let rest := loop host st'
      (events ++ rest.1, rest.2)
  | (events, .closed, st') => (events, .closed, st')
  | (events, .threw, st') => (events, .threw, st')
termination_by st.connection.remaining

theorem loop_of_continues (host : Host) {st st' : State} {events : List Event}
    (h : iteration host st = (events, .continues, st')) :
    loop host st = (events ++ (loop host st').1, (loop host st').2) := by
  rw [loop]
  split
  · next heq =>
      rw [h] at heq
      cases heq
      rfl
  · next heq =>
      rw [h] at heq
      cases heq
  · next heq =>
      rw [h] at heq
      cases heq

theorem loop_of_stops (host : Host) {st st' : State} {events : List Event}
    {verdict : Verdict} (h : iteration host st = (events, verdict, st'))
    (hstop : verdict ≠ .continues) :
    loop host st = (events, verdict, st') := by
  rw [loop]
  split
  · next heq =>
      rw [h] at heq
      cases heq
      exact absurd rfl hstop
  · next heq =>
      rw [h] at heq
      cases heq
      rfl
  · next heq =>
      rw [h] at heq
      cases heq
      rfl

/-! ## The iterations of the loop -/

/-- The header at the front of the unread bytes. -/
def State.nextHeader (host : Host) (st : State) : DataHeader :=
  DataHeader.ofMemory host (st.connection.segments.flatten.take 12)

/-- The state when a header has been read. -/
def State.afterHeader (st : State) : State :=
  { st with connection := (st.connection.read 12).2.2 }

theorem iteration_of_le (host : Host) {st : State}
    (h : 12 ≤ st.connection.remaining) :
    iteration host st =
      (.header (st.nextHeader host) ::
          (handleFrame st.afterHeader (st.nextHeader host)).1,
        .continues,
        (handleFrame st.afterHeader (st.nextHeader host)).2) := by
  have herror : (st.connection.read 12).2.1 = none := by
    rw [Connection.read_error, if_neg (Nat.not_lt.mpr h)]
  have hbytes : Buffer.overwrite (List.replicate 12 0)
      (st.connection.read 12).1 = st.connection.segments.flatten.take 12 := by
    have hlength : (st.connection.segments.flatten.take 12).length = 12 := by
      rw [List.length_take]
      exact Nat.min_eq_left h
    rw [Connection.read_bytes]
    apply Buffer.overwrite_eq_items
    rw [List.length_replicate, hlength]
  simp only [iteration, min_sizeofVector, herror, hbytes]
  rfl

/-- An iteration without a whole header ends the loop and prints nothing. -/
theorem iteration_of_lt (host : Host) {st : State}
    (h : st.connection.remaining < 12) :
    ∃ verdict, verdict ≠ .continues ∧
      iteration host st = ([], verdict, st.afterHeader) := by
  have herror : (st.connection.read 12).2.1 = some st.connection.ending := by
    rw [Connection.read_error, if_pos h]
  cases hending : st.connection.ending with
  | eof =>
      refine ⟨.closed, by decide, ?_⟩
      simp only [iteration, min_sizeofVector, herror, hending]
      rfl
  | failure =>
      refine ⟨.threw, by decide, ?_⟩
      simp only [iteration, min_sizeofVector, herror, hending]
      rfl

/-- The states in which the loop reads a header. -/
def heads (host : Host) (st : State) : List State :=
  match h : iteration host st with
  | (_, .continues, st') =>
      have := iteration_remaining_lt host h
      st :: heads host st'
  | _ => []
termination_by st.connection.remaining

theorem heads_of_le (host : Host) {st : State}
    (h : 12 ≤ st.connection.remaining) :
    heads host st =
      st :: heads host (handleFrame st.afterHeader (st.nextHeader host)).2 := by
  have hiteration := iteration_of_le host h
  rw [heads]
  split
  · next heq =>
      rw [hiteration] at heq
      cases heq
      rfl
  · next hne => exact absurd hiteration (hne _ _)

theorem heads_of_lt (host : Host) {st : State}
    (h : st.connection.remaining < 12) : heads host st = [] := by
  obtain ⟨verdict, hstop, hiteration⟩ := iteration_of_lt host h
  rw [heads]
  split
  · next heq =>
      rw [hiteration] at heq
      cases heq
      exact absurd rfl hstop
  · rfl

/-- Induction along the loop: from the state after an iteration to the state
before it. -/
theorem loop_induction (host : Host) {motive : State → Prop}
    (stops : ∀ st, st.connection.remaining < 12 → motive st)
    (continues : ∀ st, 12 ≤ st.connection.remaining →
      motive (handleFrame st.afterHeader (st.nextHeader host)).2 → motive st)
    (st : State) : motive st := by
  induction hn : st.connection.remaining using Nat.strong_induction_on
    generalizing st with
  | _ n ih =>
      subst hn
      by_cases h : 12 ≤ st.connection.remaining
      · have hlt := iteration_remaining_lt host (iteration_of_le host h)
        exact continues st h (ih _ hlt _ rfl)
      · exact stops st (Nat.not_le.mp h)

theorem loop_output (host : Host) (st : State) :
    (loop host st).1 = (heads host st).flatMap fun s =>
      (iteration host s).1 := by
  induction st using loop_induction host with
  | stops st h =>
      obtain ⟨verdict, hstop, hiteration⟩ := iteration_of_lt host h
      rw [heads_of_lt host h, loop_of_stops host hiteration hstop]
      rfl
  | continues st h ih =>
      have hiteration := iteration_of_le host h
      rw [heads_of_le host h, loop_of_continues host hiteration, ih,
        List.flatMap_cons, hiteration]

theorem remaining_of_mem_heads (host : Host) {st s : State}
    (hs : s ∈ heads host st) : 12 ≤ s.connection.remaining := by
  induction st using loop_induction host with
  | stops st h =>
      rw [heads_of_lt host h] at hs
      exact absurd hs List.not_mem_nil
  | continues st h ih =>
      rw [heads_of_le host h] at hs
      rcases List.mem_cons.mp hs with rfl | hs
      · exact h
      · exact ih hs

/-! ## The array of the loop -/

/-- A payload never reaches behind the end of `buf`. -/
theorem length_buf_readPayload {st : State} (h : st.buf.length = imageSize)
    (dataSize : UInt32) :
    (readPayload st dataSize).1 ≤ imageSize ∧
      (readPayload st dataSize).2.buf.length = imageSize := by
  have hlength :
      (st.connection.read (min dataSize.toNat imageSize)).1.length ≤
        imageSize := by
    rw [Connection.read_bytes, List.length_take]
    omega
  refine ⟨hlength, ?_⟩
  rw [readPayload, Buffer.length_overwrite (h ▸ hlength), h]

theorem length_buf_handleFrame {st : State} (h : st.buf.length = imageSize)
    (header : DataHeader) :
    (handleFrame st header).2.buf.length = imageSize := by
  unfold handleFrame
  split
  · exact (length_buf_readPayload h header.dataSize).2
  · split
    · exact (length_buf_readPayload h header.dataSize).2
    · exact h

theorem length_buf_of_mem_heads (host : Host) {st s : State}
    (hbuf : st.buf.length = imageSize) (hs : s ∈ heads host st) :
    s.buf.length = imageSize := by
  induction st using loop_induction host with
  | stops st h =>
      rw [heads_of_lt host h] at hs
      exact absurd hs List.not_mem_nil
  | continues st h ih =>
      rw [heads_of_le host h] at hs
      rcases List.mem_cons.mp hs with rfl | hs
      · exact hbuf
      · have hafter : st.afterHeader.buf.length = imageSize := hbuf
        exact ih (length_buf_handleFrame hafter _) hs

end NetworkExperiments.TcpTest
