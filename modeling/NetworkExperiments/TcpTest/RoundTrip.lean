import Mathlib.Data.List.Forall2
import NetworkExperiments.Support.Run
import NetworkExperiments.TcpTest.Client
import NetworkExperiments.Visensor.TcpServer

/-!
# Round trip of the TCP frames

`TcpServer::send_data` of the visensor program and the loop of the TCPtest
client are two separately written ends of one format.  When every frame is
sent in full, the client reads back the frames that the server sent, whatever
the byte orders of the two machines, the sizes of their vector objects, and
the segmentation of the stream.

A frame is read from the front of the stream by one iteration of the loop
(`iteration_frame`), which leaves exactly the bytes after it; the stream of all
frames follows by induction.
-/

namespace NetworkExperiments.TcpTest

open Visensor EventSystem

/-- A frame whose `data_id` the client knows and whose payload fits into
`buf`. -/
structure Readable (frame : Frame) : Prop where
  dataId_mem : frame.header.dataId ∈ [100, 101, 102, 103, 10]
  size_le : frame.header.dataSize.toNat ≤ imageSize

instance (frame : Frame) : Decidable (Readable frame) :=
  decidable_of_iff (frame.header.dataId ∈ [100, 101, 102, 103, 10] ∧
      frame.header.dataSize.toNat ≤ imageSize)
    ⟨fun h => ⟨h.1, h.2⟩, fun h => ⟨h.1, h.2⟩⟩

/-- The headers that the loop has read. -/
def headers (output : List Event) : List DataHeader :=
  output.filterMap fun
    | .header header => some header
    | _ => none

/-- The payloads that the loop has read: the length, and `buf` then. -/
def payloads (output : List Event) : List (ℕ × List UInt8) :=
  output.filterMap fun
    | .payload len buf => some (len, buf)
    | _ => none

/-- A payload read back: `buf` starts with it. -/
def PayloadOf (frame : Frame) (result : ℕ × List UInt8) : Prop :=
  result.1 = frame.header.dataSize.toNat ∧
    result.2.take frame.header.dataSize.toNat = frame.payload

/-- The output shows the given frames, in order. -/
structure ReadsBack (frames : List Frame) (output : List Event) : Prop where
  headers_eq : headers output = frames.map Frame.header
  payloads_eq : List.Forall₂ PayloadOf frames (payloads output)

theorem readsBack_nil : ReadsBack [] [] := ⟨rfl, .nil⟩

theorem ReadsBack.append {frames frames' : List Frame}
    {output output' : List Event} (h : ReadsBack frames output)
    (h' : ReadsBack frames' output') :
    ReadsBack (frames ++ frames') (output ++ output') := by
  constructor
  · rw [headers, List.filterMap_append, List.map_append]
    exact congrArg₂ (· ++ ·) h.headers_eq h'.headers_eq
  · rw [payloads, List.filterMap_append]
    exact List.rel_append h.payloads_eq h'.payloads_eq

/-! ## Reading one frame -/

theorem readPayload_frame {st : State} {frame : Frame} {rest : List UInt8}
    (hsize : frame.header.dataSize.toNat ≤ imageSize)
    (hstream : st.connection.segments.flatten = frame.payload ++ rest) :
    PayloadOf frame
        ((readPayload st frame.header.dataSize).1,
          (readPayload st frame.header.dataSize).2.buf) ∧
      (readPayload st frame.header.dataSize).2.connection.segments.flatten =
        rest ∧
      (readPayload st frame.header.dataSize).2.connection.ending =
        st.connection.ending := by
  have hclamp : min frame.payload.length imageSize =
      frame.payload.length := by
    rw [frame.size_eq, Nat.min_eq_left hsize]
  have hbytes : (st.connection.read frame.payload.length).1 =
      frame.payload := by
    rw [Connection.read_bytes, hstream, List.take_left]
  simp only [readPayload, PayloadOf, ← frame.size_eq, hclamp, hbytes,
    Buffer.take_overwrite, Connection.read_rest, hstream, List.drop_left,
    Connection.read_ending, and_self]

/-- What the loop does with a frame after its header. -/
theorem handleFrame_frame {st : State} {frame : Frame} {rest : List UInt8}
    (hframe : Readable frame)
    (hstream : st.connection.segments.flatten = frame.payload ++ rest) :
    ReadsBack [frame]
        (.header frame.header :: (handleFrame st frame.header).1) ∧
      (handleFrame st frame.header).2.connection.segments.flatten = rest ∧
      (handleFrame st frame.header).2.connection.ending =
        st.connection.ending := by
  obtain ⟨hpayload, hrest⟩ := readPayload_frame hframe.size_le hstream
  by_cases hcamera : frame.header.dataId = 100
  · rw [handleFrame, if_pos hcamera]
    exact ⟨⟨rfl, .cons hpayload .nil⟩, hrest⟩
  · have hid : frame.header.dataId = 101 ∨ frame.header.dataId = 102 ∨
        frame.header.dataId = 103 ∨ frame.header.dataId = 10 := by
      simpa [hcamera] using hframe.dataId_mem
    rw [handleFrame, if_neg hcamera, if_pos hid]
    exact ⟨⟨rfl, .cons hpayload .nil⟩, hrest⟩

/-- The header of the frame at the front of the stream is read, and its payload
is next. -/
theorem readHeader_frame (host : Host) {st : State} {frame : Frame}
    {rest : List UInt8}
    (hstream : st.connection.segments.flatten = frame.wireBytes ++ rest) :
    12 ≤ st.connection.remaining ∧ st.nextHeader host = frame.header ∧
      st.afterHeader.connection.segments.flatten = frame.payload ++ rest := by
  refine ⟨?_, ?_, ?_⟩
  · rw [Connection.remaining, hstream, List.length_append,
      Frame.length_wireBytes]
    omega
  · rw [State.nextHeader, hstream, Frame.wireBytes, List.append_assoc,
      ← frame.header.length_wireBytes, List.take_left,
      DataHeader.ofMemory_wireBytes]
  · rw [State.afterHeader, Connection.read_rest, hstream, Frame.wireBytes,
      List.append_assoc, ← frame.header.length_wireBytes, List.drop_left]

/-- One iteration reads the frame at the front of the stream. -/
theorem iteration_frame (host : Host) {st : State} {frame : Frame}
    {rest : List UInt8} (hframe : Readable frame)
    (hstream : st.connection.segments.flatten = frame.wireBytes ++ rest) :
    ∃ output st', iteration host st = (output, .continues, st') ∧
      ReadsBack [frame] output ∧
      st'.connection.segments.flatten = rest ∧
      st'.connection.ending = st.connection.ending := by
  obtain ⟨henough, hheader, hpayload⟩ := readHeader_frame host hstream
  obtain ⟨houtput, hafter, hending⟩ := handleFrame_frame hframe hpayload
  refine ⟨_, _, iteration_of_le host henough, ?_, ?_, ?_⟩
  · rw [hheader]
    exact houtput
  · rw [hheader]
    exact hafter
  · rw [hheader]
    exact hending

/-! ## Reading the whole stream -/

/-- How the loop is left when the stream ends before a header. -/
def verdictOf : StreamEnd → Verdict
  | .eof => .closed
  | .failure => .threw

/-- At the end of the stream the loop stops and prints nothing. -/
theorem loop_exhausted (host : Host) {st : State}
    (hstream : st.connection.segments.flatten = []) :
    (loop host st).1 = [] ∧
      (loop host st).2.1 = verdictOf st.connection.ending ∧
      (loop host st).2.2.connection.remaining = 0 := by
  have hshort : st.connection.remaining < 12 := by
    simp [Connection.remaining, hstream]
  have herror : (st.connection.read 12).2.1 = some st.connection.ending := by
    rw [Connection.read_error, if_pos hshort]
  have hremaining : (st.connection.read 12).2.2.remaining = 0 := by
    rw [Connection.read_remaining]
    omega
  have hiteration : iteration host st =
      ([], verdictOf st.connection.ending,
        { st with connection := (st.connection.read 12).2.2 }) := by
    cases hending : st.connection.ending <;>
      simp only [iteration, min_sizeofVector, herror, hending, verdictOf]
  have hstop : verdictOf st.connection.ending ≠ .continues := by
    cases st.connection.ending <;> decide
  rw [loop_of_stops host hiteration hstop]
  exact ⟨rfl, rfl, hremaining⟩

/-- The loop reads back a stream of complete frames, to its end. -/
theorem loop_frames (host : Host) {frames : List Frame}
    (hframes : ∀ frame ∈ frames, Readable frame) {st : State}
    (hstream : st.connection.segments.flatten =
      frames.flatMap Frame.wireBytes) :
    ReadsBack frames (loop host st).1 ∧
      (loop host st).2.1 = verdictOf st.connection.ending ∧
      (loop host st).2.2.connection.remaining = 0 := by
  induction frames generalizing st with
  | nil =>
      obtain ⟨houtput, hend⟩ := loop_exhausted host hstream
      rw [houtput]
      exact ⟨readsBack_nil, hend⟩
  | cons frame frames ih =>
      obtain ⟨output, st', hiteration, houtput, hrest, hending⟩ :=
        iteration_frame host (hframes frame List.mem_cons_self) hstream
      obtain ⟨hrestOutput, hend⟩ :=
        ih (fun f hf => hframes f (List.mem_cons_of_mem _ hf)) hrest
      rw [loop_of_continues host hiteration, ← hending]
      exact ⟨houtput.append hrestOutput, hend⟩

/-! ## Sending the stream -/

/-- A client connects and every frame is sent to it in full. -/
def sendAll (frames : List Frame) : List TcpServer.Event :=
  .acceptSucceeds true :: frames.map fun frame =>
    .sendData frame (.accepted (12 + frame.header.dataSize.toNat))

theorem run_sends (host : Host) (frames : List Frame) (bytes : List UInt8) :
    run (TcpServer.step host) ⟨true, .connected bytes, 0, false⟩
        (frames.map fun frame =>
          .sendData frame (.accepted (12 + frame.header.dataSize.toNat))) =
      some ⟨true, .connected (bytes ++ frames.flatMap Frame.wireBytes), 0,
        false⟩ := by
  induction frames generalizing bytes with
  | nil => simp
  | cons frame frames ih =>
      have hstep : TcpServer.step host ⟨true, .connected bytes, 0, false⟩
          (.sendData frame (.accepted (12 + frame.header.dataSize.toNat))) =
          some ⟨true, .connected (bytes ++ frame.wireBytes), 0, false⟩ := by
        have htake : frame.wireBytes.take
            (12 + frame.header.dataSize.toNat) = frame.wireBytes := by
          rw [← frame.length_wireBytes, List.take_length]
        simp [TcpServer.step, TcpServer.SendResult.Possible,
          TcpServer.sendData, TcpServer.buffers_frame, htake]
      rw [List.map_cons, run_cons, hstep, Option.bind_some, ih,
        List.flatMap_cons, List.append_assoc]

theorem run_sendAll (host : Host) (frames : List Frame) :
    run (TcpServer.step host) TcpServer.init (sendAll frames) =
      some ⟨true, .connected (frames.flatMap Frame.wireBytes), 0, false⟩ := by
  have hconnect : TcpServer.step host TcpServer.init (.acceptSucceeds true) =
      some ⟨true, .connected [], 0, false⟩ := rfl
  rw [sendAll, run_cons, hconnect, Option.bind_some, run_sends,
    List.nil_append]

/-- The client reads back the frames that the server has sent in full: the
loop shows the same headers and payloads, leaves no byte of the stream, and
ends as the connection does. -/
theorem frames_roundtrip (server client : Host) (frames : List Frame)
    (hframes : ∀ frame ∈ frames, Readable frame) :
    ∃ s accepted,
      run (TcpServer.step server) TcpServer.init (sendAll frames) = some s ∧
      s.socket = .connected accepted ∧
      ∀ segments ending buf, segments.flatten = accepted →
        let result := loop client ⟨⟨segments, ending⟩, buf⟩
        ReadsBack frames result.1 ∧ result.2.1 = verdictOf ending ∧
          result.2.2.connection.remaining = 0 := by
  refine ⟨_, _, run_sendAll server frames, rfl, ?_⟩
  intro segments ending buf hsegments
  exact loop_frames client hframes hsegments

/-- An empty frame and one with a byte of payload, from a camera and from the
configuration. -/
def twoFrames : List Frame :=
  [{ header := ⟨1, 0, 10⟩, payload := [], size_eq := by decide },
    { header := ⟨2, 1, 100⟩, payload := [7], size_eq := by decide }]

theorem twoFrames_roundtrip :
    ∃ s accepted,
      run (TcpServer.step TcpServer.littleHost) TcpServer.init
        (sendAll twoFrames) = some s ∧
      s.socket = .connected accepted ∧
      ∀ segments ending buf, segments.flatten = accepted →
        let result := loop ⟨.big, 12, by decide⟩ ⟨⟨segments, ending⟩, buf⟩
        ReadsBack twoFrames result.1 ∧ result.2.1 = verdictOf ending ∧
          result.2.2.connection.remaining = 0 :=
  frames_roundtrip TcpServer.littleHost ⟨.big, 12, by decide⟩ twoFrames
    (by decide)

end NetworkExperiments.TcpTest
