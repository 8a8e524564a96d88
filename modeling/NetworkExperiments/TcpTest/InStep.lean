import NetworkExperiments.TcpTest.RoundTrip

/-!
# Staying in step with the stream

The client stays in step with a stream of frames when it reads a header exactly
where a frame begins.  For that an iteration has to read the whole payload that
its header announces.  The `default` branch of the `switch` reads none of it,
and the other branches read no more than `buf` holds; what is left over is then
taken for the next header.
-/

namespace NetworkExperiments.TcpTest

open Visensor

/-- The `data_id`s that have a case in the `switch`. -/
def Known (dataId : UInt32) : Prop :=
  dataId ∈ [100, 101, 102, 103, 10]

instance (dataId : UInt32) : Decidable (Known dataId) :=
  inferInstanceAs (Decidable (_ ∈ _))

/-- How much of the payload the client reads. -/
def consumed (header : DataHeader) : ℕ :=
  if Known header.dataId then min header.dataSize.toNat imageSize else 0

/-- How much of the payload the client leaves in the stream. -/
def leftover (header : DataHeader) : ℕ :=
  header.dataSize.toNat - consumed header

/-- No frame but the last leaves anything in the stream, and the last one less
than a header. -/
def LeavesNothing : List Frame → Prop
  | [] => True
  | [frame] => leftover frame.header < 12
  | frame :: next :: frames =>
      leftover frame.header = 0 ∧ LeavesNothing (next :: frames)

instance decidableLeavesNothing : ∀ frames, Decidable (LeavesNothing frames)
  | [] => isTrue trivial
  | [frame] => inferInstanceAs (Decidable (leftover frame.header < 12))
  | frame :: next :: frames =>
      have := decidableLeavesNothing (next :: frames)
      inferInstanceAs (Decidable (leftover frame.header = 0 ∧ _))

/-- Where the frames begin, as the number of bytes from there to the end of the
stream. -/
def framePositions : List Frame → List ℕ
  | [] => []
  | frame :: frames =>
      ((frame :: frames).flatMap Frame.wireBytes).length ::
        framePositions frames

/-- Where the client reads headers. -/
def headerPositions (host : Host) (st : State) : List ℕ :=
  (heads host st).map fun s => s.connection.remaining

/-- The client reads the headers of the frames, each where its frame begins,
and no others, and never writes outside of `buf`. -/
structure InStep (host : Host) (frames : List Frame) (st : State) : Prop where
  positions_eq : headerPositions host st = framePositions frames
  headers_eq : headers (loop host st).1 = frames.map Frame.header
  buf_intact : ∀ p ∈ payloads (loop host st).1,
    p.1 ≤ imageSize ∧ p.2.length = imageSize

/-! ## One iteration -/

/-- After its header, a frame is read up to what the client leaves of it. -/
theorem handleFrame_rest (st : State) (header : DataHeader) :
    (handleFrame st header).2.connection.segments.flatten =
      st.connection.segments.flatten.drop (consumed header) := by
  by_cases hcamera : header.dataId = 100
  · have hknown : Known header.dataId := by simp [Known, hcamera]
    rw [handleFrame, if_pos hcamera, consumed, if_pos hknown]
    exact Connection.read_rest _ _
  · have hiff : Known header.dataId ↔ header.dataId = 101 ∨
        header.dataId = 102 ∨ header.dataId = 103 ∨ header.dataId = 10 := by
      simp [Known, hcamera]
    by_cases hknown : Known header.dataId
    · rw [handleFrame, if_neg hcamera, if_pos (hiff.mp hknown), consumed,
        if_pos hknown]
      exact Connection.read_rest _ _
    · rw [handleFrame, if_neg hcamera, if_neg (mt hiff.mpr hknown), consumed,
        if_neg hknown]
      rfl

theorem consumed_le (header : DataHeader) :
    consumed header ≤ header.dataSize.toNat := by
  unfold consumed
  split
  · exact Nat.min_le_left _ _
  · exact Nat.zero_le _

/-- The state after the frame at the front of the stream: what the client has
left of it is still there. -/
theorem heads_frame (host : Host) {st : State} {frame : Frame}
    {rest : List UInt8}
    (hstream : st.connection.segments.flatten = frame.wireBytes ++ rest) :
    ∃ st', heads host st = st :: heads host st' ∧
      st.nextHeader host = frame.header ∧
      ∃ bytes, bytes.length = leftover frame.header ∧
        st'.connection.segments.flatten = bytes ++ rest := by
  obtain ⟨henough, hheader, hpayload⟩ := readHeader_frame host hstream
  refine ⟨_, heads_of_le host henough, hheader,
    frame.payload.drop (consumed frame.header), ?_, ?_⟩
  · rw [List.length_drop, frame.size_eq, leftover]
  · rw [hheader, handleFrame_rest, hpayload]
    apply List.drop_append_of_le_length
    rw [frame.size_eq]
    exact consumed_le frame.header

theorem headers_iteration (host : Host) {st : State}
    (h : 12 ≤ st.connection.remaining) :
    headers (iteration host st).1 = [st.nextHeader host] := by
  rw [iteration_of_le host h]
  unfold handleFrame
  split
  · rfl
  · split <;> rfl

theorem headers_loop (host : Host) (st : State) :
    headers (loop host st).1 = (heads host st).map (State.nextHeader host) := by
  rw [loop_output, headers, List.filterMap_flatMap, List.map_eq_flatMap]
  apply List.flatMap_congr
  intro s hs
  exact headers_iteration host (remaining_of_mem_heads host hs)

theorem buf_intact_iteration (host : Host) {s : State}
    (h : 12 ≤ s.connection.remaining) (hbuf : s.buf.length = imageSize) :
    ∀ p ∈ payloads (iteration host s).1,
      p.1 ≤ imageSize ∧ p.2.length = imageSize := by
  have hafter : s.afterHeader.buf.length = imageSize := hbuf
  have hread := length_buf_readPayload hafter (s.nextHeader host).dataSize
  rw [iteration_of_le host h]
  unfold handleFrame
  split
  · intro p hp
    rw [show p = _ from List.mem_singleton.mp hp]
    exact hread
  · split
    · intro p hp
      rw [show p = _ from List.mem_singleton.mp hp]
      exact hread
    · intro p hp
      exact absurd hp List.not_mem_nil

theorem buf_intact_loop (host : Host) {st : State}
    (hbuf : st.buf.length = imageSize) :
    ∀ p ∈ payloads (loop host st).1,
      p.1 ≤ imageSize ∧ p.2.length = imageSize := by
  intro p hp
  rw [loop_output, payloads, List.filterMap_flatMap] at hp
  obtain ⟨s, hs, hp⟩ := List.mem_flatMap.mp hp
  exact buf_intact_iteration host (remaining_of_mem_heads host hs)
    (length_buf_of_mem_heads host hbuf hs) p hp

/-! ## The whole stream -/

theorem remaining_of_stream {st : State} {bytes : List UInt8}
    (h : st.connection.segments.flatten = bytes) :
    st.connection.remaining = bytes.length := by
  rw [Connection.remaining, h]

/-- When nothing is left over, every frame is read where it begins. -/
theorem heads_of_leavesNothing (host : Host) {frames : List Frame}
    (hnothing : LeavesNothing frames) {st : State}
    (hstream : st.connection.segments.flatten =
      frames.flatMap Frame.wireBytes) :
    headerPositions host st = framePositions frames ∧
      (heads host st).map (State.nextHeader host) =
        frames.map Frame.header := by
  induction frames generalizing st with
  | nil =>
      have hremaining : st.connection.remaining < 12 := by
        rw [remaining_of_stream hstream]
        decide
      rw [headerPositions, heads_of_lt host hremaining]
      exact ⟨rfl, rfl⟩
  | cons frame frames ih =>
      obtain ⟨st', hheads, hheader, bytes, hlength, hrest⟩ :=
        heads_frame host hstream
      have hbelow : headerPositions host st' = framePositions frames ∧
          (heads host st').map (State.nextHeader host) =
            frames.map Frame.header := by
        cases frames with
        | nil =>
            have hremaining : st'.connection.remaining < 12 := by
              rw [remaining_of_stream hrest, List.length_append, hlength]
              exact hnothing
            rw [headerPositions, heads_of_lt host hremaining]
            exact ⟨rfl, rfl⟩
        | cons next frames =>
            have hempty : bytes = [] :=
              List.eq_nil_of_length_eq_zero (hlength.trans hnothing.1)
            rw [hempty, List.nil_append] at hrest
            exact ih hnothing.2 hrest
      rw [headerPositions, hheads, List.map_cons, List.map_cons,
        remaining_of_stream hstream, hheader, hbelow.2]
      exact ⟨congrArg _ hbelow.1, rfl⟩

/-- Conversely, only streams of which nothing is left over are read so. -/
theorem leavesNothing_of_positions (host : Host) {frames : List Frame}
    {st : State}
    (hstream : st.connection.segments.flatten =
      frames.flatMap Frame.wireBytes)
    (hpositions : headerPositions host st = framePositions frames) :
    LeavesNothing frames := by
  induction frames generalizing st with
  | nil => trivial
  | cons frame frames ih =>
      have hcons : st.connection.segments.flatten =
          frame.wireBytes ++ frames.flatMap Frame.wireBytes := hstream
      obtain ⟨st', hheads, -, bytes, hlength, hrest⟩ := heads_frame host hcons
      rw [headerPositions, hheads, List.map_cons] at hpositions
      have hbelow : headerPositions host st' = framePositions frames :=
        (List.cons.inj hpositions).2
      have hremaining : st'.connection.remaining =
          leftover frame.header + (frames.flatMap Frame.wireBytes).length := by
        rw [remaining_of_stream hrest, List.length_append, hlength]
      cases frames with
      | nil =>
          change leftover frame.header < 12
          by_contra hlong
          have henough : 12 ≤ st'.connection.remaining := by omega
          rw [headerPositions, heads_of_le host henough] at hbelow
          exact absurd hbelow (List.cons_ne_nil _ _)
      | cons next frames =>
          have hnext : 12 ≤ ((next :: frames).flatMap Frame.wireBytes).length :=
            by
              rw [List.flatMap_cons, List.length_append,
                Frame.length_wireBytes]
              omega
          have hat := hbelow
          rw [headerPositions, heads_of_le host (by omega), List.map_cons,
            framePositions, hremaining] at hat
          have hzero : leftover frame.header = 0 := by
            have := (List.cons.inj hat).1
            omega
          have hempty : bytes = [] :=
            List.eq_nil_of_length_eq_zero (hlength.trans hzero)
          rw [hempty, List.nil_append] at hrest
          exact ⟨hzero, ih hrest hbelow⟩

/-- The client stays in step with a stream exactly when it reads the whole
payload of every frame, of the last one all but less than a header. -/
theorem inStep_iff_leavesNothing (host : Host) (frames : List Frame)
    {segments : List (List UInt8)}
    (hstream : segments.flatten = frames.flatMap Frame.wireBytes)
    (ending : StreamEnd) {buf : List UInt8} (hbuf : buf.length = imageSize) :
    InStep host frames ⟨⟨segments, ending⟩, buf⟩ ↔ LeavesNothing frames := by
  constructor
  · intro h
    exact leavesNothing_of_positions host hstream h.positions_eq
  · intro hnothing
    have hin : (State.mk ⟨segments, ending⟩ buf).connection.segments.flatten =
        frames.flatMap Frame.wireBytes := hstream
    obtain ⟨hpositions, hheaders⟩ :=
      heads_of_leavesNothing host hnothing hin
    exact ⟨hpositions, (headers_loop host _).trans hheaders,
      buf_intact_loop host hbuf⟩

theorem inStep_twoFrames :
    InStep TcpServer.littleHost twoFrames
      ⟨⟨[twoFrames.flatMap Frame.wireBytes], .eof⟩,
        List.replicate imageSize 0⟩ :=
  (inStep_iff_leavesNothing TcpServer.littleHost twoFrames
    (List.append_nil _) .eof List.length_replicate).mpr (by decide)

/-- A frame of an unknown id with twelve bytes of payload. -/
def unknownFrame : Frame where
  header := ⟨0, 12, 0⟩
  payload := List.replicate 12 0
  size_eq := by decide

/-- The client takes the payload of an unknown frame for a second header. -/
theorem payload_read_as_header :
    ¬ ∀ (host : Host) (frames : List Frame) (segments : List (List UInt8))
        (ending : StreamEnd) (buf : List UInt8),
      segments.flatten = frames.flatMap Frame.wireBytes →
      buf.length = imageSize →
        headers (loop host ⟨⟨segments, ending⟩, buf⟩).1 =
          frames.map Frame.header := by
  intro hall
  let st : State :=
    ⟨⟨[unknownFrame.wireBytes], .eof⟩, List.replicate imageSize 0⟩
  have hstream : st.connection.segments.flatten = unknownFrame.wireBytes ++ [] :=
    rfl
  have hheaders := hall TcpServer.littleHost [unknownFrame]
    [unknownFrame.wireBytes] .eof (List.replicate imageSize 0) rfl
    List.length_replicate
  obtain ⟨st', hheads, -, bytes, hlength, hrest⟩ :=
    heads_frame TcpServer.littleHost hstream
  have hremaining : 12 ≤ st'.connection.remaining := by
    rw [remaining_of_stream hrest, List.length_append, hlength]
    decide
  have htwo : (heads TcpServer.littleHost st).length = [unknownFrame].length :=
    by
      rw [← List.length_map (State.nextHeader TcpServer.littleHost),
        ← headers_loop, hheaders, List.length_map]
  rw [hheads, heads_of_le _ hremaining] at htwo
  simp at htwo

end NetworkExperiments.TcpTest
