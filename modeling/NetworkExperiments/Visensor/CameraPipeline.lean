import NetworkExperiments.TcpTest.CompleteImages
import NetworkExperiments.Visensor.FrameOrder
import NetworkExperiments.Visensor.TcpServer

/-!
# From the camera to the screen

This file puts the parts of the visensor program together: the FPGA with the
ring of images, the TCP server, and the loop of `main`, which asks for new data
only while a client is connected.  A `send_data` takes time, in which the FPGA
goes on; a new client is accepted by another thread at any time.

The two ends of the system are the pictures that the FPGA writes and the images
that a client shows.  `pipeline_shows_frames` connects them: over all the
connections of a run, the images shown are the pictures of complete frames in
increasing order.  A client that is cut off shows the first of them, and may
tear the last one.
-/

namespace NetworkExperiments.Visensor.CameraPipeline

open CyclicSlots EventSystem FrameOrder TcpTest

/-- The bytes of a whole slot. -/
structure Picture (c : RingConfig) where
  bytes : List UInt8
  length_eq : bytes.length = c.dataSize
  deriving DecidableEq

/-- The header that `main` makes for an image of camera 0. -/
def headerCam (c : RingConfig) : DataHeader where
  timestamp := 0
  dataSize := UInt32.ofNat c.dataSize
  dataId := 100

theorem dataSize_headerCam (c : RingConfig) :
    (headerCam c).dataSize.toNat = c.dataSize := by
  have hspan := c.span_lt
  have hle : c.dataSize ≤ c.dataSize * (c.length + 1) :=
    Nat.le_mul_of_pos_right _ (Nat.succ_pos _)
  have hlt : c.dataSize < 2 ^ 32 := by omega
  exact (UInt32.toNat_ofNat').trans (Nat.mod_eq_of_lt hlt)

/-- The frame that is sent for an image. -/
def Picture.frame {c : RingConfig} (picture : Picture c) : Frame where
  header := headerCam c
  payload := picture.bytes
  size_eq := picture.length_eq.trans (dataSize_headerCam c).symm

/-- The ring with the camera loop, and the server for the data.  While the loop
is inside of `send_data`, `sending` is what the slot held when it started.
`ended` lists what the socket has accepted on the connections before. -/
structure State where
  ring : FrameOrder.State
  server : TcpServer
  sending : Option SlotContent
  ended : List (List UInt8)

/-- A step of the FPGA, of the thread that accepts clients, or of the loop.  A
send starts, and ends with the bytes that were sent and the result. -/
inductive Event (c : RingConfig)
  | fpgaCompletes
  | fpgaResumes
  | acceptSucceeds (clientPresent : Bool)
  | acceptFails
  | newDataAvailable
  | startSend
  | endSend (data : Picture c) (result : SendResult)
  | movePointer

def Event.isFpga {c : RingConfig} : Event c → Bool
  | .fpgaCompletes | .fpgaResumes => true
  | _ => false

section Step

variable (host : Host) (c : RingConfig) (picture : ℕ → Picture c)

def init (registers : FPGARegisters) : State where
  ring := FrameOrder.init c registers
  server := TcpServer.init
  sending := none
  ended := []

/-- The bytes sent from a slot.  When it has held the same frame at the start
and at the end of the send, they are the picture of this frame. -/
def Reads : SlotContent → SlotContent → Picture c → Prop
  | .full before, .full after, data =>
      before = after → data = picture after
  | _, _, _ => True

instance decidableReads :
    ∀ before after data, Decidable (Reads c picture before after data)
  | .full before, .full after, data =>
      inferInstanceAs (Decidable (before = after → data = picture after))
  | .full _, .blank, _ => isTrue trivial
  | .full _, .partly _, _ => isTrue trivial
  | .blank, _, _ => isTrue trivial
  | .partly _, _, _ => isTrue trivial

/-- The connections before, with the one that is given up by a send that
throws. -/
def endedAfter (st : State) : SendResult → List (List UInt8)
  | .accepted _ => st.ended
  | .throws =>
      match st.server.socket with
      | .closed => st.ended
      | .connected accepted => st.ended ++ [accepted]

/-- `send_data` returns. -/
def endSend (st : State) (data : Picture c) (result : SendResult) : State :=
  { st with
    server := st.server.sendData host data.bytes (headerCam c) result
    sending := none
    ended := endedAfter st result }

/-- The steps of the ring and of the server are those of their models.  The loop
asks for new data only while there is a client. -/
def runningStep (st : State) : Event c → Option State
  | .fpgaCompletes =>
      (FrameOrder.step c st.ring .fpgaCompletes).map fun ring =>
        { st with ring := ring }
  | .fpgaResumes =>
      (FrameOrder.step c st.ring .fpgaResumes).map fun ring =>
        { st with ring := ring }
  | .acceptSucceeds clientPresent =>
      (TcpServer.step host st.server (.acceptSucceeds clientPresent)).map
        fun server => { st with server := server }
  | .acceptFails =>
      (TcpServer.step host st.server .acceptFails).map
        fun server => { st with server := server }
  | .newDataAvailable =>
      if st.server.hasConnection then
        (FrameOrder.step c st.ring .newDataAvailable).map fun ring =>
          { st with ring := ring }
      else none
  | .startSend =>
      (FrameOrder.step c st.ring .sendData).map fun ring =>
        { st with
          ring := ring
          sending := some (st.ring.memory st.ring.buffer.data) }
  | .endSend data result =>
      match st.sending with
      | none => none
      | some before =>
          if TcpServer.SendResult.Possible data.frame result ∧
              Reads c picture before (st.ring.memory st.ring.buffer.data) data
          then some (endSend host c st data result)
          else none
  | .movePointer =>
      if st.sending.isSome then none
      else
        (FrameOrder.step c st.ring .movePointer).map fun ring =>
          { st with ring := ring }

/-- When an exception has ended the process, the FPGA goes on alone. -/
def step (st : State) (e : Event c) : Option State :=
  if st.server.uncaught ∧ e.isFpga = false then none
  else runningStep host c picture st e

end Step

/-! ## The property -/

/-- What the socket has accepted on each connection, the current one last. -/
def State.connections (st : State) : List (List UInt8) :=
  match st.server.socket with
  | .closed => st.ended
  | .connected accepted => st.ended ++ [accepted]

/-- The images of a client that receives so many bytes of their frames: those
whose header arrives.  Where the payload is cut off, the rest is what was in
`buf`. -/
def imagesShown (buf : List UInt8) :
    List (List UInt8) → ℕ → List (List UInt8)
  | [], _ => []
  | image :: later, received =>
      if received < 12 then []
      else
        let shown := Buffer.overwrite buf (image.take (received - 12))
        shown :: imagesShown shown later (received - (12 + image.length))

/-- A client that receives these bytes shows the pictures of these frames, and
one that receives a part of them the first pictures, the last maybe torn. -/
structure Shows (client : Host) {c : RingConfig} (picture : ℕ → Picture c)
    (accepted : List UInt8) (frames : List ℕ) : Prop where
  whole : ∀ segments ending buf, segments.flatten = accepted →
    buf.length = imageSize →
      images (loop client ⟨⟨segments, ending⟩, buf⟩).1 =
        frames.map fun f => (picture f).bytes
  cutOff : ∀ segments ending buf, segments.flatten <+: accepted →
    buf.length = imageSize →
      images (loop client ⟨⟨segments, ending⟩, buf⟩).1 =
        imagesShown buf (frames.map fun f => (picture f).bytes)
          segments.flatten.length

/-- The clients show the pictures of complete frames, no frame twice and none
out of order, also from one connection to the next. -/
def ShowsFrames (client : Host) {c : RingConfig} (picture : ℕ → Picture c)
    (st : State) : Prop :=
  ∃ shown, List.Forall₂ (Shows client picture) st.connections shown ∧
    InOrder (completed st.ring) shown.flatten

/-- A send that does not throw accepts the header and the whole image. -/
def FullSend {c : RingConfig} (_ : State) (e : Event c) : Prop :=
  ∀ data n, e = .endSend data (.accepted n) → n = 12 + c.dataSize

/-- The FPGA is not in the slot of the server when a send starts, nor as long
as it lasts. -/
def Undisturbed {c : RingConfig} (st : State) (e : Event c) : Prop :=
  e = .startSend ∨ st.sending ≠ none →
    st.ring.registers.getRegisterValue bufferFpgaPointer ≠
      st.ring.buffer.pysicalAddressOf st.ring.buffer.position

/-! ## What a client shows -/

/-- All images are shown when all bytes have been received. -/
theorem imagesShown_all {pictures : List (List UInt8)} {buf : List UInt8}
    (hsize : ∀ image ∈ pictures, image.length = imageSize)
    (hbuf : buf.length = imageSize) {received : ℕ}
    (hreceived : received = pictures.length * (12 + imageSize)) :
    imagesShown buf pictures received = pictures := by
  induction pictures generalizing buf received with
  | nil => rfl
  | cons image later ih =>
      have hlength : image.length = imageSize :=
        hsize image List.mem_cons_self
      have hrest : received - (12 + image.length) =
          later.length * (12 + imageSize) := by
        rw [hreceived, hlength, List.length_cons, Nat.succ_mul,
          Nat.add_sub_cancel]
      have henough : 12 + image.length ≤ received := by
        rw [hreceived, hlength, List.length_cons, Nat.succ_mul]
        exact Nat.le_add_left _ _
      have himage : Buffer.overwrite buf (image.take (received - 12)) =
          image := by
        rw [List.take_of_length_le (by omega)]
        exact Buffer.overwrite_eq_items
          (Nat.le_of_eq (hbuf.trans hlength.symm))
      simp only [imagesShown, if_neg (show ¬ received < 12 by omega), himage]
      rw [ih (fun _ h => hsize _ (List.mem_cons_of_mem _ h)) hlength hrest]

/-- What has arrived of a frame whose header has arrived. -/
theorem take_of_prefix_frame {frame : Frame} {bytes rest : List UInt8}
    (hbytes : bytes <+: frame.wireBytes ++ rest) (henough : 12 ≤ bytes.length) :
    bytes.take 12 = frame.header.wireBytes ∧
      (bytes.drop 12).take frame.payload.length =
        frame.payload.take (bytes.length - 12) ∧
      (bytes.drop 12).drop frame.payload.length <+: rest := by
  have hwire : (frame.wireBytes ++ rest).take 12 = frame.header.wireBytes ∧
      (frame.wireBytes ++ rest).drop 12 = frame.payload ++ rest := by
    rw [Frame.wireBytes, List.append_assoc, ← frame.header.length_wireBytes,
      List.take_left, List.drop_left]
    exact ⟨rfl, rfl⟩
  have hbehind : bytes.drop 12 <+: frame.payload ++ rest :=
    hwire.2 ▸ hbytes.drop 12
  refine ⟨?_, ?_, ?_⟩
  · rw [List.prefix_iff_eq_take.mp hbytes, List.take_take,
      Nat.min_eq_left henough, hwire.1]
  · rw [List.prefix_iff_eq_take.mp hbehind, List.length_drop, List.take_take,
      Nat.min_comm, ← List.take_take, List.take_left]
  · have hrest := hbehind.drop frame.payload.length
    rwa [List.drop_left] at hrest

/-- An iteration that reads the header of an image shows what it receives of
it, over what was in `buf`. -/
theorem iteration_image (client : Host) {st : TcpTest.State} {frame : Frame}
    {rest : List UInt8} (hid : frame.header.dataId = 100)
    (hsize : frame.header.dataSize.toNat = imageSize)
    (hbuf : st.buf.length = imageSize)
    (hstream : st.connection.segments.flatten <+: frame.wireBytes ++ rest)
    (henough : 12 ≤ st.connection.remaining) :
    ∃ events st', iteration client st = (events, .continues, st') ∧
      images events = [Buffer.overwrite st.buf
        (frame.payload.take (st.connection.remaining - 12))] ∧
      st'.buf = Buffer.overwrite st.buf
        (frame.payload.take (st.connection.remaining - 12)) ∧
      st'.connection.remaining =
        st.connection.remaining - (12 + frame.payload.length) ∧
      st'.connection.segments.flatten <+: rest := by
  have hlength : frame.payload.length = imageSize :=
    frame.size_eq.trans hsize
  obtain ⟨hfront, hpayload, hrest⟩ := take_of_prefix_frame hstream henough
  have hheader : st.nextHeader client = frame.header := by
    rw [State.nextHeader, hfront, DataHeader.ofMemory_wireBytes]
  have hiteration := iteration_of_le client henough
  have himages := images_iteration_of_eq client henough hbuf
    (by rw [hheader, hid])
  rw [hheader, hsize, Nat.min_self, ← hlength, hpayload] at himages
  have hread : min frame.header.dataSize.toNat imageSize =
      frame.payload.length := by
    rw [hsize, Nat.min_self, hlength]
  rw [hiteration] at himages
  rw [hheader, handleFrame, if_pos hid, readPayload, hread] at hiteration
  refine ⟨_, _, hiteration, ?_, ?_, ?_, ?_⟩
  · rw [hheader, handleFrame, if_pos hid, readPayload, hread] at himages
    exact himages
  · rw [Connection.read_bytes, State.afterHeader, Connection.read_rest,
      hpayload]
    rfl
  · rw [Connection.read_remaining, State.afterHeader,
      Connection.read_remaining, Nat.sub_sub]
  · rw [Connection.read_rest, State.afterHeader, Connection.read_rest]
    exact hrest

/-- A stream of frames of images that is cut off somewhere. -/
theorem images_loop_prefix (client : Host) {frames : List Frame}
    (hid : ∀ frame ∈ frames, frame.header.dataId = 100)
    (hsize : ∀ frame ∈ frames, frame.header.dataSize.toNat = imageSize)
    {st : TcpTest.State} (hbuf : st.buf.length = imageSize)
    (hstream : st.connection.segments.flatten <+:
      frames.flatMap Frame.wireBytes) :
    images (loop client st).1 =
      imagesShown st.buf (frames.map Frame.payload)
        st.connection.remaining := by
  induction frames generalizing st with
  | nil =>
      rw [(loop_exhausted client (List.prefix_nil.mp hstream)).1]
      rfl
  | cons frame frames ih =>
      rw [List.map_cons, imagesShown]
      split
      · next hshort =>
          obtain ⟨verdict, hstop, hiteration⟩ := iteration_of_lt client hshort
          rw [loop_of_stops client hiteration hstop]
          rfl
      · next henough =>
          obtain ⟨events, st', hiteration, himage, hbuf', hremaining, hrest⟩ :=
            iteration_image client (hid _ List.mem_cons_self)
              (hsize _ List.mem_cons_self) hbuf hstream
              (Nat.not_lt.mp henough)
          have hlength : st'.buf.length = imageSize := by
            have hpayload : frame.payload.length = st.buf.length :=
              (frame.size_eq.trans (hsize _ List.mem_cons_self)).trans
                hbuf.symm
            rw [hbuf', Buffer.length_overwrite, hbuf]
            exact hpayload ▸ List.length_take_le' _ _
          have hlater := ih (fun f hf => hid f (List.mem_cons_of_mem _ hf))
            (fun f hf => hsize f (List.mem_cons_of_mem _ hf)) hlength hrest
          rw [hremaining, hbuf'] at hlater
          rw [loop_of_continues client hiteration, images,
            List.filterMap_append]
          exact congrArg₂ (· ++ ·) himage hlater

/-- The bytes of the frames that are sent for the pictures. -/
def stream {c : RingConfig} (picture : ℕ → Picture c) (frames : List ℕ) :
    List UInt8 :=
  frames.flatMap fun f => (picture f).frame.wireBytes

theorem length_stream {c : RingConfig} (hsize : c.dataSize = imageSize)
    (picture : ℕ → Picture c) (frames : List ℕ) :
    (stream picture frames).length = frames.length * (12 + imageSize) := by
  induction frames with
  | nil =>
      rw [List.length_nil, Nat.zero_mul]
      rfl
  | cons f frames ih =>
      have hframe : (picture f).frame.wireBytes.length = 12 + imageSize := by
        rw [Frame.length_wireBytes]
        exact congrArg (12 + ·) ((dataSize_headerCam c).trans hsize)
      rw [stream, List.flatMap_cons, List.length_append, hframe,
        List.length_cons, Nat.succ_mul, Nat.add_comm]
      exact congrArg (· + (12 + imageSize)) ih

theorem shows_stream (client : Host) {c : RingConfig}
    (hsize : c.dataSize = imageSize) (picture : ℕ → Picture c)
    (frames : List ℕ) :
    Shows client picture (stream picture frames) frames := by
  have hflatMap : stream picture frames =
      (frames.map fun f => (picture f).frame).flatMap Frame.wireBytes := by
    rw [List.flatMap_map]
    rfl
  have hcutOff : ∀ segments ending buf,
      segments.flatten <+: stream picture frames →
        buf.length = imageSize →
          images (loop client ⟨⟨segments, ending⟩, buf⟩).1 =
            imagesShown buf (frames.map fun f => (picture f).bytes)
              segments.flatten.length := by
    intro segments ending buf hstream hbuf
    have hshown : images (loop client ⟨⟨segments, ending⟩, buf⟩).1 =
        imagesShown buf
          ((frames.map fun f => (picture f).frame).map Frame.payload)
          segments.flatten.length := by
      refine images_loop_prefix client ?_ ?_ hbuf (hflatMap ▸ hstream)
      · rintro frame hframe
        obtain ⟨f, -, rfl⟩ := List.mem_map.mp hframe
        rfl
      · rintro frame hframe
        obtain ⟨f, -, rfl⟩ := List.mem_map.mp hframe
        exact (dataSize_headerCam c).trans hsize
    rw [hshown, List.map_map]
    rfl
  refine ⟨?_, hcutOff⟩
  intro segments ending buf hstream hbuf
  rw [hcutOff segments ending buf (hstream ▸ List.prefix_refl _) hbuf]
  refine imagesShown_all ?_ hbuf ?_
  · intro image himage
    obtain ⟨f, -, rfl⟩ := List.mem_map.mp himage
    exact (picture f).length_eq.trans hsize
  · rw [hstream, length_stream hsize, List.length_map]

/-! ## The invariant -/

/-- There is a client and no accept is outstanding, or there is no client, or
the process is over. -/
inductive ServerInv : TcpServer → Prop
  | serving (accepted : List UInt8) :
      ServerInv ⟨true, .connected accepted, 0, false⟩
  | alone {accepts : ℕ} (h : accepts ≤ 1) :
      ServerInv ⟨false, .closed, accepts, false⟩
  | ended {accepts : ℕ} : ServerInv ⟨false, .connected [], accepts, true⟩

/-- What the ring has sent completely. -/
def sentBefore (st : State) : List SlotContent :=
  if st.sending = none then st.ring.sent else st.ring.sent.dropLast

/-- What the clients have received are frames that the ring has sent, each
once and in this order. -/
def Delivered {c : RingConfig} (picture : ℕ → Picture c) (st : State) : Prop :=
  ∃ shown : List (List ℕ), st.connections = shown.map (stream picture) ∧
    (shown.flatten.map SlotContent.full).Sublist (sentBefore st)

structure PipelineInv {c : RingConfig} (picture : ℕ → Picture c)
    (st : State) : Prop extends OrderInv c st.ring where
  delivered : Delivered picture st
  server : ServerInv st.server
  client : st.ring.stage = .available ∨ st.sending ≠ none →
    st.server.hasConnection = true
  stage_sent : st.sending ≠ none → st.ring.stage = .sent
  last : ∀ before, st.sending = some before →
    st.ring.sent.getLast? = some before
  unchanged : ∀ before, st.sending = some before →
    st.ring.frame % c.length ≠ st.ring.buffer.position →
      st.ring.memory st.ring.buffer.data = before

/-! ### Steps of the FPGA -/

/-- The FPGA leaves the server alone, and changes only the slots that it is in
before and after its step. -/
structure FpgaStep (c : RingConfig) (ring ring' : FrameOrder.State) :
    Prop where
  stage_eq : ring'.stage = ring.stage
  buffer_eq : ring'.buffer = ring.buffer
  sent_eq : ring'.sent = ring.sent
  completed_le : completed ring ≤ completed ring'
  memory_eq : ∀ i, ring.frame % c.length ≠ i → ring'.frame % c.length ≠ i →
    ring'.memory (c.slotData i) = ring.memory (c.slotData i)

theorem fpgaStep_of_completes {c : RingConfig} {ring ring' : FrameOrder.State}
    (h : FrameOrder.step c ring .fpgaCompletes = some ring') :
    FpgaStep c ring ring' := by
  cases move_of_step c h with
  | completesAndWaits hwaiting =>
      refine ⟨rfl, rfl, rfl, by simp [completed, completeFrame, hwaiting], ?_⟩
      intro i hi _
      exact Function.update_of_ne
        (mt RingConfig.slotData_inj.mp (Ne.symm hi)) _ _
  | completesAndEnters hwaiting =>
      refine ⟨rfl, rfl, rfl,
        by simp [completed, enterNext, completeFrame, hwaiting], ?_⟩
      intro i hi hi'
      have hold : (completeFrame c ring).memory (c.slotData i) =
          ring.memory (c.slotData i) :=
        Function.update_of_ne (mt RingConfig.slotData_inj.mp (Ne.symm hi)) _ _
      exact (Function.update_of_ne
        (mt RingConfig.slotData_inj.mp (Ne.symm hi')) _ _).trans hold

theorem fpgaStep_of_resumes {c : RingConfig} {ring ring' : FrameOrder.State}
    (h : FrameOrder.step c ring .fpgaResumes = some ring') :
    FpgaStep c ring ring' := by
  cases move_of_step c h with
  | resumes hwaiting =>
      refine ⟨rfl, rfl, rfl, by simp [completed, enterNext, hwaiting], ?_⟩
      intro i _ hi'
      exact Function.update_of_ne
        (mt RingConfig.slotData_inj.mp (Ne.symm hi')) _ _

theorem data_eq {c : RingConfig} {ring : FrameOrder.State}
    (h : RingInv c ring) :
    ring.buffer.data = c.slotData ring.buffer.position := by
  rw [h.buffer_eq]
  rfl

section Invariant

variable {host : Host} {c : RingConfig} {picture : ℕ → Picture c}

theorem runningStep_of_step {st st' : State} {e : Event c}
    (h : step host c picture st e = some st') :
    runningStep host c picture st e = some st' := by
  unfold step at h
  split at h
  · contradiction
  · exact h

theorem ring_step {st st' : State} {e : Event c}
    (h : step host c picture st e = some st') :
    st'.ring = st.ring ∨
      ∃ e', FrameOrder.step c st.ring e' = some st'.ring := by
  have hstep := runningStep_of_step h
  cases e with
  | fpgaCompletes | fpgaResumes | startSend =>
      obtain ⟨ring, hring, rfl⟩ := Option.map_eq_some_iff.mp hstep
      exact Or.inr ⟨_, hring⟩
  | acceptSucceeds | acceptFails =>
      obtain ⟨server, -, rfl⟩ := Option.map_eq_some_iff.mp hstep
      exact Or.inl rfl
  | newDataAvailable =>
      simp only [runningStep] at hstep
      split at hstep
      · obtain ⟨ring, hring, rfl⟩ := Option.map_eq_some_iff.mp hstep
        exact Or.inr ⟨_, hring⟩
      · contradiction
  | endSend data result =>
      simp only [runningStep] at hstep
      split at hstep
      · contradiction
      · split at hstep
        · obtain rfl := Option.some.inj hstep
          exact Or.inl rfl
        · contradiction
  | movePointer =>
      simp only [runningStep] at hstep
      split at hstep
      · contradiction
      · obtain ⟨ring, hring, rfl⟩ := Option.map_eq_some_iff.mp hstep
        exact Or.inr ⟨_, hring⟩

/-- A step of the FPGA that does not disturb a send. -/
theorem pipelineInv_fpga {st : State} {e : Event c}
    {ring : FrameOrder.State} (h : PipelineInv picture st)
    (hundisturbed : Undisturbed st e) (hring : OrderInv c ring)
    (hstep : FpgaStep c st.ring ring) :
    PipelineInv picture { st with ring := ring } := by
  refine ⟨hring, ?_, h.server, ?_, ?_, ?_, ?_⟩
  · simpa [Delivered, sentBefore, State.connections, hstep.sent_eq]
      using h.delivered
  · simpa [hstep.stage_eq] using h.client
  · simpa [hstep.stage_eq] using h.stage_sent
  · simpa [hstep.sent_eq] using h.last
  · intro before hbefore hslot
    have hsending : st.sending ≠ none := by
      rw [show st.sending = some before from hbefore]
      exact Option.some_ne_none before
    have hapart : st.ring.frame % c.length ≠ st.ring.buffer.position :=
      mt h.fpgaPointer_eq_iff.mpr (hundisturbed (Or.inr hsending))
    change ring.memory ring.buffer.data = before
    change ring.frame % c.length ≠ ring.buffer.position at hslot
    rw [hstep.buffer_eq] at hslot
    rw [data_eq hring.toRingInv, hstep.buffer_eq,
      hstep.memory_eq _ hapart hslot, ← data_eq h.toRingInv]
    exact h.unchanged before hbefore hapart

/-! ### Steps of the server -/

/-- A new connection begins with no bytes, and without a frame. -/
theorem pipelineInv_acceptSucceeds {st : State} {clientPresent : Bool}
    {server : TcpServer} (h : PipelineInv picture st)
    (hstep : TcpServer.step host st.server (.acceptSucceeds clientPresent) =
      some server) :
    PipelineInv picture { st with server := server } := by
  obtain ⟨ring, server₀, sending, ended⟩ := st
  obtain ⟨hring, ⟨shown, hshown, hsent⟩, hserver, hclient, hstage, hlast,
    hunchanged⟩ := h
  cases hserver with
  | serving accepted => exact absurd hstep (by simp [TcpServer.step])
  | ended => exact absurd hstep (by simp [TcpServer.step])
  | @alone accepts haccepts =>
      have hconnections : State.connections
          ⟨ring, ⟨false, .closed, accepts, false⟩, sending, ended⟩ ++ [[]] =
            (shown ++ [[]]).map (stream picture) := by
        rw [List.map_append, ← hshown]
        rfl
      have hlater : ((shown ++ [[]]).flatten.map SlotContent.full).Sublist
          (sentBefore
            ⟨ring, ⟨false, .closed, accepts, false⟩, sending, ended⟩) := by
        rw [List.flatten_concat, List.append_nil]
        exact hsent
      cases TcpServer.move_of_step hstep with
      | acceptThrows hne =>
          exact ⟨hring, ⟨shown ++ [[]], hconnections, hlater⟩, .ended, hclient,
            hstage, hlast, hunchanged⟩
      | acceptSucceeds hne =>
          have hone : accepts = 1 := by
            change accepts ≠ 0 at hne
            omega
          subst hone
          exact ⟨hring, ⟨shown ++ [[]], hconnections, hlater⟩, .serving [],
            fun _ => rfl, hstage, hlast, hunchanged⟩

theorem pipelineInv_acceptFails {st : State} {server : TcpServer}
    (h : PipelineInv picture st)
    (hstep : TcpServer.step host st.server .acceptFails = some server) :
    PipelineInv picture { st with server := server } := by
  obtain ⟨ring, server₀, sending, ended⟩ := st
  obtain ⟨hring, hdelivered, hserver, hclient, hstage, hlast, hunchanged⟩ := h
  cases hserver with
  | serving accepted => exact absurd hstep (by simp [TcpServer.step])
  | ended => exact absurd hstep (by simp [TcpServer.step])
  | @alone accepts haccepts =>
      cases TcpServer.move_of_step hstep with
      | acceptFails hne =>
          exact ⟨hring, hdelivered,
            .alone (Nat.le_trans (Nat.sub_le _ _) haccepts), hclient, hstage,
            hlast, hunchanged⟩

/-! ### Steps of the loop -/

theorem pipelineInv_newDataAvailable {st : State} {ring : FrameOrder.State}
    (h : PipelineInv picture st) (hconnection : st.server.hasConnection = true)
    (hstep : FrameOrder.step c st.ring .newDataAvailable = some ring) :
    PipelineInv picture { st with ring := ring } := by
  have hring : OrderInv c ring :=
    orderInv_step h.toOrderInv (fun he => by cases he) hstep
  cases move_of_step c hstep with
  | newDataAvailable hidle =>
      refine ⟨hring, h.delivered, h.server, fun _ => hconnection, ?_, h.last,
        h.unchanged⟩
      intro hsending
      exact absurd (hidle.symm.trans (h.stage_sent hsending)) (by decide)

theorem pipelineInv_startSend {st : State} {ring : FrameOrder.State}
    (h : PipelineInv picture st)
    (hundisturbed : Undisturbed (c := c) st .startSend)
    (hstep : FrameOrder.step c st.ring .sendData = some ring) :
    PipelineInv picture { st with
      ring := ring
      sending := some (st.ring.memory st.ring.buffer.data) } := by
  have hring : OrderInv c ring :=
    orderInv_step h.toOrderInv (fun _ => hundisturbed (Or.inl rfl)) hstep
  obtain ⟨shown, hshown, hsent⟩ := h.delivered
  cases move_of_step c hstep with
  | sendData havailable =>
      refine ⟨hring, ⟨shown, hshown, hsent.trans ?_⟩, h.server,
        fun _ => h.client (Or.inl havailable), fun _ => rfl, ?_, ?_⟩
      · rw [sentBefore, sentBefore, if_neg (Option.some_ne_none _),
          List.dropLast_concat]
        split
        · exact List.Sublist.refl _
        · exact List.dropLast_sublist _
      · intro before hbefore
        obtain rfl := Option.some.inj hbefore
        exact List.getLast?_concat
      · intro before hbefore _
        exact Option.some.inj hbefore

theorem pipelineInv_movePointer {st : State} {ring : FrameOrder.State}
    (h : PipelineInv picture st) (hsending : st.sending = none)
    (hstep : FrameOrder.step c st.ring .movePointer = some ring) :
    PipelineInv picture { st with ring := ring } := by
  have hring : OrderInv c ring :=
    orderInv_step h.toOrderInv (fun he => by cases he) hstep
  cases move_of_step c hstep with
  | movePointer =>
      refine ⟨hring, h.delivered, h.server, ?_,
        fun hsend => absurd hsending hsend, h.last, ?_⟩
      · rintro (hstage | hsend)
        · cases hstage
        · exact absurd hsending hsend
      · intro before hbefore
        exact absurd (hsending.symm.trans hbefore) (Option.some_ne_none _).symm

/-- During a send the slot holds a complete frame, which is the last that the
ring has sent. -/
theorem sending_full {st : State} {before : SlotContent}
    (h : PipelineInv picture st) (hsending : st.sending = some before)
    (hapart : st.ring.frame % c.length ≠ st.ring.buffer.position) :
    ∃ f, before = .full f ∧
      st.ring.memory st.ring.buffer.data = .full f ∧
      st.ring.sent = sentBefore st ++ [.full f] := by
  obtain ⟨frames, -, hframes, -⟩ := h.order
  have hlast := h.last before hsending
  have hmem : before ∈ st.ring.sent := List.mem_of_getLast? hlast
  obtain ⟨f, -, rfl⟩ := List.mem_map.mp (hframes ▸ hmem)
  refine ⟨f, rfl, h.unchanged _ hsending hapart, ?_⟩
  have hbefore : sentBefore st = st.ring.sent.dropLast :=
    if_neg (by rw [hsending]; exact Option.some_ne_none _)
  rw [hbefore]
  exact (List.dropLast_append_getLast? _ hlast).symm

theorem connections_serving {ring : FrameOrder.State} {accepted : List UInt8}
    {accepts : ℕ} {sending : Option SlotContent} {ended : List (List UInt8)}
    {shown : List (List ℕ)}
    (h : (State.mk ring ⟨true, .connected accepted, accepts, false⟩ sending
      ended).connections = shown.map (stream picture)) :
    ∃ before current, shown = before ++ [current] ∧
      ended = before.map (stream picture) ∧
      accepted = stream picture current := by
  have hsplit : ended ++ [accepted] = shown.map (stream picture) := h
  obtain ⟨before, last, rfl, hbefore, hlast⟩ :=
    List.map_eq_append_iff.mp hsplit.symm
  obtain ⟨current, rfl, hcurrent⟩ := List.map_eq_singleton_iff.mp hlast
  exact ⟨before, current, rfl, hbefore.symm, hcurrent.symm⟩

theorem stream_concat (frames : List ℕ) (f : ℕ) :
    stream picture (frames ++ [f]) =
      stream picture frames ++ (picture f).frame.wireBytes := by
  rw [stream, List.flatMap_append, List.flatMap_singleton]
  rfl

theorem sendData_full (host : Host) (accepted : List UInt8)
    (data : Picture c) :
    TcpServer.sendData host ⟨true, .connected accepted, 0, false⟩ data.bytes
        (headerCam c) (.accepted (12 + c.dataSize)) =
      ⟨true, .connected (accepted ++ data.frame.wireBytes), 0, false⟩ := by
  have hbuffers : TcpServer.buffers host data.bytes (headerCam c) =
      data.frame.wireBytes := TcpServer.buffers_frame host data.frame
  have hlength : data.frame.wireBytes.length = 12 + c.dataSize := by
    rw [Frame.length_wireBytes]
    exact congrArg (12 + ·) (dataSize_headerCam c)
  simp only [TcpServer.sendData, hbuffers, ← hlength, List.take_length]

/-- A send that returns has appended the frame to the connection, or has ended
the connection. -/
theorem pipelineInv_endSend {st : State} {before : SlotContent}
    {data : Picture c} {result : SendResult} (h : PipelineInv picture st)
    (hsending : st.sending = some before)
    (hfull : FullSend st (.endSend data result))
    (hundisturbed : Undisturbed st (.endSend data result))
    (hreads : Reads c picture before (st.ring.memory st.ring.buffer.data)
      data) :
    PipelineInv picture (endSend host c st data result) := by
  have hsome : st.sending ≠ none := by
    rw [hsending]
    exact Option.some_ne_none before
  have hapart : st.ring.frame % c.length ≠ st.ring.buffer.position :=
    mt h.fpgaPointer_eq_iff.mpr (hundisturbed (Or.inr hsome))
  obtain ⟨f, rfl, hmemory, hsent⟩ := sending_full h hsending hapart
  rw [hmemory] at hreads
  obtain rfl : data = picture f := hreads rfl
  have hall : (sentBefore st).Sublist st.ring.sent := by
    rw [hsent]
    exact List.sublist_append_left _ _
  have hstage := h.stage_sent hsome
  have hconnection := h.client (Or.inr hsome)
  obtain ⟨ring, server, sending, ended⟩ := st
  obtain ⟨hring, ⟨shown, hshown, hsublist⟩, hserver, -, -, -, -⟩ := h
  cases hserver with
  | alone | ended => cases hconnection
  | serving accepted =>
      obtain ⟨earlier, current, rfl, rfl, rfl⟩ := connections_serving hshown
      cases result with
      | accepted n =>
          obtain rfl : n = 12 + c.dataSize := hfull _ _ rfl
          rw [endSend, sendData_full]
          refine ⟨hring, ⟨earlier ++ [current ++ [f]], ?_, ?_⟩, .serving _,
            fun _ => rfl, nofun, nofun, nofun⟩
          · rw [List.map_append, List.map_singleton, stream_concat]
            rfl
          · rw [List.flatten_concat, ← List.append_assoc, List.map_append,
              ← List.flatten_concat]
            exact (hsublist.append_right _).trans (hsent ▸ List.Sublist.refl _)
      | throws =>
          refine ⟨hring, ⟨earlier ++ [current], hshown, hsublist.trans hall⟩,
            .alone (Nat.le_refl 1), ?_, nofun, nofun, nofun⟩
          rintro (havailable | hnone)
          · exact absurd (hstage.symm.trans havailable) (by decide)
          · exact absurd rfl hnone

/-! ### All steps -/

/-- A run's steps, none of which sends part of a frame or a disturbed one. -/
def Sound (st : State) (e : Event c) : Prop :=
  FullSend st e ∧ Undisturbed st e

theorem pipelineInv_step {st st' : State} {e : Event c}
    (h : PipelineInv picture st) (hsound : Sound st e)
    (hrun : step host c picture st e = some st') :
    PipelineInv picture st' := by
  obtain ⟨hfull, hundisturbed⟩ := hsound
  have hstep := runningStep_of_step hrun
  cases e with
  | fpgaCompletes =>
      obtain ⟨ring, hring, rfl⟩ := Option.map_eq_some_iff.mp hstep
      exact pipelineInv_fpga h hundisturbed
        (orderInv_step h.toOrderInv (fun he => by cases he) hring)
        (fpgaStep_of_completes hring)
  | fpgaResumes =>
      obtain ⟨ring, hring, rfl⟩ := Option.map_eq_some_iff.mp hstep
      exact pipelineInv_fpga h hundisturbed
        (orderInv_step h.toOrderInv (fun he => by cases he) hring)
        (fpgaStep_of_resumes hring)
  | acceptSucceeds clientPresent =>
      obtain ⟨server, hserver, rfl⟩ := Option.map_eq_some_iff.mp hstep
      exact pipelineInv_acceptSucceeds h hserver
  | acceptFails =>
      obtain ⟨server, hserver, rfl⟩ := Option.map_eq_some_iff.mp hstep
      exact pipelineInv_acceptFails h hserver
  | newDataAvailable =>
      simp only [runningStep] at hstep
      split at hstep
      · next hconnection =>
          obtain ⟨ring, hring, rfl⟩ := Option.map_eq_some_iff.mp hstep
          exact pipelineInv_newDataAvailable h hconnection hring
      · contradiction
  | startSend =>
      obtain ⟨ring, hring, rfl⟩ := Option.map_eq_some_iff.mp hstep
      exact pipelineInv_startSend h hundisturbed hring
  | endSend data result =>
      simp only [runningStep] at hstep
      split at hstep
      · contradiction
      · next before hsending =>
          split at hstep
          · next hsend =>
              obtain rfl := Option.some.inj hstep
              exact pipelineInv_endSend h hsending hfull hundisturbed hsend.2
          · contradiction
  | movePointer =>
      simp only [runningStep] at hstep
      split at hstep
      · contradiction
      · next hsending =>
          obtain ⟨ring, hring, rfl⟩ := Option.map_eq_some_iff.mp hstep
          exact pipelineInv_movePointer h
            (Option.not_isSome_iff_eq_none.mp hsending) hring

theorem pipelineInv_init (picture : ℕ → Picture c)
    (registers : FPGARegisters) : PipelineInv picture (init c registers) :=
  ⟨orderInv_init registers, ⟨[], rfl, List.nil_sublist _⟩,
    .alone (Nat.le_refl 1), fun h => by simp [init, FrameOrder.init] at h,
    fun h => absurd rfl h, nofun, nofun⟩

theorem PipelineInv.showsFrames {st : State} (h : PipelineInv picture st)
    (client : Host) (hsize : c.dataSize = imageSize) :
    ShowsFrames client picture st := by
  obtain ⟨shown, hshown, hsublist⟩ := h.delivered
  obtain ⟨frames, -, hsent, hframes, -⟩ := h.order
  have hbefore : (sentBefore st).Sublist st.ring.sent := by
    rw [sentBefore]
    split
    · exact List.Sublist.refl _
    · exact List.dropLast_sublist _
  have hsub := hsublist.trans hbefore
  rw [hsent] at hsub
  obtain ⟨frames', hsub', hmap⟩ := List.sublist_map_iff.mp hsub
  have heq : shown.flatten = frames' :=
    List.map_injective_iff.mpr (fun _ _ => SlotContent.full.inj) hmap
  refine ⟨shown, ?_, heq ▸ hframes.sublist hsub'⟩
  rw [hshown, List.forall₂_map_left_iff, List.forall₂_same]
  exact fun frames _ => shows_stream client hsize picture frames

/-- As long as no send is cut short or disturbed by the FPGA, the images that
the clients show are the pictures of complete frames in increasing order. -/
theorem pipeline_shows_frames (server client : Host) (c : RingConfig)
    (hsize : c.dataSize = imageSize) (picture : ℕ → Picture c)
    (registers : FPGARegisters) (es : List (Event c))
    (h : EachStep (step server c picture) Sound (init c registers) es) :
    EachState (step server c picture) (ShowsFrames client picture)
      (init c registers) es := by
  have hinv : EachState (step server c picture) (PipelineInv picture)
      (init c registers) es :=
    eachState_of_eachStep
      (fun _ _ _ hst hsound hstep => pipelineInv_step hst hsound hstep)
      (pipelineInv_init picture registers) h
  exact hinv.mono fun _ hst => hst.showsFrames client hsize

/-- A black picture. -/
def black : Picture cameraRing where
  bytes := List.replicate 360960 0
  length_eq := List.length_replicate

/-- A client connects, the FPGA completes two frames, and the first one is
sent. -/
theorem pipeline_shows_frame_zero :
    EachState (step TcpServer.littleHost cameraRing fun _ => black)
      (ShowsFrames TcpServer.littleHost fun _ => black)
      (init cameraRing ⟨fun _ => 0⟩)
      [.acceptSucceeds true, .fpgaCompletes, .fpgaCompletes,
        .newDataAvailable, .startSend,
        .endSend black (.accepted (12 + 360960))] := by
  refine pipeline_shows_frames TcpServer.littleHost TcpServer.littleHost
    cameraRing rfl (fun _ => black) ⟨fun _ => 0⟩ _ ?_
  have hquiet : ∀ (st : State) (e : Event cameraRing), st.sending = none →
      e ≠ .startSend → (∀ data n, e ≠ .endSend data (.accepted n)) →
      Sound st e := by
    intro st e hnone hstart hsend
    exact ⟨fun data n he => absurd he (hsend data n),
      fun h => (h.resolve_left hstart hnone).elim⟩
  intro s₁ h₁
  obtain rfl := Option.some.inj h₁
  refine ⟨hquiet _ _ rfl nofun nofun, fun s₂ h₂ => ?_⟩
  obtain rfl := Option.some.inj h₂
  refine ⟨hquiet _ _ rfl nofun nofun, fun s₃ h₃ => ?_⟩
  obtain rfl := Option.some.inj h₃
  refine ⟨hquiet _ _ rfl nofun nofun, fun s₄ h₄ => ?_⟩
  obtain rfl := Option.some.inj h₄
  refine ⟨hquiet _ _ rfl nofun nofun, fun s₅ h₅ => ?_⟩
  obtain rfl := Option.some.inj h₅
  refine ⟨⟨nofun, fun _ => by decide⟩, fun s₆ h₆ => ?_⟩
  refine ⟨⟨?_, fun _ => by decide⟩, trivial⟩
  intro data n he
  cases he
  rfl

end Invariant

end NetworkExperiments.Visensor.CameraPipeline
