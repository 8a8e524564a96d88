import NetworkExperiments.Visensor.TcpServer

/-!
# Alignment of the TCP stream

The receiver of a stream finds the frames by counting bytes, so the bytes that
the socket accepts must be the complete frames that were passed to
`send_data`.  `send_data` makes one call of `socket_.send` for a frame and does
not look at the count that it returns.  `aligned_iff_full_sends` shows that the
stream stays aligned exactly as long as every call that does not throw accepts
the whole frame.
-/

namespace NetworkExperiments.Visensor.StreamAlignment

open EventSystem TcpServer

/-- The server, and the bytes of the complete frames passed to `send_data`
since the client connected. -/
structure State where
  server : TcpServer
  passed : List UInt8

def init : State :=
  { server := TcpServer.init, passed := [] }

def passedAfter (passed : List UInt8) : Event → List UInt8
  | .acceptSucceeds _ => []
  | .acceptFails => passed
  | .sendData frame _ => passed ++ frame.wireBytes

def step (host : Host) (st : State) (e : Event) : Option State :=
  (TcpServer.step host st.server e).map fun server =>
    { server := server, passed := passedAfter st.passed e }

/-- While the connection is up, it has accepted the complete frames passed to
`send_data`. -/
def Aligned (st : State) : Prop :=
  ∀ accepted, st.server.socket = .connected accepted → accepted = st.passed

/-- A send that does not throw accepts the header and the whole payload. -/
def FullSend (_ : State) (e : Event) : Prop :=
  ∀ frame n, e = .sendData frame (.accepted n) →
    n = 12 + frame.header.dataSize.toNat

instance (st : State) : ∀ e, Decidable (FullSend st e)
  | .acceptSucceeds _ => isTrue (by simp [FullSend])
  | .acceptFails => isTrue (by simp [FullSend])
  | .sendData frame (.accepted n) =>
      decidable_of_iff (n = 12 + frame.header.dataSize.toNat)
        (by simp [FullSend])
  | .sendData _ .throws => isTrue (by simp [FullSend])

/-- The stream is aligned, and `has_connection_` is set only while the socket
is connected. -/
structure AlignedInv (st : State) : Prop where
  aligned : Aligned st
  connected : st.server.hasConnection = true →
    ∃ accepted, st.server.socket = .connected accepted

theorem alignedInv_init : AlignedInv init := by
  constructor
  · intro accepted h
    cases h
  · intro h
    cases h

theorem sendData_accepted {host : Host} {s : TcpServer} {bytes : List UInt8}
    (hsocket : s.socket = .connected bytes) (frame : Frame) (n : ℕ) :
    s.sendData host frame.payload frame.header (.accepted n) =
      { s with socket := .connected (bytes ++ frame.wireBytes.take n) } := by
  simp only [sendData, hsocket, buffers_frame]

theorem alignedInv_step {host : Host} {st st' : State} {e : Event}
    (h : AlignedInv st) (hfull : FullSend st e)
    (hstep : step host st e = some st') : AlignedInv st' := by
  rw [step, Option.map_eq_some_iff] at hstep
  obtain ⟨server, hserver, rfl⟩ := hstep
  cases move_of_step hserver with
  | acceptSucceeds | acceptThrows =>
      constructor
      · intro accepted haccepted
        exact (Socket.connected.inj haccepted).symm
      · intro _
        exact ⟨[], rfl⟩
  | acceptFails => exact ⟨h.aligned, h.connected⟩
  | @sendData frame result hconnection hpossible =>
      obtain ⟨bytes, hsocket⟩ := h.connected hconnection
      cases result with
      | accepted n =>
          have hn : n = frame.wireBytes.length := by
            rw [hfull frame n rfl, Frame.length_wireBytes]
          rw [sendData_accepted hsocket, hn, List.take_length]
          constructor
          · intro accepted haccepted
            have heq := Socket.connected.inj haccepted
            rw [← heq, h.aligned bytes hsocket]
            rfl
          · intro _
            exact ⟨_, rfl⟩
      | throws =>
          constructor
          · intro accepted haccepted
            cases haccepted
          · intro hflag
            cases hflag

/-- A short count leaves the stream behind the frames passed to
`send_data`. -/
theorem not_aligned_of_short_send {host : Host} {st st' : State} {e : Event}
    (h : AlignedInv st) (hshort : ¬ FullSend st e)
    (hstep : step host st e = some st') : ¬ Aligned st' := by
  simp only [FullSend, not_forall] at hshort
  obtain ⟨frame, n, rfl, hne⟩ := hshort
  rw [step, Option.map_eq_some_iff] at hstep
  obtain ⟨server, hserver, rfl⟩ := hstep
  cases move_of_step hserver with
  | sendData hconnection hpossible =>
      obtain ⟨bytes, hsocket⟩ := h.connected hconnection
      have hn : n ≤ 12 + frame.header.dataSize.toNat := hpossible.2
      intro haligned
      have hbytes : bytes ++ frame.wireBytes.take n =
          st.passed ++ frame.wireBytes :=
        haligned _ (by rw [sendData_accepted hsocket])
      rw [h.aligned bytes hsocket] at hbytes
      have htake := List.append_cancel_left hbytes
      have hlength := congrArg List.length htake
      rw [List.length_take, Frame.length_wireBytes] at hlength
      omega

/-- The stream stays aligned throughout a run exactly when every send of the
run that does not throw accepts the whole frame. -/
theorem aligned_iff_full_sends (host : Host) (es : List Event) :
    EachState (step host) Aligned init es ↔
      EachStep (step host) FullSend init es := by
  refine eachState_iff_eachStep (A := fun _ _ => True)
    (fun _ h => h.aligned) ?_ ?_ alignedInv_init
    (EachStep.of_forall (fun _ _ => trivial) _ _)
  · intro st e st' h _ hfull hstep
    exact alignedInv_step h hfull hstep
  · intro st e st' h _ hshort hstep
    exact not_aligned_of_short_send h hshort hstep

/-- A frame with one byte of payload. -/
def oneByteFrame : Frame where
  header := { timestamp := 0, dataSize := 1, dataId := 100 }
  payload := [7]
  size_eq := by decide

/-- When the socket accepts twelve of the thirteen bytes of a frame, the next
header starts one byte early. -/
theorem misaligned_after_short_send :
    ¬ ∀ host es, EachState (step host) Aligned init es := by
  intro hall
  have hrun := hall littleHost
    [.acceptSucceeds true, .sendData oneByteFrame (.accepted 12)]
  have hlast : Aligned
      ⟨⟨true, .connected (oneByteFrame.wireBytes.take 12), 0, false⟩,
        oneByteFrame.wireBytes⟩ := hrun.last rfl
  have hbytes := hlast _ rfl
  revert hbytes
  decide

end NetworkExperiments.Visensor.StreamAlignment
