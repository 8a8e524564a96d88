import NetworkExperiments.Support.Run
import NetworkExperiments.Visensor.DataHeader

/-!
# The TCP server of the visensor program

This file models `TcpServer`: one socket, an acceptor with a number of
outstanding `async_accept` calls, and `has_connection_`.  The events are the
completions of accepts and the `send_data` calls of the main loop, which are
made only while `has_connection_` is set.  `socket_.send` may accept fewer
bytes than it is offered; the count that it returns is ignored by `send_data`.
Nobody catches the exception of a completion handler, which ends the process.

`served_or_accepting` characterizes the runs in which the server always either
has a client or waits for one: those without a failing `async_accept`.
-/

namespace NetworkExperiments.Visensor

/-- The socket: closed, or connected with the bytes that it has accepted from
`send` since the client connected. -/
inductive Socket
  | closed
  | connected (accepted : List UInt8)
  deriving DecidableEq, Repr

/-- The result of `socket_.send`. -/
inductive SendResult
  | accepted (bytes : ℕ)
  | throws
  deriving DecidableEq, Repr

/-- `uncaught` is set when an exception has left a handler. -/
structure TcpServer where
  hasConnection : Bool
  socket : Socket
  outstandingAccepts : ℕ
  uncaught : Bool
  deriving DecidableEq, Repr

namespace TcpServer

/-- Close the socket and start another `async_accept`. -/
def acceptConnection (s : TcpServer) : TcpServer :=
  { s with
    hasConnection := false
    socket := .closed
    outstandingAccepts := s.outstandingAccepts + 1 }

/-- The server after its constructor. -/
def init : TcpServer :=
  acceptConnection
    { hasConnection := false, socket := .closed, outstandingAccepts := 0,
      uncaught := false }

/-- The completion handler.  It returns early on an error, and
`remote_endpoint()` throws when the client has gone already. -/
def handleAccept (s : TcpServer) (error clientPresent : Bool) : TcpServer :=
  if error then s
  else if clientPresent then { s with hasConnection := true }
  else { s with uncaught := true }

/-- The bytes that `send_data` offers to the socket. -/
def buffers (host : Host) (data : List UInt8) (header : DataHeader) :
    List UInt8 :=
  header.buffer host ++ asioBuffer data header.dataSize.toNat

/-- Send a header and data.  The number of bytes accepted is not looked at; an
exception starts waiting for the next client. -/
def sendData (host : Host) (s : TcpServer) (data : List UInt8)
    (header : DataHeader) : SendResult → TcpServer
  | .accepted n =>
      match s.socket with
      | .closed => s
      | .connected bytes =>
          { s with
            socket :=
              .connected (bytes ++ (buffers host data header).take n) }
  | .throws => acceptConnection s

theorem buffers_frame (host : Host) (frame : Frame) :
    buffers host frame.payload frame.header = frame.wireBytes := by
  have hpayload : asioBuffer frame.payload frame.header.dataSize.toNat =
      frame.payload := by
    apply List.take_of_length_le
    exact Nat.le_of_eq frame.size_eq
  rw [buffers, hpayload, DataHeader.buffer_eq_wireBytes, Frame.wireBytes]

/-- What can happen to the server. -/
inductive Event
  | acceptSucceeds (clientPresent : Bool)
  | acceptFails
  | sendData (frame : Frame) (result : SendResult)

/-- A send accepts between one and all of the bytes offered, or throws. -/
def SendResult.Possible (frame : Frame) : SendResult → Prop
  | .accepted n => 1 ≤ n ∧ n ≤ 12 + frame.header.dataSize.toNat
  | .throws => True

instance (frame : Frame) :
    ∀ result, Decidable (SendResult.Possible frame result)
  | .accepted _ => inferInstanceAs (Decidable (_ ∧ _))
  | .throws => inferInstanceAs (Decidable True)

/-- A step of a process that has not ended. -/
def step (host : Host) (s : TcpServer) (e : Event) : Option TcpServer :=
  if s.uncaught then none
  else
    match e with
    | .acceptSucceeds clientPresent =>
        if s.outstandingAccepts = 0 then none
        else
          some (handleAccept
            { s with
              socket := .connected []
              outstandingAccepts := s.outstandingAccepts - 1 }
            false clientPresent)
    | .acceptFails =>
        if s.outstandingAccepts = 0 then none
        else
          some (handleAccept
            { s with outstandingAccepts := s.outstandingAccepts - 1 }
            true false)
    | .sendData frame result =>
        if s.hasConnection ∧ SendResult.Possible frame result then
          some (s.sendData host frame.payload frame.header result)
        else none

/-- The steps of the server, one constructor for each way an event can go. -/
inductive Move (host : Host) (s : TcpServer) : Event → TcpServer → Prop
  | acceptSucceeds (haccepts : s.outstandingAccepts ≠ 0) :
      Move host s (.acceptSucceeds true) { s with
        hasConnection := true
        socket := .connected []
        outstandingAccepts := s.outstandingAccepts - 1 }
  | acceptThrows (haccepts : s.outstandingAccepts ≠ 0) :
      Move host s (.acceptSucceeds false) { s with
        socket := .connected []
        outstandingAccepts := s.outstandingAccepts - 1
        uncaught := true }
  | acceptFails (haccepts : s.outstandingAccepts ≠ 0) :
      Move host s .acceptFails { s with
        outstandingAccepts := s.outstandingAccepts - 1 }
  | sendData {frame : Frame} {result : SendResult}
      (hconnection : s.hasConnection = true)
      (hpossible : SendResult.Possible frame result) :
      Move host s (.sendData frame result)
        (s.sendData host frame.payload frame.header result)

theorem uncaught_of_step {host : Host} {s s' : TcpServer} {e : Event}
    (h : step host s e = some s') : s.uncaught = false := by
  unfold step at h
  split at h
  · contradiction
  · next hrunning => simpa using hrunning

theorem move_of_step {host : Host} {s s' : TcpServer} {e : Event}
    (h : step host s e = some s') : Move host s e s' := by
  have hrunning : ¬ s.uncaught = true := by simp [uncaught_of_step h]
  unfold step at h
  rw [if_neg hrunning] at h
  cases e with
  | acceptSucceeds clientPresent =>
      dsimp only at h
      split at h
      · contradiction
      · next haccepts =>
          obtain rfl := Option.some.inj h
          cases clientPresent with
          | true => exact .acceptSucceeds haccepts
          | false => exact .acceptThrows haccepts
  | acceptFails =>
      dsimp only at h
      split at h
      · contradiction
      · next haccepts => exact Option.some.inj h ▸ .acceptFails haccepts
  | sendData frame result =>
      dsimp only at h
      split at h
      · next hsend => exact Option.some.inj h ▸ .sendData hsend.1 hsend.2
      · contradiction

/-! ## Connection state -/

/-- There is a client, and no accept is outstanding. -/
def Serving (s : TcpServer) : Prop :=
  s.hasConnection = true ∧ (∃ bytes, s.socket = .connected bytes) ∧
    s.outstandingAccepts = 0

/-- There is no client, and exactly one accept is outstanding. -/
def Accepting (s : TcpServer) : Prop :=
  s.hasConnection = false ∧ s.outstandingAccepts = 1

/-- An accept that completes is not one that fails. -/
def NoFailedAccept (_ : TcpServer) (e : Event) : Prop :=
  e ≠ .acceptFails

theorem serving_or_accepting_iff_xor (s : TcpServer) :
    Xor (Serving s) (Accepting s) ↔ Serving s ∨ Accepting s := by
  constructor
  · rintro (⟨h, -⟩ | ⟨h, -⟩)
    · exact Or.inl h
    · exact Or.inr h
  · rintro (h | h)
    · exact Or.inl ⟨h, fun h' => absurd (h.1.symm.trans h'.1) (by decide)⟩
    · exact Or.inr ⟨h, fun h' => absurd (h.1.symm.trans h'.1) (by decide)⟩

theorem accepting_acceptConnection {s : TcpServer}
    (h : s.outstandingAccepts = 0) : Accepting (acceptConnection s) := by
  simp [Accepting, acceptConnection, h]

theorem accepting_init : Accepting init := ⟨rfl, rfl⟩

/-- Sending keeps the client, or gives it up and waits for another. -/
theorem serving_sendData {host : Host} {s : TcpServer} (h : Serving s)
    (frame : Frame) (result : SendResult) :
    Serving (s.sendData host frame.payload frame.header result) ∨
      Accepting (s.sendData host frame.payload frame.header result) := by
  cases result with
  | accepted n =>
      obtain ⟨hconnection, ⟨bytes, hsocket⟩, haccepts⟩ := h
      exact Or.inl (by simp [Serving, sendData, hsocket, hconnection, haccepts])
  | throws => exact Or.inr (accepting_acceptConnection h.2.2)

theorem serving_or_accepting_step {host : Host} {s s' : TcpServer} {e : Event}
    (h : Serving s ∨ Accepting s) (hfail : NoFailedAccept s e)
    (hstep : step host s e = some s') (hrunning : s'.uncaught = false) :
    Serving s' ∨ Accepting s' := by
  cases move_of_step hstep with
  | acceptFails => exact absurd rfl hfail
  | acceptThrows => exact absurd hrunning (by simp)
  | acceptSucceeds haccepts =>
      rcases h with h | h
      · exact absurd h.2.2 haccepts
      · exact Or.inl ⟨rfl, ⟨[], rfl⟩, by simp [h.2]⟩
  | sendData hconnection =>
      rcases h with h | h
      · exact serving_sendData h _ _
      · rw [h.1] at hconnection
        contradiction

theorem not_serving_or_accepting_of_acceptFails {host : Host}
    {s s' : TcpServer} (h : Serving s ∨ Accepting s)
    (hstep : step host s .acceptFails = some s') :
    s'.uncaught = false ∧ ¬ (Serving s' ∨ Accepting s') := by
  have hrunning := uncaught_of_step hstep
  cases move_of_step hstep with
  | acceptFails haccepts =>
      refine ⟨hrunning, ?_⟩
      rcases h with h | h
      · exact absurd h.2.2 haccepts
      · simp [Serving, Accepting, h.1, h.2]

/-- The server has a client or waits for one, throughout a run and as long as
the process has not ended, exactly when no `async_accept` of the run fails. -/
theorem served_or_accepting (host : Host) (es : List Event) :
    EventSystem.EachState (step host)
        (fun s => s.uncaught = false → Xor (Serving s) (Accepting s)) init
        es ↔
      EventSystem.EachStep (step host) NoFailedAccept init es := by
  simp only [serving_or_accepting_iff_xor]
  refine EventSystem.eachState_iff_eachStep (A := fun _ _ => True)
    (fun _ h => h) ?_ ?_ (fun _ => Or.inr accepting_init)
    (EventSystem.EachStep.of_forall (fun _ _ => trivial) _ _)
  · intro s e s' h _ hfail hstep hrunning
    exact serving_or_accepting_step (h (uncaught_of_step hstep)) hfail hstep
      hrunning
  · intro s e s' h _ hfail hstep hkept
    obtain rfl : e = .acceptFails := not_not.mp hfail
    obtain ⟨hrunning, hdeaf⟩ := not_serving_or_accepting_of_acceptFails
      (h (uncaught_of_step hstep)) hstep
    exact hdeaf (hkept hrunning)

/-- A 64-bit little-endian machine. -/
def littleHost : Host where
  byteOrder := .little
  sizeofVector := 24
  sizeofVector_ge := by decide

/-- One failing accept leaves the server without a client and deaf. -/
theorem deaf_after_failed_accept :
    ¬ ∀ host es, EventSystem.EachState (step host)
      (fun s => s.uncaught = false → Xor (Serving s) (Accepting s)) init
        es := by
  intro hall
  have hrun := hall littleHost [.acceptFails]
  have hdeaf : Xor (Serving ⟨false, .closed, 0, false⟩)
      (Accepting ⟨false, .closed, 0, false⟩) := hrun.last rfl rfl
  rw [serving_or_accepting_iff_xor] at hdeaf
  simp [Serving, Accepting] at hdeaf

end TcpServer

end NetworkExperiments.Visensor
