import NetworkExperiments.SlamServer.SharedMemory
import NetworkExperiments.Support.Run

/-!
# The threads of the slam_sensor_server program

This file models the loop of `main`, with `TcpServer::send_data` and
`TcpServer::accept_connection` statement by statement, next to the
`handle_accept` calls of the `io_service` thread, the clients and the
producers that set the new-data flags.  Every statement is one event, so a
list of events is an interleaving of all these parties.

What is in the memory regions does not decide which statements run; of a
region there is only its flag here.
-/

namespace NetworkExperiments.SlamServer

/-- The client at the other end of an accepted connection. -/
inductive Peer
  | connected
  | disconnected
  | reset
  deriving DecidableEq, Repr

inductive Socket
  | closed
  | accepted (peer : Peer)
  deriving DecidableEq, Repr

namespace Socket

/-- The socket holds an accepted client. -/
def IsAccepted : Socket → Prop
  | closed => False
  | accepted _ => True

instance : DecidablePred IsAccepted
  | closed => inferInstanceAs (Decidable False)
  | accepted _ => inferInstanceAs (Decidable True)

/-- The peer can still be named and written to.  Otherwise the socket is
closed or the peer has reset the connection, and both `remote_endpoint()` and
`write` throw. -/
def Alive : Socket → Prop
  | closed => False
  | accepted peer => peer ≠ .reset

instance : DecidablePred Alive
  | closed => inferInstanceAs (Decidable False)
  | accepted _ => inferInstanceAs (Decidable (_ ≠ _))

/-- What the client does to its end of the connection. -/
def setPeer (peer : Peer) : Socket → Socket
  | closed => closed
  | accepted _ => accepted peer

theorem isAccepted_setPeer {socket : Socket} (peer : Peer) :
    (socket.setPeer peer).IsAccepted ↔ socket.IsAccepted := by
  cases socket <;> rfl

end Socket

/-- Where the `io_service` thread is in `handle_accept`: not in it, or before
one of its two statements. -/
inductive Handler
  | idle
  | remoteEndpoint
  | setConnection
  deriving DecidableEq, Repr

structure TcpServer where
  hasConnection : Bool
  socket : Socket
  outstandingAccepts : ℕ
  handler : Handler
  deriving DecidableEq, Repr

/-- The regions that a sweep of the loop looks at, in their order. -/
inductive Item
  | camera
  | imu
  | config
  deriving DecidableEq, Repr

/-- The region of an item in the iteration for camera `i`. -/
def Item.region (i : ℕ) : Item → Region
  | camera => .cam i
  | imu => .imu
  | config => .config

/-- The statement of the main thread that is next: those of the loop, and the
three of `accept_connection`, which is called when a write has thrown.
`sending` is inside `send_data`. -/
inductive Pc
  | head
  | getEndpoint
  | check (i : ℕ) (item : Item)
  | send (i : ℕ) (item : Item)
  | sending (i : ℕ) (item : Item)
  | close (i : ℕ) (item : Item)
  | asyncAccept (i : ℕ) (item : Item)
  | clearConnection (i : ℕ) (item : Item)
  | clearNewData (i : ℕ) (item : Item)
  deriving DecidableEq, Repr

namespace Pc

/-- Between `async_accept` and `has_connection_ = false`. -/
def IsClearConnection : Pc → Prop
  | clearConnection _ _ => True
  | _ => False

instance : DecidablePred IsClearConnection
  | clearConnection _ _ => inferInstanceAs (Decidable True)
  | head | getEndpoint | check _ _ | send _ _ | sending _ _ | close _ _
  | asyncAccept _ _ | clearNewData _ _ => inferInstanceAs (Decidable False)

/-- Inside `TcpServer::send_data`, before its `write` ends. -/
def IsSendingTcp : Pc → Prop
  | sending _ item => item ≠ .camera
  | _ => False

instance : DecidablePred IsSendingTcp
  | sending _ _ => inferInstanceAs (Decidable (_ ≠ _))
  | head | getEndpoint | check _ _ | send _ _ | close _ _ | asyncAccept _ _
  | clearConnection _ _ | clearNewData _ _ =>
      inferInstanceAs (Decidable False)

/-- Inside `UdpServer::send_data`. -/
def IsSendingUdp : Pc → Prop
  | sending _ item => item = .camera
  | _ => False

instance : DecidablePred IsSendingUdp
  | sending _ _ => inferInstanceAs (Decidable (_ = _))
  | head | getEndpoint | check _ _ | send _ _ | close _ _ | asyncAccept _ _
  | clearConnection _ _ | clearNewData _ _ =>
      inferInstanceAs (Decidable False)

end Pc

/-- The test of the `for` loop. -/
def forCondition (numCams i : ℕ) : Pc :=
  if i < numCams then .check i .camera else .head

/-- What follows an item of the iteration for camera `i`. -/
def afterItem (numCams i : ℕ) : Item → Pc
  | .camera => .check i .imu
  | .imu => .check i .config
  | .config => forCondition numCams (i + 1)

inductive Thread
  | main
  | ioService
  deriving DecidableEq, Repr

/-- The state of the program.  `uncaught` is the thread that an exception has
left: the `while(1)` loop, or `handle_accept`.  The process ends then. -/
structure State where
  tcpServer : TcpServer
  pc : Pc
  newDataAvailable : Region → Bool
  uncaught : Option Thread

/-- The next statement of one of the parties.  A send ends by succeeding or by
an exception; an accept completes with or without an error. -/
inductive Event
  | main
  | sendEnds (succeeds : Bool)
  | acceptCompletes (error : Bool)
  | handleAccept
  | clientDisconnects
  | clientResets
  | setNewDataAvailable (region : Region)
  deriving DecidableEq, Repr

/-- The program after the constructors: `accept_connection` has run once. -/
def init (newDataAvailable : Region → Bool) : State where
  tcpServer := ⟨false, .closed, 1, .idle⟩
  pc := .head
  newDataAvailable := newDataAvailable
  uncaught := none

/-- A statement of the main thread. -/
def mainStep (numCams : ℕ) (s : State) : Option State :=
  match s.pc with
  | .head =>
      some { s with
        pc := if s.tcpServer.hasConnection then .getEndpoint else .head }
  | .getEndpoint =>
      if s.tcpServer.socket.Alive then
        some { s with pc := forCondition numCams 0 }
      else some { s with uncaught := some .main }
  | .check i item =>
      some { s with
        pc :=
          if s.newDataAvailable (item.region i) then .send i item
          else afterItem numCams i item }
  | .send i item => some { s with pc := .sending i item }
  | .sending _ _ => none
  | .close i item =>
      some { s with
        tcpServer := { s.tcpServer with socket := .closed }
        pc := .asyncAccept i item }
  | .asyncAccept i item =>
      some { s with
        tcpServer := { s.tcpServer with
          outstandingAccepts := s.tcpServer.outstandingAccepts + 1 }
        pc := .clearConnection i item }
  | .clearConnection i item =>
      some { s with
        tcpServer := { s.tcpServer with hasConnection := false }
        pc := .clearNewData i item }
  | .clearNewData i item =>
      some { s with
        newDataAvailable :=
          Function.update s.newDataAvailable (item.region i) false
        pc := afterItem numCams i item }

/-- The end of `UdpServer::send_data` or of the `write` in
`TcpServer::send_data`.  Only the latter is in a `try` block; it cannot succeed
when there is nobody to write to. -/
def sendEnds (s : State) (succeeds : Bool) : Option State :=
  match s.pc with
  | .sending i .camera =>
      if succeeds then some { s with pc := .clearNewData i .camera }
      else some { s with uncaught := some .main }
  | .sending i item =>
      if succeeds then
        if s.tcpServer.socket.Alive then
          some { s with pc := .clearNewData i item }
        else none
      else some { s with pc := .close i item }
  | _ => none

/-- An outstanding accept completes.  `handle_accept` returns early on an
error. -/
def acceptCompletes (t : TcpServer) (error : Bool) : Option TcpServer :=
  if t.outstandingAccepts = 0 ∨ t.handler ≠ .idle then none
  else if error then
    some { t with outstandingAccepts := t.outstandingAccepts - 1 }
  else
    some { t with
      socket := .accepted .connected
      outstandingAccepts := t.outstandingAccepts - 1
      handler := .remoteEndpoint }

/-- A statement of `handle_accept`. -/
def handleAccept (s : State) : Option State :=
  match s.tcpServer.handler with
  | .idle => none
  | .remoteEndpoint =>
      if s.tcpServer.socket.Alive then
        some { s with
          tcpServer := { s.tcpServer with handler := .setConnection } }
      else some { s with uncaught := some .ioService }
  | .setConnection =>
      some { s with
        tcpServer := { s.tcpServer with
          hasConnection := true
          handler := .idle } }

/-- One event, in a process that has not ended. -/
def step (numCams : ℕ) (s : State) (e : Event) : Option State :=
  if s.uncaught.isSome then none
  else
    match e with
    | .main => mainStep numCams s
    | .sendEnds succeeds => sendEnds s succeeds
    | .acceptCompletes error =>
        (acceptCompletes s.tcpServer error).map fun t =>
          { s with tcpServer := t }
    | .handleAccept => handleAccept s
    | .clientDisconnects =>
        some { s with
          tcpServer := { s.tcpServer with
            socket := s.tcpServer.socket.setPeer .disconnected } }
    | .clientResets =>
        some { s with
          tcpServer := { s.tcpServer with
            socket := s.tcpServer.socket.setPeer .reset } }
    | .setNewDataAvailable region =>
        some { s with
          newDataAvailable := Function.update s.newDataAvailable region true }

/-! ## What a step can do -/

/-- The steps of the program, one constructor for each statement and each way
it can end. -/
inductive Move (numCams : ℕ) (s : State) : Event → State → Prop
  | head (hpc : s.pc = .head) :
      Move numCams s .main { s with
        pc := if s.tcpServer.hasConnection then .getEndpoint else .head }
  | getEndpoint (hpc : s.pc = .getEndpoint)
      (halive : s.tcpServer.socket.Alive) :
      Move numCams s .main { s with pc := forCondition numCams 0 }
  | getEndpointThrows (hpc : s.pc = .getEndpoint)
      (hdead : ¬ s.tcpServer.socket.Alive) :
      Move numCams s .main { s with uncaught := some .main }
  | check {i : ℕ} {item : Item} (hpc : s.pc = .check i item) :
      Move numCams s .main { s with
        pc :=
          if s.newDataAvailable (item.region i) then .send i item
          else afterItem numCams i item }
  | send {i : ℕ} {item : Item} (hpc : s.pc = .send i item) :
      Move numCams s .main { s with pc := .sending i item }
  | close {i : ℕ} {item : Item} (hpc : s.pc = .close i item) :
      Move numCams s .main { s with
        tcpServer := { s.tcpServer with socket := .closed }
        pc := .asyncAccept i item }
  | asyncAccept {i : ℕ} {item : Item} (hpc : s.pc = .asyncAccept i item) :
      Move numCams s .main { s with
        tcpServer := { s.tcpServer with
          outstandingAccepts := s.tcpServer.outstandingAccepts + 1 }
        pc := .clearConnection i item }
  | clearConnection {i : ℕ} {item : Item}
      (hpc : s.pc = .clearConnection i item) :
      Move numCams s .main { s with
        tcpServer := { s.tcpServer with hasConnection := false }
        pc := .clearNewData i item }
  | clearNewData {i : ℕ} {item : Item} (hpc : s.pc = .clearNewData i item) :
      Move numCams s .main { s with
        newDataAvailable :=
          Function.update s.newDataAvailable (item.region i) false
        pc := afterItem numCams i item }
  | sent {i : ℕ} {item : Item} (hpc : s.pc = .sending i item)
      (halive : item ≠ .camera → s.tcpServer.socket.Alive) :
      Move numCams s (.sendEnds true) { s with pc := .clearNewData i item }
  | udpThrows {i : ℕ} (hpc : s.pc = .sending i .camera) :
      Move numCams s (.sendEnds false) { s with uncaught := some .main }
  | writeThrows {i : ℕ} {item : Item} (hpc : s.pc = .sending i item)
      (hitem : item ≠ .camera) :
      Move numCams s (.sendEnds false) { s with pc := .close i item }
  | acceptSucceeds (haccepts : s.tcpServer.outstandingAccepts ≠ 0)
      (hidle : s.tcpServer.handler = .idle) :
      Move numCams s (.acceptCompletes false) { s with
        tcpServer := { s.tcpServer with
          socket := .accepted .connected
          outstandingAccepts := s.tcpServer.outstandingAccepts - 1
          handler := .remoteEndpoint } }
  | acceptFails (haccepts : s.tcpServer.outstandingAccepts ≠ 0)
      (hidle : s.tcpServer.handler = .idle) :
      Move numCams s (.acceptCompletes true) { s with
        tcpServer := { s.tcpServer with
          outstandingAccepts := s.tcpServer.outstandingAccepts - 1 } }
  | remoteEndpoint (hhandler : s.tcpServer.handler = .remoteEndpoint)
      (halive : s.tcpServer.socket.Alive) :
      Move numCams s .handleAccept { s with
        tcpServer := { s.tcpServer with handler := .setConnection } }
  | remoteEndpointThrows (hhandler : s.tcpServer.handler = .remoteEndpoint)
      (hdead : ¬ s.tcpServer.socket.Alive) :
      Move numCams s .handleAccept { s with uncaught := some .ioService }
  | setConnection (hhandler : s.tcpServer.handler = .setConnection) :
      Move numCams s .handleAccept { s with
        tcpServer := { s.tcpServer with
          hasConnection := true
          handler := .idle } }
  | clientDisconnects :
      Move numCams s .clientDisconnects { s with
        tcpServer := { s.tcpServer with
          socket := s.tcpServer.socket.setPeer .disconnected } }
  | clientResets :
      Move numCams s .clientResets { s with
        tcpServer := { s.tcpServer with
          socket := s.tcpServer.socket.setPeer .reset } }
  | setNewDataAvailable (region : Region) :
      Move numCams s (.setNewDataAvailable region) { s with
        newDataAvailable := Function.update s.newDataAvailable region true }

variable {numCams : ℕ} {s s' : State} {e : Event}

theorem move_of_mainStep (h : mainStep numCams s = some s') :
    Move numCams s .main s' := by
  unfold mainStep at h
  split at h
  · next hpc => exact Option.some.inj h ▸ Move.head hpc
  · next hpc =>
      split at h
      · next halive => exact Option.some.inj h ▸ Move.getEndpoint hpc halive
      · next hdead => exact Option.some.inj h ▸ Move.getEndpointThrows hpc hdead
  · next hpc => exact Option.some.inj h ▸ Move.check hpc
  · next hpc => exact Option.some.inj h ▸ Move.send hpc
  · contradiction
  · next hpc => exact Option.some.inj h ▸ Move.close hpc
  · next hpc => exact Option.some.inj h ▸ Move.asyncAccept hpc
  · next hpc => exact Option.some.inj h ▸ Move.clearConnection hpc
  · next hpc => exact Option.some.inj h ▸ Move.clearNewData hpc

theorem move_of_sendEnds {succeeds : Bool}
    (h : sendEnds s succeeds = some s') :
    Move numCams s (.sendEnds succeeds) s' := by
  unfold sendEnds at h
  split at h
  · next i hpc =>
      cases succeeds with
      | true =>
          obtain rfl : _ = s' := by simpa using h
          exact Move.sent hpc (fun hitem => absurd rfl hitem)
      | false =>
          obtain rfl : _ = s' := by simpa using h
          exact Move.udpThrows hpc
  · next i item hitem hpc =>
      cases succeeds with
      | true =>
          simp only [if_true] at h
          split at h
          · next halive =>
              exact Option.some.inj h ▸ Move.sent hpc (fun _ => halive)
          · contradiction
      | false =>
          obtain rfl : _ = s' := by simpa using h
          exact Move.writeThrows hpc (fun hcamera => hitem hcamera)
  · contradiction

theorem move_of_acceptCompletes {error : Bool} {t : TcpServer}
    (h : acceptCompletes s.tcpServer error = some t) :
    Move numCams s (.acceptCompletes error) { s with tcpServer := t } := by
  unfold acceptCompletes at h
  split at h
  · contradiction
  · next hready =>
      obtain ⟨haccepts, hidle⟩ := not_or.mp hready
      have hidle : s.tcpServer.handler = .idle := not_not.mp hidle
      cases error with
      | true =>
          obtain rfl : _ = t := by simpa using h
          exact Move.acceptFails haccepts hidle
      | false =>
          obtain rfl : _ = t := by simpa using h
          exact Move.acceptSucceeds haccepts hidle

theorem move_of_handleAccept (h : handleAccept s = some s') :
    Move numCams s .handleAccept s' := by
  unfold handleAccept at h
  split at h
  · contradiction
  · next hhandler =>
      split at h
      · next halive =>
          exact Option.some.inj h ▸ Move.remoteEndpoint hhandler halive
      · next hdead =>
          exact Option.some.inj h ▸ Move.remoteEndpointThrows hhandler hdead
  · next hhandler =>
      exact Option.some.inj h ▸ Move.setConnection hhandler

/-- Every step of the program is a move of a process that has not ended. -/
theorem move_of_step (h : step numCams s e = some s') :
    s.uncaught = none ∧ Move numCams s e s' := by
  unfold step at h
  split at h
  · contradiction
  · next hrunning =>
      refine ⟨by simpa using hrunning, ?_⟩
      cases e with
      | main => exact move_of_mainStep h
      | sendEnds succeeds => exact move_of_sendEnds h
      | acceptCompletes error =>
          rw [Option.map_eq_some_iff] at h
          obtain ⟨t, ht, rfl⟩ := h
          exact move_of_acceptCompletes ht
      | handleAccept => exact move_of_handleAccept h
      | clientDisconnects => exact Option.some.inj h ▸ Move.clientDisconnects
      | clientResets => exact Option.some.inj h ▸ Move.clientResets
      | setNewDataAvailable region =>
          exact Option.some.inj h ▸ Move.setNewDataAvailable region

end NetworkExperiments.SlamServer
