import NetworkExperiments.SlamServer.Loop

/-!
# A client that does not read its connection

The loop writes the imu and the config region to the client's TCP connection,
in the thread that also sends the images.  `test_client` opens that connection,
to learn the address of the server, and then receives UDP packages only.  What
is written stays in the buffers of the connection.  A `write` that no longer
fits puts into them what still fits, and returns only when the connection is
lost.

`unread_stream` shows what this means for a run: the regions that are sent, and
the part of the one that is being written, are what the buffers hold; the main
thread is held up by nothing but full buffers; and once a write has begun that
does not fit, no image and no region is sent any more.
-/

namespace NetworkExperiments.SlamServer

namespace Pc

/-- Inside `TcpServer::accept_connection`, or before the call of it. -/
def IsReconnecting : Pc → Prop
  | close _ _ | asyncAccept _ _ | clearConnection _ _ => True
  | _ => False

end Pc

theorem not_isReconnecting_forCondition (numCams i : ℕ) :
    ¬ (forCondition numCams i).IsReconnecting := by
  unfold forCondition
  split <;> exact id

theorem not_isReconnecting_afterItem (numCams i : ℕ) (item : Item) :
    ¬ (afterItem numCams i item).IsReconnecting := by
  cases item with
  | camera | imu => exact id
  | config => exact not_isReconnecting_forCondition numCams (i + 1)

theorem Socket.alive_setPeer_disconnected {socket : Socket}
    (h : socket.Alive) : (socket.setPeer .disconnected).Alive := by
  cases socket with
  | closed => exact h
  | accepted => exact nofun

namespace UnreadStream

open EventSystem

/-- A connection that is not read: the bytes that the buffers of both ends
take, and the sizes of the regions that are written to it. -/
structure Connection where
  capacity : ℕ
  imuSize : ℕ
  configSize : ℕ
  deriving DecidableEq, Repr

namespace Connection

/-- The bytes that sending an item puts on the connection.  An image is not
sent over it. -/
def size (c : Connection) : Item → ℕ
  | .camera => 0
  | .imu => c.imuSize
  | .config => c.configSize

/-- The bytes of the send that is in progress. -/
def written (c : Connection) : Pc → ℕ
  | .sending _ item => c.size item
  | _ => 0

end Connection

/-- The program, the bytes that the present connection has taken, how many of
them are of the `write` in progress, and how many sends of each item have been
completed. -/
structure Observed where
  program : State
  accepted : ℕ
  progress : ℕ
  sends : Item → ℕ

def init (newDataAvailable : Region → Bool) : Observed where
  program := SlamServer.init newDataAvailable
  accepted := 0
  progress := 0
  sends := fun _ => 0

/-- A step of the program, or of the `write` in progress, of which the connection
takes some more bytes. -/
inductive Action
  | program (e : Event)
  | takes (n : ℕ)
  deriving DecidableEq, Repr

/-- The `write` of `TcpServer::send_data` returns when the connection has taken
all bytes, and throws when the connection is lost. -/
def WriteMayEnd (c : Connection) (o : Observed) : Bool → Prop
  | true => o.progress = c.written o.program.pc
  | false => ¬ o.program.tcpServer.socket.Alive

instance (c : Connection) (o : Observed) : DecidablePred (WriteMayEnd c o)
  | true => inferInstanceAs (Decidable (_ = _))
  | false => inferInstanceAs (Decidable (¬ _))

/-- The connection takes no more bytes than the `write` has left, and than there
is room for. -/
def MayHappen (c : Connection) (o : Observed) : Action → Prop
  | .program (.sendEnds succeeds) =>
      o.program.pc.IsSendingTcp → WriteMayEnd c o succeeds
  | .program _ => True
  | .takes n =>
      o.program.uncaught = none ∧ 0 < n ∧
        o.progress + n ≤ c.written o.program.pc ∧
          o.accepted + n ≤ c.capacity

instance (c : Connection) (o : Observed) : DecidablePred (MayHappen c o)
  | .program (.sendEnds _) => inferInstanceAs (Decidable (_ → _))
  | .takes _ => inferInstanceAs (Decidable (_ ∧ _))
  | .program .main | .program (.acceptCompletes _) | .program .handleAccept
  | .program .clientDisconnects | .program .clientResets
  | .program (.setNewDataAvailable _) => inferInstanceAs (Decidable True)

def programAfter (numCams : ℕ) (o : Observed) : Action → Option State
  | .program e => SlamServer.step numCams o.program e
  | .takes _ => some o.program

/-- A new connection has taken nothing yet. -/
def acceptedAfter (o : Observed) : Action → ℕ
  | .program (.acceptCompletes false) => 0
  | .program _ => o.accepted
  | .takes n => o.accepted + n

def progressAfter (o : Observed) : Action → ℕ
  | .program (.sendEnds _) => 0
  | .program _ => o.progress
  | .takes n => o.progress + n

def sendsAfter (o : Observed) : Action → Item → ℕ
  | .program (.sendEnds true) =>
      match o.program.pc with
      | .sending _ item => Function.update o.sends item (o.sends item + 1)
      | _ => o.sends
  | _ => o.sends

def step (c : Connection) (numCams : ℕ) (o : Observed) (a : Action) :
    Option Observed :=
  if MayHappen c o a then
    (programAfter numCams o a).map fun program =>
      { program := program
        accepted := acceptedAfter o a
        progress := progressAfter o a
        sends := sendsAfter o a }
  else none

/-- The main thread is in a `write` that does not fit into the connection. -/
def Exceeds (c : Connection) (o : Observed) : Prop :=
  c.capacity + o.progress < o.accepted + c.written o.program.pc

instance (c : Connection) : DecidablePred (Exceeds c) := fun _ =>
  inferInstanceAs (Decidable (_ < _))

/-- The main thread is in a `write`, and the connection is full. -/
def Blocked (c : Connection) (o : Observed) : Prop :=
  o.progress < c.written o.program.pc ∧ o.accepted = c.capacity

instance (c : Connection) : DecidablePred (Blocked c) := fun _ =>
  inferInstanceAs (Decidable (_ ∧ _))

/-- The statements of the main thread, and the course and the ends of its
sends. -/
def IsMain : Action → Prop
  | .program .main | .program (.sendEnds _) | .takes _ => True
  | .program _ => False

/-- The main thread can go on. -/
def MainCanStep (c : Connection) (numCams : ℕ) (o : Observed) : Prop :=
  ∃ a, IsMain a ∧ (step c numCams o a).isSome

/-- The regions that have been sent, and the part of the one that is being
written, are what the connection has taken, and it has taken no more than it
can. -/
def Accounted (c : Connection) (o : Observed) : Prop :=
  o.sends .imu * c.imuSize + o.sends .config * c.configSize + o.progress =
      o.accepted ∧
    o.accepted ≤ c.capacity

/-- No send has ended since `o`, and the main thread is still in the `write`
that does not fit. -/
structure SilentSince (c : Connection) (o o' : Observed) : Prop where
  pc : o'.program.pc = o.program.pc
  sends : o'.sends = o.sends
  exceeds : Exceeds c o'

/-- The client does not reset the connection, as long as it runs. -/
def ClientStays (_ : Observed) (a : Action) : Prop :=
  a ≠ .program .clientResets

instance (o : Observed) : DecidablePred (ClientStays o) := fun _ =>
  inferInstanceAs (Decidable (_ ≠ _))

/-! ## One connection -/

/-- No client has been accepted yet. -/
structure Unconnected (o : Observed) : Prop where
  pc : o.program.pc = .head
  hasConnection : o.program.tcpServer.hasConnection = false
  socket : o.program.tcpServer.socket = .closed
  outstandingAccepts : o.program.tcpServer.outstandingAccepts ≤ 1
  handler : o.program.tcpServer.handler = .idle
  accepted : o.accepted = 0
  sends : ∀ item, o.sends item = 0

/-- The only client of the run has been accepted. -/
structure Connected (o : Observed) : Prop where
  alive : o.program.tcpServer.socket.Alive
  outstandingAccepts : o.program.tcpServer.outstandingAccepts = 0
  pc : ¬ o.program.pc.IsReconnecting

/-- The invariant of a run in which the client does not reset the
connection. -/
structure StreamInv (c : Connection) (o : Observed) : Prop where
  accounted : Accounted c o
  progress_le : o.progress ≤ c.written o.program.pc
  connection : Unconnected o ∨ Connected o

theorem streamInv_init (c : Connection) (newDataAvailable : Region → Bool) :
    StreamInv c (init newDataAvailable) where
  accounted := ⟨by simp [init], Nat.zero_le _⟩
  progress_le := Nat.zero_le _
  connection := Or.inl ⟨rfl, rfl, rfl, Nat.le_refl 1, rfl, rfl, fun _ => rfl⟩

theorem StreamInv.connected {c : Connection} {o : Observed}
    (h : StreamInv c o) (hpc : o.program.pc ≠ .head) : Connected o :=
  h.connection.resolve_left fun hno => hpc hno.pc

theorem StreamInv.exists_write {c : Connection} {o : Observed}
    (h : StreamInv c o) (hwritten : 0 < c.written o.program.pc) :
    Connected o ∧ o.program.pc.IsSendingTcp ∧
      ∃ i item, o.program.pc = .sending i item := by
  cases hpc : o.program.pc with
  | sending i item =>
      rw [hpc] at hwritten
      refine ⟨h.connected (by simp [hpc]), ?_, i, item, rfl⟩
      rintro rfl
      exact absurd hwritten (Nat.lt_irrefl 0)
  | _ =>
      rw [hpc] at hwritten
      exact absurd hwritten (Nat.lt_irrefl 0)

theorem StreamInv.goto {c : Connection} {o : Observed} (h : StreamInv c o)
    (hpc : o.program.pc ≠ .head) (hwritten : c.written o.program.pc = 0)
    {s' : State} (hserver : s'.tcpServer = o.program.tcpServer)
    (hloop : ¬ s'.pc.IsReconnecting) :
    StreamInv c { o with program := s' } where
  accounted := h.accounted
  progress_le := by
    have hzero : o.progress = 0 := Nat.le_zero.mp (hwritten ▸ h.progress_le)
    rw [hzero]
    exact Nat.zero_le _
  connection := by
    obtain ⟨halive, haccepts, -⟩ := h.connected hpc
    rw [← hserver] at halive haccepts
    exact Or.inr ⟨halive, haccepts, hloop⟩

theorem streamInv_takes {c : Connection} {o : Observed} (h : StreamInv c o)
    {n : ℕ} (hmay : MayHappen c o (.takes n)) :
    StreamInv c { o with
      accepted := o.accepted + n, progress := o.progress + n } := by
  obtain ⟨-, hpos, hprogress, hroom⟩ := hmay
  obtain ⟨hsum, -⟩ := h.accounted
  obtain ⟨hyes, -, -⟩ := h.exists_write (by omega)
  refine ⟨⟨?_, hroom⟩, hprogress, Or.inr { hyes with }⟩
  dsimp only
  omega

theorem streamInv_sent {c : Connection} {o : Observed} (h : StreamInv c o)
    {i : ℕ} {item : Item} (hpc : o.program.pc = .sending i item)
    (hall : o.progress = c.size item) :
    StreamInv c { o with
      program := { o.program with pc := .clearNewData i item }
      progress := 0
      sends := Function.update o.sends item (o.sends item + 1) } where
  accounted := by
    obtain ⟨hsum, hle⟩ := h.accounted
    refine ⟨?_, hle⟩
    rw [hall] at hsum
    cases item with
    | camera => exact hsum
    | imu | config =>
        simp only [Function.update_self, ne_eq, reduceCtorEq,
          not_false_eq_true, Function.update_of_ne, Connection.size] at hsum ⊢
        rw [Nat.succ_mul, ← hsum]
        omega
  progress_le := Nat.zero_le _
  connection := by
    obtain ⟨halive, haccepts, -⟩ := h.connected (by simp [hpc])
    exact Or.inr ⟨halive, haccepts, id⟩

theorem streamInv_acceptSucceeds {c : Connection} {o : Observed}
    (h : StreamInv c o)
    (haccepts : o.program.tcpServer.outstandingAccepts ≠ 0) :
    StreamInv c { o with
      program := { o.program with
        tcpServer := { o.program.tcpServer with
          socket := .accepted .connected
          outstandingAccepts := o.program.tcpServer.outstandingAccepts - 1
          handler := .remoteEndpoint } }
      accepted := 0 } := by
  rcases h.connection with hno | hyes
  · have hone := hno.outstandingAccepts
    have hprogress : o.progress = 0 := by
      have hle := h.progress_le
      rw [hno.pc] at hle
      exact Nat.le_zero.mp hle
    refine ⟨⟨by simp [hno.sends, hprogress], Nat.zero_le _⟩, h.progress_le,
      Or.inr ⟨nofun, ?_, ?_⟩⟩
    · dsimp only
      omega
    · dsimp only
      rw [hno.pc]
      exact id
  · exact absurd hyes.outstandingAccepts haccepts

/-- A change of the server by which a client that has been accepted is neither
lost nor replaced. -/
theorem StreamInv.server {c : Connection} {o : Observed} (h : StreamInv c o)
    {t : TcpServer}
    (hno : Unconnected o → t.hasConnection = false ∧ t.socket = .closed ∧
      t.outstandingAccepts ≤ 1 ∧ t.handler = .idle)
    (hyes : Connected o → t.socket.Alive ∧ t.outstandingAccepts = 0) :
    StreamInv c { o with program := { o.program with tcpServer := t } } where
  accounted := h.accounted
  progress_le := h.progress_le
  connection := by
    rcases h.connection with hun | hcon
    · obtain ⟨hconnection, hsocket, haccepts, hhandler⟩ := hno hun
      exact Or.inl ⟨hun.pc, hconnection, hsocket, haccepts, hhandler,
        hun.accepted, hun.sends⟩
    · obtain ⟨halive, haccepts⟩ := hyes hcon
      exact Or.inr ⟨halive, haccepts, hcon.pc⟩

theorem step_cases {c : Connection} {numCams : ℕ} {o o' : Observed}
    {a : Action} (h : step c numCams o a = some o') :
    MayHappen c o a ∧
      ((∃ n, a = .takes n ∧ o' = { o with
          accepted := o.accepted + n, progress := o.progress + n }) ∨
        ∃ e s', a = .program e ∧ Move numCams o.program e s' ∧
          o' = ⟨s', acceptedAfter o a, progressAfter o a,
            sendsAfter o a⟩) := by
  rw [step, Option.ite_none_right_eq_some, Option.map_eq_some_iff] at h
  obtain ⟨hmay, s', hs', rfl⟩ := h
  refine ⟨hmay, ?_⟩
  cases a with
  | takes n =>
      obtain rfl := Option.some.inj hs'
      exact Or.inl ⟨n, rfl, rfl⟩
  | program e =>
      obtain ⟨-, hmove⟩ := move_of_step hs'
      exact Or.inr ⟨e, s', rfl, hmove, rfl⟩

/-- Every step keeps the invariant, unless the client resets the
connection. -/
theorem streamInv_step {c : Connection} {numCams : ℕ} {o o' : Observed}
    {a : Action} (h : StreamInv c o) (hstays : ClientStays o a)
    (hstep : step c numCams o a = some o') : StreamInv c o' := by
  obtain ⟨hmay, ⟨n, rfl, rfl⟩ | ⟨e, s', rfl, hmove, rfl⟩⟩ := step_cases hstep
  · exact streamInv_takes h hmay
  cases hmove with
  | head hpc =>
      refine ⟨h.accounted, ?_, h.connection.imp ?_ ?_⟩
      · have hle := h.progress_le
        rw [hpc] at hle
        exact hle.trans (Nat.zero_le _)
      · intro hno
        exact { hno with pc := by simp [hno.hasConnection] }
      · intro hyes
        refine { hyes with pc := ?_ }
        dsimp only
        split <;> exact id
  | getEndpoint hpc _ =>
      exact h.goto (by simp [hpc]) (by rw [hpc]; rfl) rfl
        (not_isReconnecting_forCondition numCams 0)
  | getEndpointThrows hpc hdead =>
      exact absurd (h.connected (by simp [hpc])).alive hdead
  | @check i item hpc =>
      refine h.goto (by simp [hpc]) (by rw [hpc]; rfl) rfl ?_
      dsimp only
      split
      · exact id
      · exact not_isReconnecting_afterItem numCams i item
  | send hpc => exact h.goto (by simp [hpc]) (by rw [hpc]; rfl) rfl id
  | close hpc | asyncAccept hpc | clearConnection hpc =>
      have hyes := h.connected (by simp [hpc])
      exact absurd (by rw [hpc]; trivial) hyes.pc
  | @clearNewData i item hpc =>
      exact h.goto (by simp [hpc]) (by rw [hpc]; rfl) rfl
        (not_isReconnecting_afterItem numCams i item)
  | @sent i item hpc _ =>
      simp only [acceptedAfter, progressAfter, sendsAfter, hpc]
      refine streamInv_sent h hpc ?_
      by_cases hitem : item = .camera
      · have hle := h.progress_le
        rw [hpc, hitem] at hle
        rw [hitem]
        exact Nat.le_zero.mp hle
      · have hall := hmay (by rw [hpc]; exact hitem)
        rwa [WriteMayEnd, hpc] at hall
  | udpThrows hpc =>
      have hle := h.progress_le
      rw [hpc] at hle
      have hzero : o.progress = 0 := Nat.le_zero.mp hle
      have hgoto : StreamInv c { o with
          program := { o.program with uncaught := some .main } } :=
        h.goto (by simp [hpc]) (by rw [hpc]; rfl) rfl (by rw [hpc]; exact id)
      rw [hzero] at hgoto
      exact hgoto
  | writeThrows hpc hitem =>
      -- only the `write` on a lost connection throws
      have hyes := h.connected (by simp [hpc])
      exact absurd hyes.alive (hmay (by rw [hpc]; exact hitem))
  | acceptSucceeds haccepts _ => exact streamInv_acceptSucceeds h haccepts
  | acceptFails haccepts _ =>
      refine h.server (fun hno => ?_) fun hyes => ?_
      · exact ⟨hno.hasConnection, hno.socket,
          (Nat.sub_le _ _).trans hno.outstandingAccepts, hno.handler⟩
      · exact absurd hyes.outstandingAccepts haccepts
  | remoteEndpoint hhandler halive =>
      refine h.server (fun hno => ?_) fun hyes => ?_
      · exact absurd (hno.handler.symm.trans hhandler) nofun
      · exact ⟨halive, hyes.outstandingAccepts⟩
  | remoteEndpointThrows hhandler hdead =>
      rcases h.connection with hno | hyes
      · exact absurd (hno.handler.symm.trans hhandler) nofun
      · exact absurd hyes.alive hdead
  | setConnection hhandler =>
      refine h.server (fun hno => ?_) fun hyes => ?_
      · exact absurd (hno.handler.symm.trans hhandler) nofun
      · exact ⟨hyes.alive, hyes.outstandingAccepts⟩
  | clientDisconnects =>
      refine h.server (fun hno => ?_) fun hyes => ?_
      · exact ⟨hno.hasConnection, by rw [hno.socket]; rfl,
          hno.outstandingAccepts, hno.handler⟩
      · exact ⟨Socket.alive_setPeer_disconnected hyes.alive,
          hyes.outstandingAccepts⟩
  | clientResets => exact absurd rfl hstays
  | setNewDataAvailable region =>
      refine ⟨h.accounted, h.progress_le, h.connection.imp ?_ ?_⟩
      · exact fun hno => { hno with }
      · exact fun hyes => { hyes with }

/-! ## The blocked write -/

/-- Outside a send the next statement is always possible. -/
theorem mainStep_isSome {numCams : ℕ} {s : State}
    (h : ∀ i item, s.pc ≠ .sending i item) :
    (mainStep numCams s).isSome := by
  unfold mainStep
  split
  · rfl
  · split <;> rfl
  · rfl
  · rfl
  · next hpc => exact absurd hpc (h _ _)
  · rfl
  · rfl
  · rfl
  · rfl

theorem mainCanStep_of_ne {c : Connection} {o : Observed} (numCams : ℕ)
    (hrunning : o.program.uncaught = none)
    (h : ∀ i item, o.program.pc ≠ .sending i item) :
    MainCanStep c numCams o := by
  refine ⟨.program .main, trivial, ?_⟩
  rw [step, if_pos (show MayHappen c o (.program .main) from trivial)]
  simp [programAfter, SlamServer.step, hrunning, mainStep_isSome h]

/-- The main thread is held up by a full connection and by nothing else. -/
theorem StreamInv.mainCanStep_iff {c : Connection} {o : Observed}
    (h : StreamInv c o) (numCams : ℕ) :
    MainCanStep c numCams o ↔
      o.program.uncaught = none ∧ ¬ Blocked c o := by
  constructor
  · rintro ⟨a, hmain, hsome⟩
    obtain ⟨o', hstep⟩ := Option.isSome_iff_exists.mp hsome
    rw [step, Option.ite_none_right_eq_some,
      Option.map_eq_some_iff] at hstep
    obtain ⟨hmay, s', hs', -⟩ := hstep
    cases a with
    | takes n =>
        obtain ⟨hrunning, hpos, -, hroom⟩ := hmay
        refine ⟨hrunning, fun hblocked => ?_⟩
        have hfull := hblocked.2
        omega
    | program e =>
        refine ⟨(move_of_step hs').1, fun hblocked => ?_⟩
        obtain ⟨hyes, hsending, i, item, hpc⟩ :=
          h.exists_write (Nat.zero_lt_of_lt hblocked.1)
        cases e with
        | main => simp [programAfter, SlamServer.step, mainStep, hpc] at hs'
        | sendEnds succeeds =>
            cases succeeds with
            | true => exact absurd (hmay hsending) (Nat.ne_of_lt hblocked.1)
            | false => exact hmay hsending hyes.alive
        | _ => exact hmain
  · rintro ⟨hrunning, hblocked⟩
    by_cases hsend : ∃ i item, o.program.pc = .sending i item
    · obtain ⟨i, item, hpc⟩ := hsend
      have halive := (h.connected (by simp [hpc])).alive
      have hle := h.progress_le
      have hroom := h.accounted.2
      by_cases hall : o.progress = c.written o.program.pc
      · have hmay : MayHappen c o (.program (.sendEnds true)) :=
          fun _ => hall
        refine ⟨.program (.sendEnds true), trivial, ?_⟩
        rw [step, if_pos hmay]
        cases item <;>
          simp [programAfter, SlamServer.step, sendEnds, hrunning, hpc, halive]
      · have hmay : MayHappen c o (.takes 1) := by
          refine ⟨hrunning, Nat.one_pos, by omega, ?_⟩
          by_contra hfull
          exact hblocked ⟨by omega, by omega⟩
        refine ⟨.takes 1, trivial, ?_⟩
        rw [step, if_pos hmay]
        rfl
    · simp only [not_exists] at hsend
      exact mainCanStep_of_ne numCams hrunning hsend

theorem silentSince_step {c : Connection} {numCams : ℕ} {o o' o'' : Observed}
    {a : Action} (h : StreamInv c o') (hsilent : SilentSince c o o')
    (hstep : step c numCams o' a = some o'') : SilentSince c o o'' := by
  have hexceeds := hsilent.exceeds
  rw [Exceeds] at hexceeds
  have hle := h.progress_le
  have hroom := h.accounted.2
  obtain ⟨hyes, hsending, i, item, hpc⟩ := h.exists_write (by omega)
  obtain ⟨hmay, ⟨n, rfl, rfl⟩ | ⟨e, s', rfl, hmove, rfl⟩⟩ := step_cases hstep
  · refine ⟨hsilent.pc, hsilent.sends, ?_⟩
    rw [Exceeds]
    dsimp only
    omega
  cases hmove with
  | head hpc' | getEndpoint hpc' | getEndpointThrows hpc' | check hpc'
  | send hpc' | close hpc' | asyncAccept hpc' | clearConnection hpc'
  | clearNewData hpc' => exact absurd (hpc.symm.trans hpc') nofun
  | sent =>
      have hall : o'.progress = c.written o'.program.pc := hmay hsending
      omega
  | udpThrows hpc' =>
      rw [hpc'] at hsending
      exact absurd rfl hsending
  | writeThrows => exact absurd hyes.alive (hmay hsending)
  | acceptSucceeds hne | acceptFails hne =>
      exact absurd hyes.outstandingAccepts hne
  | remoteEndpoint | remoteEndpointThrows | setConnection | clientDisconnects
  | clientResets | setNewDataAvailable =>
      exact ⟨hsilent.pc, hsilent.sends, hsilent.exceeds⟩

/-- In every interleaving of the threads, the producers and a client that
neither reads nor resets its connection: what has been sent over the connection
is in its buffers, only full buffers hold up the main thread, and from a write
on that does not fit nothing is sent any more. -/
theorem unread_stream (c : Connection) (numCams : ℕ)
    (newDataAvailable : Region → Bool) (as : List Action)
    (hstays : EachStep (step c numCams) ClientStays (init newDataAvailable)
      as) :
    EachState (step c numCams)
      (fun o => Accounted c o ∧
        (MainCanStep c numCams o ↔
          o.program.uncaught = none ∧ ¬ Blocked c o) ∧
        (Exceeds c o → ∀ bs, EachStep (step c numCams) ClientStays o bs →
          EachState (step c numCams) (SilentSince c o) o bs))
      (init newDataAvailable) as := by
  have hinv : EachState (step c numCams) (StreamInv c) (init newDataAvailable)
      as :=
    eachState_of_eachStep (fun _ _ _ h hstays hstep =>
      streamInv_step h hstays hstep) (streamInv_init c newDataAvailable) hstays
  refine hinv.mono fun o h => ⟨h.accounted, h.mainCanStep_iff numCams, ?_⟩
  intro hexceeds bs hbs
  have hrun : EachState (step c numCams)
      (fun o' => StreamInv c o' ∧ SilentSince c o o') o bs :=
    eachState_of_eachStep (fun _ _ _ h hstays hstep =>
      ⟨streamInv_step h.1 hstays hstep, silentSince_step h.1 h.2 hstep⟩)
      ⟨h, rfl, rfl, hexceeds⟩ hbs
  exact hrun.mono fun _ h => h.2

/-- Two imu regions of ten bytes for a connection that takes fifteen: five bytes
of the second one are taken. -/
def twoImuRegions : List Action :=
  [.program (.acceptCompletes false), .program .handleAccept,
    .program .handleAccept, .program (.setNewDataAvailable .imu),
    .program .main, .program .main, .program .main, .program .main,
    .program .main, .takes 4, .takes 6, .program (.sendEnds true),
    .program .main, .program .main, .program (.setNewDataAvailable .imu),
    .program .main, .program .main, .program .main, .program .main,
    .program .main, .takes 5]

theorem unread_stream_twoImuRegions :
    (∃ o, run (step ⟨15, 10, 10⟩ 1) (init fun _ => false) twoImuRegions =
      some o ∧ Exceeds ⟨15, 10, 10⟩ o ∧ Blocked ⟨15, 10, 10⟩ o) ∧
    EachState (step ⟨15, 10, 10⟩ 1)
      (fun o => Accounted ⟨15, 10, 10⟩ o ∧
        (MainCanStep ⟨15, 10, 10⟩ 1 o ↔
          o.program.uncaught = none ∧ ¬ Blocked ⟨15, 10, 10⟩ o) ∧
        (Exceeds ⟨15, 10, 10⟩ o → ∀ bs,
          EachStep (step ⟨15, 10, 10⟩ 1) ClientStays o bs →
          EachState (step ⟨15, 10, 10⟩ 1) (SilentSince ⟨15, 10, 10⟩ o) o bs))
      (init fun _ => false) twoImuRegions :=
  ⟨⟨_, rfl, by decide, by decide⟩,
    unread_stream ⟨15, 10, 10⟩ 1 (fun _ => false) twoImuRegions (by decide)⟩

end UnreadStream

end NetworkExperiments.SlamServer
