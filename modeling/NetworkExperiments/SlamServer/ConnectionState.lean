import NetworkExperiments.SlamServer.Loop

/-!
# The connection state between the two threads

`accept_connection` starts the accept before it clears `has_connection_`, while
`handle_accept` sets the flag on the other thread.  When the handler finishes
between the two statements the new client is forgotten; when a sweep writes
again to the socket that it has just closed, a second accept is started.

`consistent_at_head` shows that these two are all that can go wrong: in a run
without them `has_connection_`, the socket and the outstanding accepts agree
whenever the main thread is at the head of its loop and no handler runs.
-/

namespace NetworkExperiments.SlamServer.ConnectionState

open EventSystem

/-- There is a client: it has been accepted and the handler has finished. -/
structure Serving (t : TcpServer) : Prop where
  hasConnection : t.hasConnection = true
  isAccepted : t.socket.IsAccepted
  outstandingAccepts : t.outstandingAccepts = 0
  handler : t.handler = .idle

/-- The socket has been closed and nothing has been started yet. -/
structure Closed (t : TcpServer) : Prop where
  socket : t.socket = .closed
  outstandingAccepts : t.outstandingAccepts = 0
  handler : t.handler = .idle

/-- An accept is outstanding. -/
structure Waiting (t : TcpServer) : Prop where
  socket : t.socket = .closed
  outstandingAccepts : t.outstandingAccepts = 1
  handler : t.handler = .idle

/-- The accept has completed and its handler has not finished. -/
structure Handling (t : TcpServer) : Prop where
  isAccepted : t.socket.IsAccepted
  outstandingAccepts : t.outstandingAccepts = 0
  handler : t.handler ≠ .idle

/-- What holds of the connection before a statement of the main thread. -/
def ConnectionOk (pc : Pc) (t : TcpServer) : Prop :=
  match pc with
  | .close _ _ => Serving t
  | .asyncAccept _ _ => Closed t
  | .clearConnection _ _ => Waiting t ∨ Handling t
  | _ => Serving t ∨ (t.hasConnection = false ∧ (Waiting t ∨ Handling t))

/-- The statements of the loop itself, outside `accept_connection`. -/
def InLoop (pc : Pc) : Prop :=
  ∀ t, ConnectionOk pc t ↔
    Serving t ∨ (t.hasConnection = false ∧ (Waiting t ∨ Handling t))

theorem inLoop_forCondition (numCams i : ℕ) :
    InLoop (forCondition numCams i) := by
  intro t
  unfold forCondition
  split <;> rfl

theorem inLoop_afterItem (numCams i : ℕ) (item : Item) :
    InLoop (afterItem numCams i item) := by
  cases item with
  | camera => exact fun _ => Iff.rfl
  | imu => exact fun _ => Iff.rfl
  | config => exact inLoop_forCondition numCams (i + 1)

/-- The invariant of a run. -/
def ConnectionInv (s : State) : Prop :=
  ConnectionOk s.pc s.tcpServer

/-- At the head of the loop, with no handler running, `has_connection_` says
whether there is an accepted client, and exactly one accept is outstanding if
there is none. -/
def ConsistentAtHead (s : State) : Prop :=
  s.pc = .head → s.tcpServer.handler = .idle →
    (s.tcpServer.hasConnection = true ↔ s.tcpServer.socket.IsAccepted) ∧
    s.tcpServer.outstandingAccepts =
      if s.tcpServer.hasConnection then 0 else 1

instance : DecidablePred ConsistentAtHead := fun _ =>
  inferInstanceAs (Decidable (_ → _ → _ ∧ _))

/-- Every `async_accept` succeeds. -/
def AcceptSucceeds (_ : State) (e : Event) : Prop :=
  e ≠ .acceptCompletes true

instance (s : State) : DecidablePred (AcceptSucceeds s) := fun _ =>
  inferInstanceAs (Decidable (_ ≠ _))

/-- The handler does not set `has_connection_` between `async_accept` and
`has_connection_ = false`, and no write fails while `has_connection_` is
false. -/
def KeepsFlag (s : State) (e : Event) : Prop :=
  (e = .handleAccept → s.tcpServer.handler = .setConnection →
    ¬ s.pc.IsClearConnection) ∧
  (e = .sendEnds false → s.pc.IsSendingTcp →
    s.tcpServer.hasConnection = true)

instance (s : State) : DecidablePred (KeepsFlag s) := fun _ =>
  inferInstanceAs (Decidable ((_ → _ → _) ∧ (_ → _ → _)))

/-! ## The invariant -/

theorem connectionInv_init (newDataAvailable : Region → Bool) :
    ConnectionInv (init newDataAvailable) :=
  Or.inr ⟨rfl, Or.inl ⟨rfl, rfl, rfl⟩⟩

theorem ConnectionInv.consistentAtHead {s : State} (h : ConnectionInv s) :
    ConsistentAtHead s := by
  intro hpc hidle
  rw [ConnectionInv, hpc] at h
  rcases h with hserving | ⟨hconnection, hwaiting | hhandling⟩
  · rw [hserving.hasConnection, hserving.outstandingAccepts]
    exact ⟨iff_of_true rfl hserving.isAccepted, rfl⟩
  · rw [hconnection, hwaiting.outstandingAccepts, hwaiting.socket]
    exact ⟨iff_of_false (by decide) id, rfl⟩
  · exact absurd hidle hhandling.handler

/-- A change of the connection that the main thread does not make. -/
theorem ConnectionOk.map {pc : Pc} {t t' : TcpServer} (h : ConnectionOk pc t)
    (hconnection : t'.hasConnection = t.hasConnection)
    (hserving : Serving t → Serving t') (hclosed : Closed t → Closed t')
    (harmed : Waiting t ∨ Handling t → Waiting t' ∨ Handling t') :
    ConnectionOk pc t' := by
  cases pc with
  | close => exact hserving h
  | asyncAccept => exact hclosed h
  | clearConnection => exact harmed h
  | head | getEndpoint | check | send | sending | clearNewData =>
      refine h.imp hserving ?_
      rintro ⟨hno, h⟩
      exact ⟨hconnection.trans hno, harmed h⟩

theorem connectionOk_acceptSucceeds {pc : Pc} {t : TcpServer}
    (h : ConnectionOk pc t) (haccepts : t.outstandingAccepts ≠ 0) :
    ConnectionOk pc { t with
      socket := .accepted .connected
      outstandingAccepts := t.outstandingAccepts - 1
      handler := .remoteEndpoint } := by
  apply h.map
  · rfl
  · intro hserving
    exact absurd hserving.outstandingAccepts haccepts
  · intro hclosed
    exact absurd hclosed.outstandingAccepts haccepts
  · rintro (hwaiting | hhandling)
    · refine Or.inr ⟨trivial, ?_, Handler.noConfusion⟩
      simp only [hwaiting.outstandingAccepts]
    · exact absurd hhandling.outstandingAccepts haccepts

theorem connectionOk_remoteEndpoint {pc : Pc} {t : TcpServer}
    (h : ConnectionOk pc t) (hbusy : t.handler ≠ .idle) :
    ConnectionOk pc { t with handler := .setConnection } := by
  apply h.map
  · rfl
  · intro hserving
    exact absurd hserving.handler hbusy
  · intro hclosed
    exact absurd hclosed.handler hbusy
  · rintro (hwaiting | hhandling)
    · exact absurd hwaiting.handler hbusy
    · exact Or.inr ⟨hhandling.isAccepted, hhandling.outstandingAccepts,
        Handler.noConfusion⟩

theorem connectionOk_setConnection {pc : Pc} {t : TcpServer}
    (h : ConnectionOk pc t) (hbusy : t.handler ≠ .idle)
    (hpc : ¬ pc.IsClearConnection) :
    ConnectionOk pc { t with hasConnection := true, handler := .idle } := by
  cases pc with
  | close => exact absurd h.handler hbusy
  | asyncAccept => exact absurd h.handler hbusy
  | clearConnection => exact absurd trivial hpc
  | head | getEndpoint | check | send | sending | clearNewData =>
      rcases h with hserving | ⟨-, hwaiting | hhandling⟩
      · exact absurd hserving.handler hbusy
      · exact absurd hwaiting.handler hbusy
      · exact Or.inl
          ⟨rfl, hhandling.isAccepted, hhandling.outstandingAccepts, rfl⟩

theorem connectionOk_setPeer {pc : Pc} {t : TcpServer} (peer : Peer)
    (h : ConnectionOk pc t) :
    ConnectionOk pc { t with socket := t.socket.setPeer peer } := by
  have hclosed : t.socket = .closed → t.socket.setPeer peer = .closed :=
    fun ht => by rw [ht]; rfl
  have haccepted : t.socket.IsAccepted →
      (t.socket.setPeer peer).IsAccepted :=
    (Socket.isAccepted_setPeer peer).mpr
  apply h.map
  · rfl
  · intro ht
    exact ⟨ht.hasConnection, haccepted ht.isAccepted, ht.outstandingAccepts,
      ht.handler⟩
  · intro ht
    exact ⟨hclosed ht.socket, ht.outstandingAccepts, ht.handler⟩
  · rintro (ht | ht)
    · exact Or.inl ⟨hclosed ht.socket, ht.outstandingAccepts, ht.handler⟩
    · exact Or.inr
        ⟨haccepted ht.isAccepted, ht.outstandingAccepts, ht.handler⟩

theorem connectionInv_step {numCams : ℕ} {s s' : State} {e : Event}
    (h : ConnectionInv s) (hsucceeds : AcceptSucceeds s e)
    (hkeeps : KeepsFlag s e) (hstep : step numCams s e = some s') :
    ConnectionInv s' := by
  obtain ⟨-, hmove⟩ := move_of_step hstep
  rw [ConnectionInv] at h
  cases hmove with
  | head hpc =>
      rw [hpc] at h
      rw [ConnectionInv]
      dsimp only
      split <;> exact h
  | getEndpoint hpc _ =>
      rw [hpc] at h
      exact (inLoop_forCondition numCams 0 _).mpr h
  | getEndpointThrows hpc _ => exact h
  | @check i item hpc =>
      rw [hpc] at h
      rw [ConnectionInv]
      dsimp only
      split
      · exact h
      · exact (inLoop_afterItem numCams i item _).mpr h
  | send hpc =>
      rw [hpc] at h
      exact h
  | close hpc =>
      rw [hpc] at h
      exact ⟨rfl, h.outstandingAccepts, h.handler⟩
  | asyncAccept hpc =>
      rw [hpc] at h
      refine Or.inl ⟨h.socket, ?_, h.handler⟩
      simp only [h.outstandingAccepts]
  | clearConnection hpc =>
      rw [hpc] at h
      refine Or.inr ⟨rfl, ?_⟩
      rcases h with hwaiting | hhandling
      · exact Or.inl
          ⟨hwaiting.socket, hwaiting.outstandingAccepts, hwaiting.handler⟩
      · exact Or.inr ⟨hhandling.isAccepted, hhandling.outstandingAccepts,
          hhandling.handler⟩
  | @clearNewData i item hpc =>
      rw [hpc] at h
      exact (inLoop_afterItem numCams i item _).mpr h
  | sent hpc _ =>
      rw [hpc] at h
      exact h
  | udpThrows hpc => exact h
  | writeThrows hpc hitem =>
      -- only a serving server has the flag set
      have hconnection := hkeeps.2 rfl (by rw [hpc]; exact hitem)
      rw [hpc] at h
      rcases h with hserving | ⟨hno, -⟩
      · exact hserving
      · rw [hconnection] at hno
        contradiction
  | acceptSucceeds haccepts _ => exact connectionOk_acceptSucceeds h haccepts
  | acceptFails _ _ => exact absurd rfl hsucceeds
  | remoteEndpoint hhandler _ =>
      exact connectionOk_remoteEndpoint h (by simp [hhandler])
  | remoteEndpointThrows _ _ => exact h
  | setConnection hhandler =>
      exact connectionOk_setConnection h (by simp [hhandler])
        (hkeeps.1 rfl hhandler)
  | clientDisconnects => exact connectionOk_setPeer .disconnected h
  | clientResets => exact connectionOk_setPeer .reset h
  | setNewDataAvailable region => exact h

/-- In a run in which the handler never sets the flag between `async_accept`
and `has_connection_ = false` and no write fails while the flag is clear, the
connection state is consistent whenever the main thread is at the head of its
loop and no handler runs. -/
theorem consistent_at_head (numCams : ℕ) (newDataAvailable : Region → Bool)
    {es : List Event}
    (hsucceeds : EachStep (step numCams) AcceptSucceeds
      (init newDataAvailable) es)
    (hkeeps : EachStep (step numCams) KeepsFlag (init newDataAvailable) es) :
    EachState (step numCams) ConsistentAtHead (init newDataAvailable) es := by
  have hinv : EachState (step numCams) ConnectionInv
      (init newDataAvailable) es :=
    eachState_of_eachStep
      (fun _ _ _ h hP hstep => connectionInv_step h hP.1 hP.2 hstep)
      (connectionInv_init newDataAvailable) (hsucceeds.and hkeeps)
  exact hinv.mono fun _ h => h.consistentAtHead

/-- A client connects and the main thread is about to write the imu region to
it: the steps from the start, with new data in this region. -/
def toImuWrite : List Event :=
  [.acceptCompletes false, .handleAccept, .handleAccept, .main, .main, .main,
    .main, .main]

/-- The steps from the write in the iteration for camera 0 of two cameras back
to the head of the loop, when there is no other new data. -/
def fromImuWrite : List Event :=
  [.main, .main, .main, .main, .main]

def imuOnly : Region → Bool
  | .imu => true
  | .cam _ | .config => false

theorem consistent_after_late_handler :
    EachState (step 2) ConsistentAtHead (init imuOnly)
      (toImuWrite ++ [.clientResets, .sendEnds false, .main, .main, .main,
        .acceptCompletes false, .handleAccept, .handleAccept] ++
        fromImuWrite) :=
  consistent_at_head 2 imuOnly (by decide) (by decide)

/-- The write fails, and the next client is accepted before the flag is
cleared: the client is forgotten, and no accept is outstanding. -/
theorem client_forgotten :
    ¬ ∀ numCams newDataAvailable es,
      EachStep (step numCams) AcceptSucceeds (init newDataAvailable) es →
      EachState (step numCams) ConsistentAtHead (init newDataAvailable)
        es := by
  intro hall
  have hrun := hall 2 imuOnly
    (toImuWrite ++ [.clientResets, .sendEnds false, .main, .main,
      .acceptCompletes false, .handleAccept, .handleAccept, .main] ++
      fromImuWrite) (by decide)
  revert hrun
  decide

end NetworkExperiments.SlamServer.ConnectionState
