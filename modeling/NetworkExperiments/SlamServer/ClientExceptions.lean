import NetworkExperiments.SlamServer.Loop

/-!
# Exceptions caused by clients

Of the socket calls that throw when the client has gone, only the write of
`send_data` is in a `try` block.  The other two are calls of
`remote_endpoint()`: by `getEndpoint` in the loop, and in `handle_accept`.
`survives_iff` shows that a client stops the server exactly when it is gone at
one of these calls.
-/

namespace NetworkExperiments.SlamServer.ClientExceptions

open EventSystem

/-- No exception has left the loop of `main` or `handle_accept`. -/
def Survives (s : State) : Prop :=
  s.uncaught = none

instance : DecidablePred Survives := fun _ =>
  inferInstanceAs (Decidable (_ = _))

/-- A send that fails is not one of `UdpServer::send_data`. -/
def UdpSucceeds (s : State) (e : Event) : Prop :=
  e = .sendEnds false → ¬ s.pc.IsSendingUdp

instance (s : State) : DecidablePred (UdpSucceeds s) := fun _ =>
  inferInstanceAs (Decidable (_ → ¬ _))

/-- At each call of `remote_endpoint()` the socket is open and its peer has not
reset the connection. -/
def PeerPresent (s : State) (e : Event) : Prop :=
  (e = .main → s.pc = .getEndpoint → s.tcpServer.socket.Alive) ∧
  (e = .handleAccept → s.tcpServer.handler = .remoteEndpoint →
    s.tcpServer.socket.Alive)

instance (s : State) : DecidablePred (PeerPresent s) := fun _ =>
  inferInstanceAs (Decidable ((_ → _ → _) ∧ (_ → _ → _)))

theorem survives_step {numCams : ℕ} {s s' : State} {e : Event}
    (h : Survives s) (hudp : UdpSucceeds s e) (hpeer : PeerPresent s e)
    (hstep : step numCams s e = some s') : Survives s' := by
  obtain ⟨-, hmove⟩ := move_of_step hstep
  cases hmove with
  | getEndpointThrows hpc hdead => exact absurd (hpeer.1 rfl hpc) hdead
  | remoteEndpointThrows hhandler hdead =>
      exact absurd (hpeer.2 rfl hhandler) hdead
  | udpThrows hpc =>
      refine absurd ?_ (hudp rfl)
      rw [hpc]
      rfl
  | head | getEndpoint | check | send | close | asyncAccept | clearConnection
  | clearNewData | sent | writeThrows | acceptSucceeds | acceptFails
  | remoteEndpoint | setConnection | clientDisconnects | clientResets
  | setNewDataAvailable => exact h

theorem not_survives_of_peer_gone {numCams : ℕ} {s s' : State} {e : Event}
    (h : Survives s) (hpeer : ¬ PeerPresent s e)
    (hstep : step numCams s e = some s') : ¬ Survives s' := by
  have hrunning : s.uncaught.isSome = false := by rw [h]; rfl
  have hgone : (e = .main ∧ s.pc = .getEndpoint ∨
      e = .handleAccept ∧ s.tcpServer.handler = .remoteEndpoint) ∧
      ¬ s.tcpServer.socket.Alive := by
    by_contra hnot
    apply hpeer
    constructor
    · intro he hpc
      by_contra hdead
      exact hnot ⟨Or.inl ⟨he, hpc⟩, hdead⟩
    · intro he hhandler
      by_contra hdead
      exact hnot ⟨Or.inr ⟨he, hhandler⟩, hdead⟩
  obtain ⟨⟨rfl, hpc⟩ | ⟨rfl, hhandler⟩, hdead⟩ := hgone
  · obtain rfl : _ = s' := by
      simpa [step, hrunning, mainStep, hpc, hdead] using hstep
    simp [Survives]
  · obtain rfl : _ = s' := by
      simpa [step, hrunning, handleAccept, hhandler, hdead] using hstep
    simp [Survives]

/-- When all UDP sends succeed, no exception leaves the loop or the handler
exactly when the peer is present at each call of `remote_endpoint()`. -/
theorem survives_iff (numCams : ℕ) (newDataAvailable : Region → Bool)
    {es : List Event}
    (hudp : EachStep (step numCams) UdpSucceeds (init newDataAvailable) es) :
    EachState (step numCams) Survives (init newDataAvailable) es ↔
      EachStep (step numCams) PeerPresent (init newDataAvailable) es := by
  refine eachState_iff_eachStep (fun _ h => h) ?_ ?_ rfl hudp
  · intro s e s' h hsend hpeer hstep
    exact survives_step h hsend hpeer hstep
  · intro s e s' h _ hpeer hstep
    exact not_survives_of_peer_gone h hpeer hstep

theorem survives_disconnect :
    EachState (step 2) Survives (init fun _ => false)
      [.acceptCompletes false, .handleAccept, .handleAccept, .main,
        .clientDisconnects, .main, .main] :=
  (survives_iff 2 _ (by decide)).mpr (by decide)

/-- A client that connects and resets the connection before the main thread
asks for its address stops the server. -/
theorem stopped_by_reset :
    ¬ ∀ numCams newDataAvailable es,
      EachStep (step numCams) UdpSucceeds (init newDataAvailable) es →
      EachState (step numCams) Survives (init newDataAvailable) es := by
  intro hall
  have hrun := hall 2 (fun _ => false)
    [.acceptCompletes false, .handleAccept, .handleAccept, .main,
      .clientResets, .main] (by decide)
  revert hrun
  decide

end NetworkExperiments.SlamServer.ClientExceptions
