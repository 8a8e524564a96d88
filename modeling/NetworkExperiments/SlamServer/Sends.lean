import NetworkExperiments.SlamServer.Notifications

/-!
# Sends and raised flags

A producer that sets the flag of a region raises it when it is clear, and
changes nothing otherwise.  `sends_match_raises` counts: in every interleaving
the sends of a region are as many as the raises of its flag, except for one
raise that is still pending.  So nothing is sent that has not been announced,
and nothing is sent twice for one announcement.  A send that has been started
ends, or is lost with its client, or is still in progress.

A flag that is already set when the program starts counts as raised; for the
regions of which the producers take no care it is the only raise.
-/

namespace NetworkExperiments.SlamServer

/-- The region that is about to be sent or in flight. -/
def Pc.engaged : Pc → Option Region
  | send i item => some (item.region i)
  | pc => pc.inFlight

/-- The region whose send has been started and has not ended. -/
def Pc.sendingRegion : Pc → Option Region
  | sending i item => some (item.region i)
  | _ => none

@[simp] theorem sendingRegion_forCondition (numCams i : ℕ) :
    (forCondition numCams i).sendingRegion = none := by
  unfold forCondition
  split <;> rfl

@[simp] theorem sendingRegion_afterItem (numCams i : ℕ) (item : Item) :
    (afterItem numCams i item).sendingRegion = none := by
  cases item with
  | camera | imu => rfl
  | config => exact sendingRegion_forCondition numCams (i + 1)

theorem Pc.engaged_of_inFlight {pc : Pc} {region : Region}
    (h : pc.inFlight = some region) : pc.engaged = some region := by
  cases pc with
  | send => exact absurd h (by simp [inFlight])
  | _ => exact h

@[simp] theorem engaged_forCondition (numCams i : ℕ) :
    (forCondition numCams i).engaged = none := by
  unfold forCondition
  split <;> rfl

@[simp] theorem engaged_afterItem (numCams i : ℕ) (item : Item) :
    (afterItem numCams i item).engaged = none := by
  cases item with
  | camera | imu => rfl
  | config => exact engaged_forCondition numCams (i + 1)

namespace Sends

open EventSystem

/-- The program, how often the flag of each region has been raised, how many
sends of it have been started, and how many of these have ended, or thrown. -/
structure Observed where
  program : State
  raised : Region → ℕ
  sent : Region → ℕ
  written : Region → ℕ
  lost : Region → ℕ

/-- A flag that is set from the start has been raised once. -/
def init (newDataAvailable : Region → Bool) : Observed where
  program := SlamServer.init newDataAvailable
  raised := fun region => if newDataAvailable region then 1 else 0
  sent := fun _ => 0
  written := fun _ => 0
  lost := fun _ => 0

def raisedAfter (o : Observed) : Event → Region → ℕ
  | .setNewDataAvailable region =>
      if o.program.newDataAvailable region then o.raised
      else Function.update o.raised region (o.raised region + 1)
  | _ => o.raised

def sentAfter (o : Observed) : Event → Region → ℕ
  | .main =>
      match o.program.pc with
      | .send i item =>
          Function.update o.sent (item.region i) (o.sent (item.region i) + 1)
      | _ => o.sent
  | _ => o.sent

/-- One more for the region that is being sent. -/
def countSending (pc : Pc) (counts : Region → ℕ) : Region → ℕ :=
  match pc.sendingRegion with
  | some region => Function.update counts region (counts region + 1)
  | none => counts

def writtenAfter (o : Observed) : Event → Region → ℕ
  | .sendEnds true => countSending o.program.pc o.written
  | _ => o.written

def lostAfter (o : Observed) : Event → Region → ℕ
  | .sendEnds false => countSending o.program.pc o.lost
  | _ => o.lost

def step (numCams : ℕ) (o : Observed) (e : Event) : Option Observed :=
  (SlamServer.step numCams o.program e).map fun program =>
    { program := program
      raised := raisedAfter o e
      sent := sentAfter o e
      written := writtenAfter o e
      lost := lostAfter o e }

/-- The flag is set, and not because of a send that has been started. -/
def Pending (s : State) (region : Region) : Prop :=
  s.newDataAvailable region = true ∧ s.pc.inFlight ≠ some region

instance (s : State) : DecidablePred (Pending s) := fun _ =>
  inferInstanceAs (Decidable (_ ∧ _))

/-- For each region, the raises of its flag are the sends that have been
started, and the one that is pending. -/
def SendsMatch (o : Observed) : Prop :=
  ∀ region, o.raised region =
    o.sent region + if Pending o.program region then 1 else 0

/-- The send of a region is in progress. -/
def Sending (s : State) (region : Region) : Prop :=
  s.uncaught ≠ some .main ∧ s.pc.sendingRegion = some region

instance (s : State) : DecidablePred (Sending s) := fun _ =>
  inferInstanceAs (Decidable (_ ∧ _))

/-- For each region, the sends that have been started are those that have ended
or thrown, and the one that is in progress. -/
def SendsEnd (o : Observed) : Prop :=
  ∀ region, o.sent region = o.written region + o.lost region +
    if Sending o.program region then 1 else 0

/-- The counts match, and the flag of a region stays set from the test of it to
the end of its send: only the main thread clears flags. -/
structure SendsInv (o : Observed) : Prop where
  sendsMatch : SendsMatch o
  engaged : ∀ region, o.program.pc.engaged = some region →
    o.program.newDataAvailable region = true

theorem sendsInv_init (newDataAvailable : Region → Bool) :
    SendsInv (init newDataAvailable) := by
  refine ⟨fun region => ?_, nofun⟩
  have hpending : Pending (SlamServer.init newDataAvailable) region ↔
      newDataAvailable region = true :=
    and_iff_left nofun
  simp only [init, hpending, Nat.zero_add]

/-- A step that changes no flag and no count, and after which the same region is
in flight. -/
theorem SendsInv.unchanged {o o' : Observed} (h : SendsInv o)
    (hraised : o'.raised = o.raised) (hsent : o'.sent = o.sent)
    (hflags : o'.program.newDataAvailable = o.program.newDataAvailable)
    (hflight : o'.program.pc.inFlight = o.program.pc.inFlight)
    (hengaged : ∀ region, o'.program.pc.engaged = some region →
      o.program.newDataAvailable region = true) : SendsInv o' := by
  refine ⟨fun region => ?_, fun region hregion => ?_⟩
  · have hpending : Pending o'.program region ↔ Pending o.program region := by
      rw [Pending, Pending, hflags, hflight]
    simp only [hpending, hraised, hsent]
    exact h.sendsMatch region
  · rw [hflags]
    exact hengaged region hregion

/-- The start of a send takes up the pending raise. -/
theorem sendsInv_send {o : Observed} (h : SendsInv o) {i : ℕ} {item : Item}
    (hpc : o.program.pc = .send i item) :
    SendsInv { o with
      program := { o.program with pc := .sending i item }
      sent := Function.update o.sent (item.region i)
        (o.sent (item.region i) + 1) } := by
  have hflag : o.program.newDataAvailable (item.region i) = true :=
    h.engaged _ (by rw [hpc]; rfl)
  have hbefore : ∀ region, Pending o.program region ↔
      o.program.newDataAvailable region = true := by
    intro region
    rw [Pending, hpc]
    exact and_iff_left nofun
  refine ⟨fun region => ?_, fun region hregion => ?_⟩
  · have hmatch := h.sendsMatch region
    simp only [hbefore] at hmatch
    by_cases hr : region = item.region i
    · have hafter : ¬ Pending { o.program with pc := .sending i item }
          region := fun hpending => hpending.2 (by rw [hr]; rfl)
      subst hr
      simp only [hafter, Function.update_self, if_false, Nat.add_zero]
      simpa only [hflag, if_true] using hmatch
    · have hafter : Pending { o.program with pc := .sending i item } region ↔
          o.program.newDataAvailable region = true :=
        and_iff_left fun hflight => hr (Option.some.inj hflight).symm
      simp only [hafter, Function.update_of_ne hr]
      exact hmatch
  · obtain rfl : item.region i = region := Option.some.inj hregion
    exact hflag

theorem sendsInv_clear {o : Observed} (h : SendsInv o) {i : ℕ} {item : Item}
    (hpc : o.program.pc = .clearNewData i item) (numCams : ℕ) :
    SendsInv { o with
      program := { o.program with
        newDataAvailable :=
          Function.update o.program.newDataAvailable (item.region i) false
        pc := afterItem numCams i item } } := by
  refine ⟨fun region => ?_, fun region hregion => ?_⟩
  · have hmatch := h.sendsMatch region
    have hpending : Pending { o.program with
        newDataAvailable :=
          Function.update o.program.newDataAvailable (item.region i) false
        pc := afterItem numCams i item } region ↔
        Pending o.program region := by
      have hflight : (Pc.clearNewData i item).inFlight =
          some (item.region i) := rfl
      simp only [Pending, hpc, hflight, inFlight_afterItem]
      by_cases hr : region = item.region i
      · simp [hr]
      · simp [hr, Ne.symm hr]
    simp only [hpending]
    exact hmatch
  · rw [engaged_afterItem] at hregion
    contradiction

/-- A flag that is raised belongs to a region that is not in flight. -/
theorem sendsInv_set {o : Observed} (h : SendsInv o) (region : Region) :
    SendsInv { o with
      program := { o.program with
        newDataAvailable :=
          Function.update o.program.newDataAvailable region true }
      raised :=
        if o.program.newDataAvailable region then o.raised
        else Function.update o.raised region (o.raised region + 1) } := by
  by_cases hflag : o.program.newDataAvailable region = true
  · have hsame : Function.update o.program.newDataAvailable region true =
        o.program.newDataAvailable := by
      rw [← hflag, Function.update_eq_self]
    rw [hsame, if_pos hflag]
    exact h
  · have hidle : o.program.pc.inFlight ≠ some region := fun hflight =>
      hflag (h.engaged region (Pc.engaged_of_inFlight hflight))
    rw [if_neg hflag]
    refine ⟨fun r => ?_, fun r hr => ?_⟩
    · have hmatch := h.sendsMatch r
      by_cases hr : r = region
      · subst hr
        have hnone : ¬ Pending o.program r := fun hpending =>
          hflag hpending.1
        have hafter : Pending { o.program with
            newDataAvailable :=
              Function.update o.program.newDataAvailable r true } r :=
          ⟨Function.update_self .., hidle⟩
        simp only [hafter, Function.update_self, if_true]
        simp only [hnone, if_false, Nat.add_zero] at hmatch
        rw [hmatch]
      · have hpending : Pending { o.program with
            newDataAvailable :=
              Function.update o.program.newDataAvailable region true } r ↔
            Pending o.program r := by
          simp only [Pending, Function.update_of_ne hr]
        simp only [hpending, Function.update_of_ne hr]
        exact hmatch
    · have hold := h.engaged r hr
      dsimp only
      by_cases hne : r = region
      · rw [hne, Function.update_self]
      · rw [Function.update_of_ne hne]
        exact hold

theorem sendsInv_step {numCams : ℕ} {o o' : Observed} {e : Event}
    (h : SendsInv o) (hstep : step numCams o e = some o') : SendsInv o' := by
  rw [step, Option.map_eq_some_iff] at hstep
  obtain ⟨s', hs', rfl⟩ := hstep
  obtain ⟨-, hmove⟩ := move_of_step hs'
  cases hmove with
  | head hpc =>
      simp only [raisedAfter, sentAfter, hpc]
      refine h.unchanged rfl rfl rfl ?_ ?_ <;> dsimp only
      · rw [hpc]
        split <;> rfl
      · split <;> nofun
  | getEndpoint hpc _ =>
      simp only [raisedAfter, sentAfter, hpc]
      refine h.unchanged rfl rfl rfl ?_ ?_ <;> dsimp only
      · rw [hpc, inFlight_forCondition]
        rfl
      · rw [engaged_forCondition]
        nofun
  | getEndpointThrows hpc _ =>
      simp only [raisedAfter, sentAfter, hpc]
      refine h.unchanged rfl rfl rfl (by rw [hpc]) fun region hr => ?_
      exact h.engaged region (by rw [hpc]; exact hr)
  | @check i item hpc =>
      simp only [raisedAfter, sentAfter, hpc]
      refine h.unchanged rfl rfl rfl ?_ ?_ <;> dsimp only
      · rw [hpc]
        split
        · rfl
        · rw [inFlight_afterItem]
          rfl
      · intro region hr
        split at hr
        · next hflag =>
            obtain rfl : item.region i = region := Option.some.inj hr
            exact hflag
        · rw [engaged_afterItem] at hr
          contradiction
  | send hpc =>
      simp only [raisedAfter, sentAfter, hpc]
      exact sendsInv_send h hpc
  | close hpc | asyncAccept hpc | clearConnection hpc =>
      simp only [raisedAfter, sentAfter, hpc]
      refine h.unchanged rfl rfl rfl (by rw [hpc]; rfl) fun region hr => ?_
      exact h.engaged region (by rw [hpc]; exact hr)
  | clearNewData hpc =>
      simp only [raisedAfter, sentAfter, hpc]
      exact sendsInv_clear h hpc numCams
  | sent hpc _ | writeThrows hpc _ =>
      refine h.unchanged rfl rfl rfl (by rw [hpc]; rfl) fun region hr => ?_
      exact h.engaged region (by rw [hpc]; exact hr)
  | setNewDataAvailable region => exact sendsInv_set h region
  | udpThrows | acceptSucceeds | acceptFails | remoteEndpoint
  | remoteEndpointThrows | setConnection | clientDisconnects | clientResets =>
      exact h.unchanged rfl rfl rfl rfl fun region hr => h.engaged region hr

/-! ## The ends of the sends -/

theorem not_sending_of_none {s : State} (h : s.pc.sendingRegion = none)
    (region : Region) : ¬ Sending s region := fun hsending => by
  rw [Sending, h] at hsending
  exact absurd hsending.2 nofun

theorem sendsEnd_init (newDataAvailable : Region → Bool) :
    SendsEnd (init newDataAvailable) := fun _ => rfl

theorem SendsEnd.unchanged {o o' : Observed} (h : SendsEnd o)
    (hsent : o'.sent = o.sent) (hwritten : o'.written = o.written)
    (hlost : o'.lost = o.lost)
    (hsending : ∀ region, Sending o'.program region ↔
      Sending o.program region) : SendsEnd o' := by
  intro region
  simp only [hsent, hwritten, hlost, hsending region]
  exact h region

theorem SendsEnd.outside {o o' : Observed} (h : SendsEnd o)
    (hsent : o'.sent = o.sent) (hwritten : o'.written = o.written)
    (hlost : o'.lost = o.lost)
    (hbefore : o.program.pc.sendingRegion = none)
    (hafter : o'.program.pc.sendingRegion = none) : SendsEnd o' :=
  h.unchanged hsent hwritten hlost fun region =>
    iff_of_false (not_sending_of_none hafter region)
      (not_sending_of_none hbefore region)

theorem sendsEnd_send {o : Observed} (h : SendsEnd o)
    (hrunning : o.program.uncaught = none) {i : ℕ} {item : Item}
    (hpc : o.program.pc = .send i item) :
    SendsEnd { o with
      program := { o.program with pc := .sending i item }
      sent := Function.update o.sent (item.region i)
        (o.sent (item.region i) + 1) } := by
  intro region
  have hbefore : ¬ Sending o.program region :=
    not_sending_of_none (by rw [hpc]; rfl) region
  have hcount := h region
  rw [if_neg hbefore, Nat.add_zero] at hcount
  by_cases hr : region = item.region i
  · subst hr
    have hafter : Sending { o.program with pc := .sending i item }
        (item.region i) :=
      ⟨by rw [hrunning]; exact nofun, rfl⟩
    simp only [Function.update_self, hafter, if_true, hcount]
  · have hafter : ¬ Sending { o.program with pc := .sending i item } region :=
      fun hsending => hr (Option.some.inj hsending.2).symm
    simp only [Function.update_of_ne hr, hafter, if_false, hcount,
      Nat.add_zero]

/-- The send in progress ends in one of the two ways. -/
theorem sendsEnd_sendEnds {o o' : Observed} (h : SendsEnd o)
    (hrunning : o.program.uncaught = none) {i : ℕ} {item : Item}
    (hpc : o.program.pc = .sending i item) (hsent : o'.sent = o.sent)
    (hafter : ∀ region, ¬ Sending o'.program region)
    (hends : (o'.written = countSending o.program.pc o.written ∧
        o'.lost = o.lost) ∨
      (o'.written = o.written ∧
        o'.lost = countSending o.program.pc o.lost)) : SendsEnd o' := by
  intro region
  have hcount := h region
  have hcounts : ∀ counts, countSending o.program.pc counts =
      Function.update counts (item.region i)
        (counts (item.region i) + 1) := by
    intro counts
    rw [hpc]
    rfl
  rw [hcounts, hcounts] at hends
  rw [if_neg (hafter region), Nat.add_zero, hsent, hcount]
  by_cases hr : region = item.region i
  · subst hr
    have hbefore : Sending o.program (item.region i) :=
      ⟨by rw [hrunning]; exact nofun, by rw [hpc]; rfl⟩
    rw [if_pos hbefore]
    rcases hends with ⟨hwritten, hlost⟩ | ⟨hwritten, hlost⟩
    · rw [hwritten, hlost, Function.update_self]
      omega
    · rw [hwritten, hlost, Function.update_self]
      omega
  · have hbefore : ¬ Sending o.program region := by
      rintro ⟨-, hsending⟩
      rw [hpc] at hsending
      exact hr (Option.some.inj hsending).symm
    rw [if_neg hbefore, Nat.add_zero]
    rcases hends with ⟨hwritten, hlost⟩ | ⟨hwritten, hlost⟩
    · rw [hwritten, hlost, Function.update_of_ne hr]
    · rw [hwritten, hlost, Function.update_of_ne hr]

theorem sendsEnd_step {numCams : ℕ} {o o' : Observed} {e : Event}
    (h : SendsEnd o) (hstep : step numCams o e = some o') : SendsEnd o' := by
  rw [step, Option.map_eq_some_iff] at hstep
  obtain ⟨s', hs', rfl⟩ := hstep
  obtain ⟨hrunning, hmove⟩ := move_of_step hs'
  cases hmove with
  | head hpc =>
      simp only [sentAfter, hpc]
      refine h.outside rfl rfl rfl (by rw [hpc]; rfl) ?_
      dsimp only
      split <;> rfl
  | getEndpoint hpc _ =>
      simp only [sentAfter, hpc]
      exact h.outside rfl rfl rfl (by rw [hpc]; rfl)
        (sendingRegion_forCondition numCams 0)
  | @check i item hpc =>
      simp only [sentAfter, hpc]
      refine h.outside rfl rfl rfl (by rw [hpc]; rfl) ?_
      dsimp only
      split
      · rfl
      · exact sendingRegion_afterItem numCams i item
  | send hpc =>
      simp only [sentAfter, hpc]
      exact sendsEnd_send h hrunning hpc
  | getEndpointThrows hpc | close hpc | asyncAccept hpc
  | clearConnection hpc =>
      simp only [sentAfter, hpc]
      exact h.outside rfl rfl rfl (by rw [hpc]; rfl) rfl
  | @clearNewData i item hpc =>
      simp only [sentAfter, hpc]
      exact h.outside rfl rfl rfl (by rw [hpc]; rfl)
        (sendingRegion_afterItem numCams i item)
  | sent hpc _ =>
      exact sendsEnd_sendEnds h hrunning hpc rfl (not_sending_of_none rfl)
        (Or.inl ⟨rfl, rfl⟩)
  | udpThrows hpc =>
      exact sendsEnd_sendEnds h hrunning hpc rfl
        (fun _ hsending => hsending.1 rfl) (Or.inr ⟨rfl, rfl⟩)
  | writeThrows hpc _ =>
      exact sendsEnd_sendEnds h hrunning hpc rfl (not_sending_of_none rfl)
        (Or.inr ⟨rfl, rfl⟩)
  | remoteEndpointThrows =>
      refine h.unchanged rfl rfl rfl fun region => ?_
      exact and_congr_left' (iff_of_true nofun (by rw [hrunning]; exact nofun))
  | acceptSucceeds | acceptFails | remoteEndpoint | setConnection
  | clientDisconnects | clientResets | setNewDataAvailable =>
      exact h.unchanged rfl rfl rfl fun _ => Iff.rfl

/-- In every interleaving of the threads, the clients and the producers, each
raise of a flag leads to one send of its region, or is pending, and each send
ends in one way, or is in progress. -/
theorem sends_match_raises (numCams : ℕ) (newDataAvailable : Region → Bool)
    (es : List Event) :
    EachState (step numCams) (fun o => SendsMatch o ∧ SendsEnd o)
      (init newDataAvailable) es := by
  have hinv : EachState (step numCams) (fun o => SendsInv o ∧ SendsEnd o)
      (init newDataAvailable) es :=
    eachState_of_eachStep
      (fun _ _ _ h _ hstep =>
        ⟨sendsInv_step h.1 hstep, sendsEnd_step h.2 hstep⟩)
      ⟨sendsInv_init newDataAvailable, sendsEnd_init newDataAvailable⟩
      (EachStep.of_forall (fun _ _ => trivial) _ es)
  exact hinv.mono fun _ h => ⟨h.1.sendsMatch, h.2⟩

end Sends

end NetworkExperiments.SlamServer
