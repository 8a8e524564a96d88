import NetworkExperiments.SlamServer.Loop

/-!
# New-data notifications

A producer sets the flag of a region on its own thread; the loop sends the
region and then clears the flag.  A flag that is set while the region is being
sent is cleared together with the one that the send was for, and that
notification is lost.  `notifications_kept` shows that there is no other way
to lose one.
-/

namespace NetworkExperiments.SlamServer

/-- The region that is between the start of its send and the clearing of its
flag. -/
def Pc.inFlight : Pc → Option Region
  | sending i item | close i item | asyncAccept i item | clearConnection i item
  | clearNewData i item => some (item.region i)
  | head | getEndpoint | check _ _ | send _ _ => none

@[simp] theorem inFlight_forCondition (numCams i : ℕ) :
    (forCondition numCams i).inFlight = none := by
  unfold forCondition
  split <;> rfl

@[simp] theorem inFlight_afterItem (numCams i : ℕ) (item : Item) :
    (afterItem numCams i item).inFlight = none := by
  cases item with
  | camera | imu => rfl
  | config => exact inFlight_forCondition numCams (i + 1)

namespace Notifications

open EventSystem

/-- The program, and for each region whether its flag has been set since the
start of its most recent send, or at all if it has not been sent. -/
structure Observed where
  program : State
  published : Region → Bool

def init (newDataAvailable : Region → Bool) : Observed where
  program := SlamServer.init newDataAvailable
  published := fun _ => false

def publishedAfter (o : Observed) : Event → Region → Bool
  | .main =>
      match o.program.pc with
      | .send i item => Function.update o.published (item.region i) false
      | _ => o.published
  | .setNewDataAvailable region => Function.update o.published region true
  | _ => o.published

def step (numCams : ℕ) (o : Observed) (e : Event) : Option Observed :=
  (SlamServer.step numCams o.program e).map fun program =>
    { program := program, published := publishedAfter o e }

/-- Data that has been published is still announced by the flag, in every
region that is not just being sent. -/
def NoneLost (o : Observed) : Prop :=
  ∀ region, o.program.pc.inFlight ≠ some region →
    o.published region = true → o.program.newDataAvailable region = true

/-- No flag is set between the start of the send of its region and the
clearing of the flag. -/
def PublishesOutsideSend (o : Observed) (e : Event) : Prop :=
  ∀ region, e = .setNewDataAvailable region →
    o.program.pc.inFlight ≠ some region

instance (o : Observed) : ∀ e, Decidable (PublishesOutsideSend o e)
  | .setNewDataAvailable region =>
      decidable_of_iff (o.program.pc.inFlight ≠ some region)
        (by simp [PublishesOutsideSend])
  | .main | .sendEnds _ | .acceptCompletes _ | .handleAccept
  | .clientDisconnects | .clientResets =>
      isTrue (by simp [PublishesOutsideSend])

/-- Published data is announced, and there is none in the region that is being
sent. -/
structure NotificationInv (o : Observed) : Prop where
  announced : ∀ region, o.published region = true →
    o.program.newDataAvailable region = true
  inFlight : ∀ region, o.program.pc.inFlight = some region →
    o.published region = false

theorem notificationInv_init (newDataAvailable : Region → Bool) :
    NotificationInv (init newDataAvailable) := by
  refine ⟨fun region h => ?_, fun region _ => rfl⟩
  exact absurd h (by simp [init])

/-- A step of the program that neither sets nor clears a flag nor starts a
send, and after which no region is being sent that was not before. -/
theorem NotificationInv.unchanged {o : Observed} (h : NotificationInv o)
    {s' : State} (hflags : s'.newDataAvailable = o.program.newDataAvailable)
    (hflight : s'.pc.inFlight = o.program.pc.inFlight ∨ s'.pc.inFlight = none) :
    NotificationInv ⟨s', o.published⟩ := by
  constructor
  · intro region hpublished
    rw [hflags]
    exact h.announced region hpublished
  · intro region hregion
    rcases hflight with hsame | hnone
    · exact h.inFlight region (hsame ▸ hregion)
    · rw [hnone] at hregion
      contradiction

theorem notificationInv_send {o : Observed} (h : NotificationInv o) {i : ℕ}
    {item : Item} :
    NotificationInv ⟨{ o.program with pc := .sending i item },
      Function.update o.published (item.region i) false⟩ := by
  constructor
  · intro region hpublished
    dsimp only at hpublished
    by_cases hregion : region = item.region i
    · rw [hregion, Function.update_self] at hpublished
      contradiction
    · rw [Function.update_of_ne hregion] at hpublished
      exact h.announced region hpublished
  · intro region hregion
    obtain rfl : item.region i = region := by simpa [Pc.inFlight] using hregion
    exact Function.update_self ..

theorem notificationInv_clear {o : Observed} (h : NotificationInv o) {i : ℕ}
    {item : Item} (hpc : o.program.pc = .clearNewData i item)
    (numCams : ℕ) :
    NotificationInv ⟨{ o.program with
      newDataAvailable :=
        Function.update o.program.newDataAvailable (item.region i) false
      pc := afterItem numCams i item }, o.published⟩ := by
  have hunpublished : o.published (item.region i) = false := by
    apply h.inFlight
    rw [hpc]
    rfl
  constructor
  · intro region hpublished
    by_cases hregion : region = item.region i
    · rw [hregion, hunpublished] at hpublished
      contradiction
    · dsimp only
      rw [Function.update_of_ne hregion]
      exact h.announced region hpublished
  · intro region hregion
    rw [inFlight_afterItem] at hregion
    contradiction

theorem notificationInv_set {o : Observed} (h : NotificationInv o)
    {region : Region} (houtside : o.program.pc.inFlight ≠ some region) :
    NotificationInv ⟨{ o.program with
      newDataAvailable :=
        Function.update o.program.newDataAvailable region true },
      Function.update o.published region true⟩ := by
  constructor
  · intro r hpublished
    dsimp only at hpublished ⊢
    by_cases hr : r = region
    · rw [hr, Function.update_self]
    · rw [Function.update_of_ne hr] at hpublished ⊢
      exact h.announced r hpublished
  · intro r hflight
    have hr : r ≠ region := by
      rintro rfl
      exact houtside hflight
    dsimp only
    rw [Function.update_of_ne hr]
    exact h.inFlight r hflight

theorem notificationInv_step {numCams : ℕ} {o o' : Observed} {e : Event}
    (h : NotificationInv o) (houtside : PublishesOutsideSend o e)
    (hstep : step numCams o e = some o') : NotificationInv o' := by
  rw [step, Option.map_eq_some_iff] at hstep
  obtain ⟨s', hs', rfl⟩ := hstep
  obtain ⟨-, hmove⟩ := move_of_step hs'
  cases hmove with
  | head hpc =>
      simp only [publishedAfter, hpc]
      refine h.unchanged rfl (Or.inr ?_)
      dsimp only
      split <;> rfl
  | getEndpoint hpc _ =>
      simp only [publishedAfter, hpc]
      exact h.unchanged rfl (Or.inr (inFlight_forCondition numCams 0))
  | getEndpointThrows hpc _ =>
      simp only [publishedAfter, hpc]
      exact h.unchanged rfl (Or.inr rfl)
  | @check i item hpc =>
      simp only [publishedAfter, hpc]
      refine h.unchanged rfl (Or.inr ?_)
      dsimp only
      split
      · rfl
      · exact inFlight_afterItem numCams i item
  | send hpc =>
      simp only [publishedAfter, hpc]
      exact notificationInv_send h
  | close hpc | asyncAccept hpc | clearConnection hpc =>
      simp only [publishedAfter, hpc]
      refine h.unchanged rfl (Or.inl ?_)
      rw [hpc]
      rfl
  | clearNewData hpc =>
      simp only [publishedAfter, hpc]
      exact notificationInv_clear h hpc numCams
  | sent hpc _ | writeThrows hpc _ =>
      refine h.unchanged rfl (Or.inl ?_)
      rw [hpc]
      rfl
  | setNewDataAvailable region =>
      exact notificationInv_set h (houtside region rfl)
  | udpThrows | acceptSucceeds | acceptFails | remoteEndpoint
  | remoteEndpointThrows | setConnection | clientDisconnects | clientResets =>
      exact h.unchanged rfl (Or.inl rfl)

/-- In a run in which no flag is set while its region is being sent, no
notification is lost. -/
theorem notifications_kept (numCams : ℕ) (newDataAvailable : Region → Bool)
    {es : List Event}
    (houtside : EachStep (step numCams) PublishesOutsideSend
      (init newDataAvailable) es) :
    EachState (step numCams) NoneLost (init newDataAvailable) es := by
  have hinv : EachState (step numCams) NotificationInv
      (init newDataAvailable) es :=
    eachState_of_eachStep
      (fun _ _ _ h hP hstep => notificationInv_step h hP hstep)
      (notificationInv_init newDataAvailable) houtside
  exact hinv.mono fun _ h region _ hpublished => h.announced region hpublished

/-- A client connects, and the imu region, which has been published, is about
to be sent. -/
def toImuSend : List Event :=
  [.setNewDataAvailable .imu, .acceptCompletes false, .handleAccept,
    .handleAccept, .main, .main, .main, .main, .main]

theorem kept_after_clear :
    EachState (step 2) NoneLost (init fun _ => false)
      (toImuSend ++ [.sendEnds true, .main, .setNewDataAvailable .imu]) :=
  notifications_kept 2 _ (by decide)

/-- A second imu sample, published between the end of the send of the first
and the clearing of its flag, is lost. -/
theorem lost_before_clear :
    ¬ ∀ numCams newDataAvailable es,
      EachState (step numCams) NoneLost (init newDataAvailable) es := by
  intro hall
  have hrun := hall 2 (fun _ => false)
    (toImuSend ++ [.sendEnds true, .setNewDataAvailable .imu, .main])
  obtain ⟨o, ho, hflight, hpublished, hflag⟩ :
      ∃ o, run (step 2) (init fun _ => false)
          (toImuSend ++ [.sendEnds true, .setNewDataAvailable .imu, .main]) =
            some o ∧
        o.program.pc.inFlight ≠ some .imu ∧ o.published .imu = true ∧
        o.program.newDataAvailable .imu = false :=
    ⟨_, rfl, by decide, by decide, by decide⟩
  rw [hrun.last ho .imu hflight hpublished] at hflag
  contradiction

end Notifications

end NetworkExperiments.SlamServer
