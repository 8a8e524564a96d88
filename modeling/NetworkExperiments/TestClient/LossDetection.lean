import Mathlib.Data.List.Nodup
import Mathlib.Data.List.Perm.Subperm
import NetworkExperiments.TestClient.Bounds

/-!
# The detection of lost packages

The test client counts the packages of each camera and compares the count with
the number of the last one.  Any 240 packages before the last one have the count
of a whole image, whichever numbers they have.  The client therefore detects
losses and reorderings in exactly those runs in which the packages that have the
count of a whole image are in order.
-/

namespace NetworkExperiments.TestClient

open EventSystem ImageTransfer

namespace LossDetection

/-- A datagram that belongs to an image. -/
structure Package where
  cam : Fin 2
  number : Fin 241
  data : List UInt8
  deriving DecidableEq, Repr

/-- The datagram in the byte order of the client.  What does not fit into the
buffer of 1600 bytes is cut off. -/
def Package.received (order : ByteOrder) (p : Package) : Received :=
  TestClient.received
    ((order.storeInt (p.cam : ℕ) ++ (order.storeInt (p.number : ℕ) ++
      p.data)).take 1600)

/-- The event is the message that an image of the camera is complete. -/
def completes (c : Fin 2) : Event → Bool
  | .complete cam _ _ => cam = c
  | .packagesLost _ _ => false

/-- The event is the message that packages are lost or not in order. -/
def warns : Event → Bool
  | .complete _ _ _ => false
  | .packagesLost _ _ => true

/-- What the client prints for a complete image: whether it warns, and the
numbers of the packages that it has received for the image. -/
structure Report where
  numbers : List ℕ
  warned : Bool

/-- The client, the numbers received for each camera since its last complete
image, and the report on the image that the last package has completed. -/
structure Observed where
  client : State
  numbers : Fin 2 → List ℕ
  report : Option Report

def start (client : State) : Observed :=
  { client := client, numbers := fun _ => [], report := none }

/-- What is to be seen of an iteration for a package. -/
def observe (o : Observed) (p : Package)
    (result : List Event × Verdict × State) : Observed :=
  let numbers := o.numbers p.cam ++ [(p.number : ℕ)]
  if result.1.any (completes p.cam) then
    { client := result.2.2
      numbers := Function.update o.numbers p.cam []
      report := some { numbers := numbers, warned := result.1.any warns } }
  else
    { client := result.2.2
      numbers := Function.update o.numbers p.cam numbers
      report := none }

/-- A package arrives. -/
def step (order : ByteOrder) (o : Observed) (p : Package) : Option Observed :=
  (iteration order o.client (p.received order)).map (observe o p)

/-- An image reported without the warning has been received in order, without
losses. -/
def Detects (o : Observed) : Prop :=
  ∀ r ∈ o.report, r.warned = false → r.numbers = List.range 241

/-- When the last package of an image comes, and those before it have the count
of a whole image as far as an `int` tells, they have been received in order. -/
def Ordered (o : Observed) (p : Package) : Prop :=
  (p.number : ℕ) = 240 → (o.numbers p.cam).length % 2 ^ 32 = 240 →
    (o.numbers p.cam ++ [240]).Pairwise (· < ·)

instance (o : Observed) (p : Package) : Decidable (Ordered o p) :=
  inferInstanceAs (Decidable (_ → _ → _))

/-! ## Increasing numbers -/

/-- Increasing numbers below `n` that are at least `n` are all of them. -/
theorem eq_range_of_pairwise {l : List ℕ} {n : ℕ} (hlt : ∀ x ∈ l, x < n)
    (hlength : n ≤ l.length) (h : l.Pairwise (· < ·)) : l = List.range n := by
  have hnodup : l.Nodup := h.imp Nat.ne_of_lt
  have hsub : l.Subperm (List.range n) :=
    hnodup.subperm fun x hx => List.mem_range.mpr (hlt x hx)
  have hperm : l.Perm (List.range n) :=
    hsub.perm_of_length_le (by rw [List.length_range]; exact hlength)
  exact hperm.eq_of_pairwise (fun a b _ _ hab hba => by omega) h
    List.pairwise_lt_range

theorem append_eq_range_iff {l : List ℕ} {n : ℕ} (hlt : ∀ x ∈ l, x < n)
    (hlength : n ≤ l.length) :
    l ++ [n] = List.range (n + 1) ↔ (l ++ [n]).Pairwise (· < ·) := by
  constructor
  · intro h
    rw [h]
    exact List.pairwise_lt_range
  · intro h
    rw [eq_range_of_pairwise hlt hlength (List.pairwise_append.mp h).1,
      List.range_succ]

theorem toInt_eq_iff {n k : ℕ} (hk : k < 2 ^ 31) :
    CInt.toInt n = k ↔ n % 2 ^ 32 = k := by
  rw [CInt.toInt, Int.bmod_def]
  split <;> omega

/-! ## One package -/

/-- The counters count the packages, none of which is the last one. -/
structure Counted (o : Observed) : Prop where
  arrays : Bounds.Arrays o.client
  counter_eq : ∀ c, o.client.counter c = CInt.toInt (o.numbers c).length
  number_lt : ∀ c, ∀ n ∈ o.numbers c, n < 240

theorem toInt_length_nil : CInt.toInt ([] : List ℕ).length = 0 :=
  CInt.toInt_eq_self (by decide) (by decide)

theorem counted_start {client : State} (h : Start client) :
    Counted (start client) := by
  refine ⟨⟨h.length_image, h.length_buf⟩, fun c => ?_, fun _ _ hn => ?_⟩
  · exact (h.counter_eq c).trans toInt_length_nil.symm
  · exact absurd hn List.not_mem_nil

theorem length_received_le (order : ByteOrder) (p : Package) :
    (p.received order).bytes.length ≤ 1600 :=
  List.length_take_le ..

theorem bytes_received (order : ByteOrder) (p : Package) :
    ∃ rest, (p.received order).bytes =
      order.storeInt (p.cam : ℕ) ++
        (order.storeInt (p.number : ℕ) ++ rest) := by
  have hcam := order.length_storeInt ((p.cam : ℕ) : ℤ)
  have hnumber := order.length_storeInt ((p.number : ℕ) : ℤ)
  refine ⟨p.data.take 1592, ?_⟩
  rw [Package.received, TestClient.received, List.take_append, hcam,
    List.take_append, hnumber, List.take_of_length_le (by omega),
    List.take_of_length_le (by omega)]

theorem loadInt_cam (order : ByteOrder) (p : Package) :
    order.loadInt ((p.received order).bytes.take 4) = ((p.cam : ℕ) : ℤ) := by
  obtain ⟨rest, hbytes⟩ := bytes_received order p
  have hcam := p.cam.isLt
  rw [hbytes, List.take_left' (order.length_storeInt _),
    ByteOrder.loadInt_storeInt order (by omega) (by omega)]

theorem loadInt_number (order : ByteOrder) (p : Package) :
    order.loadInt (((p.received order).bytes.drop 4).take 4) =
      ((p.number : ℕ) : ℤ) := by
  obtain ⟨rest, hbytes⟩ := bytes_received order p
  have hnumber := p.number.isLt
  rw [hbytes, List.drop_left' (order.length_storeInt _),
    List.take_left' (order.length_storeInt _),
    ByteOrder.loadInt_storeInt order (by omega) (by omega)]

theorem readable_received (order : ByteOrder) (p : Package) :
    Bounds.Readable order (p.received order) := by
  refine ⟨?_, ?_, ?_⟩
  · obtain ⟨rest, hbytes⟩ := bytes_received order p
    rw [hbytes]
    simp only [List.length_append, ByteOrder.length_storeInt]
    omega
  · calc
      (p.received order).bytes.length - 8 ≤ (p.received order).bytes.length :=
        Nat.sub_le _ _
      _ ≤ 1600 := length_received_le order p
      _ ≤ imageSize := by decide
  · rw [loadInt_cam]
    have hcam := p.cam.isLt
    omega

theorem iteration_received (order : ByteOrder) {st : State}
    (harrays : Bounds.Arrays st) (p : Package) :
    ∃ st', Bounds.Arrays st' ∧ st'.counter = st.counter ∧
      iteration order st (p.received order) =
        some ((countPackage st' p.cam (p.number : ℕ)).1, .continues,
          (countPackage st' p.cam (p.number : ℕ)).2) := by
  have hcam : camIndex (order.loadInt ((p.received order).bytes.take 4)) =
      some p.cam := by
    rw [loadInt_cam, camIndex_fin]
  obtain ⟨image, buf, himage, hbuf, hiteration⟩ :=
    Bounds.iteration_of_readable harrays (length_received_le order p)
      (readable_received order p) hcam
  rw [loadInt_number] at hiteration
  exact ⟨_, Bounds.arrays_update harrays p.cam himage hbuf, rfl, hiteration⟩

theorem observe_of_lt (o : Observed) {p : Package} (hp : (p.number : ℕ) < 240)
    (st : State) :
    observe o p ((countPackage st p.cam (p.number : ℕ)).1, .continues,
        (countPackage st p.cam (p.number : ℕ)).2) =
      { client := { st with
          counter := Function.update st.counter p.cam
            (CInt.toInt (st.counter p.cam + 1)) }
        numbers := Function.update o.numbers p.cam
          (o.numbers p.cam ++ [(p.number : ℕ)])
        report := none } := by
  have hcount : ¬ (((p.number : ℕ) : ℤ) ≥ 240) := by omega
  rw [countPackage, if_neg hcount]
  rfl

/-- The last package completes the image, with a warning unless the counter is
240. -/
theorem observe_of_eq (o : Observed) {p : Package} (hp : (p.number : ℕ) = 240)
    (st : State) :
    observe o p ((countPackage st p.cam (p.number : ℕ)).1, .continues,
        (countPackage st p.cam (p.number : ℕ)).2) =
      { client := { st with counter := Function.update st.counter p.cam 0 }
        numbers := Function.update o.numbers p.cam []
        report := some
          { numbers := o.numbers p.cam ++ [240]
            warned := decide (st.counter p.cam ≠ 240) } } := by
  have hlast : (((p.number : ℕ) : ℤ) ≥ 240) := by omega
  rw [countPackage, if_pos hlast, hp]
  by_cases hcounter : st.counter p.cam = 240 <;>
    simp [observe, completes, warns, hcounter, hp]

theorem Counted.update {o : Observed} (h : Counted o) {st : State}
    (harrays : Bounds.Arrays st) (hcounter : st.counter = o.client.counter)
    (cam : Fin 2) {numbers : List ℕ} (hnumbers : ∀ n ∈ numbers, n < 240)
    {count : ℤ} (hcount : count = CInt.toInt numbers.length)
    (report : Option Report) :
    Counted
      { client := { st with counter := Function.update st.counter cam count }
        numbers := Function.update o.numbers cam numbers
        report := report } := by
  refine ⟨⟨harrays.length_image, harrays.length_buf⟩, fun c => ?_, fun c => ?_⟩
  · by_cases hc : c = cam
    · subst hc
      simp only [Function.update_self]
      exact hcount
    · simp only [Function.update_of_ne hc, hcounter]
      exact h.counter_eq c
  · by_cases hc : c = cam
    · subst hc
      simp only [Function.update_self]
      exact hnumbers
    · simp only [Function.update_of_ne hc]
      exact h.number_lt c

theorem step_of_lt (order : ByteOrder) {o : Observed} (h : Counted o)
    {p : Package} (hp : (p.number : ℕ) < 240) :
    ∃ o', step order o p = some o' ∧ Counted o' ∧ o'.report = none ∧
      o'.numbers = Function.update o.numbers p.cam
        (o.numbers p.cam ++ [(p.number : ℕ)]) := by
  obtain ⟨st, harrays, hcounter, hiteration⟩ :=
    iteration_received order h.arrays p
  have hnumbers : ∀ n ∈ o.numbers p.cam ++ [(p.number : ℕ)], n < 240 := by
    intro n hn
    rcases List.mem_append.mp hn with hn | hn
    · exact h.number_lt p.cam n hn
    · rw [List.mem_singleton.mp hn]
      exact hp
  have hcount : CInt.toInt (st.counter p.cam + 1) =
      CInt.toInt (o.numbers p.cam ++ [(p.number : ℕ)]).length := by
    rw [hcounter, h.counter_eq, CInt.toInt, CInt.toInt, CInt.toInt,
      Int.bmod_add_bmod, List.length_append]
    rfl
  refine ⟨_, ?_, h.update harrays hcounter p.cam hnumbers hcount none, rfl, rfl⟩
  rw [step, hiteration, Option.map_some, observe_of_lt o hp]

theorem step_of_eq (order : ByteOrder) {o : Observed} (h : Counted o)
    {p : Package} (hp : (p.number : ℕ) = 240) :
    ∃ o', step order o p = some o' ∧ Counted o' ∧ o'.report = some
      { numbers := o.numbers p.cam ++ [240]
        warned :=
          decide (CInt.toInt (o.numbers p.cam).length ≠ ((240 : ℕ) : ℤ)) } := by
  obtain ⟨st, harrays, hcounter, hiteration⟩ :=
    iteration_received order h.arrays p
  refine ⟨_, ?_, h.update harrays hcounter p.cam
    (fun n hn => absurd hn List.not_mem_nil) toInt_length_nil.symm _, rfl⟩
  rw [step, hiteration, Option.map_some, observe_of_eq o hp, hcounter,
    h.counter_eq]
  rfl

/-! ## All packages -/

theorem exists_step (order : ByteOrder) {o : Observed} (h : Counted o)
    (p : Package) : ∃ o', step order o p = some o' ∧ Counted o' := by
  by_cases hp : (p.number : ℕ) < 240
  · obtain ⟨o', hstep, hcounted, -⟩ := step_of_lt order h hp
    exact ⟨o', hstep, hcounted⟩
  · have hlast : (p.number : ℕ) = 240 := by
      have hlt := p.number.isLt
      omega
    obtain ⟨o', hstep, hcounted, -⟩ := step_of_eq order h hlast
    exact ⟨o', hstep, hcounted⟩

/-- The report on the image that a package completes is right exactly when its
packages are in order or their count shows that they are not. -/
theorem detects_iff {order : ByteOrder} {o o' : Observed} (h : Counted o)
    {p : Package} (hstep : step order o p = some o') :
    Detects o' ↔ Ordered o p := by
  by_cases hp : (p.number : ℕ) < 240
  · obtain ⟨t, ht, -, hreport, -⟩ := step_of_lt order h hp
    obtain rfl := Option.some.inj (ht.symm.trans hstep)
    refine iff_of_true ?_ fun hlast => ?_
    · rintro r hr
      rw [hreport] at hr
      cases hr
    · omega
  · have hlast : (p.number : ℕ) = 240 := by
      have hlt := p.number.isLt
      omega
    obtain ⟨t, ht, -, hreport⟩ := step_of_eq order h hlast
    obtain rfl := Option.some.inj (ht.symm.trans hstep)
    simp only [Detects, hreport, Ordered, Option.mem_def, Option.some.injEq,
      forall_eq', decide_eq_false_iff_not, not_not,
      toInt_eq_iff (by decide : 240 < 2 ^ 31)]
    constructor
    · intro hdetects _ hcount
      refine (append_eq_range_iff (h.number_lt p.cam) ?_).mp (hdetects hcount)
      omega
    · intro hordered hcount
      refine (append_eq_range_iff (h.number_lt p.cam) ?_).mpr
        (hordered hlast hcount)
      omega

theorem exists_run (order : ByteOrder) {o : Observed} (h : Counted o)
    (ps : List Package) : ∃ o', run (step order) o ps = some o' := by
  induction ps generalizing o with
  | nil => exact ⟨o, rfl⟩
  | cons p ps ih =>
      obtain ⟨o', hstep, hcounted⟩ := exists_step order h p
      rw [run_cons, hstep]
      exact ih hcounted

theorem eachState_detects_iff (order : ByteOrder) {o : Observed}
    (h : Counted o) (hdetects : Detects o) (ps : List Package) :
    EachState (step order) Detects o ps ↔
      EachStep (step order) Ordered o ps := by
  have hkeep : ∀ t p t', Counted t → step order t p = some t' →
      Counted t' := by
    intro t p t' ht hstep
    obtain ⟨t'', hstep', hcounted⟩ := exists_step order ht p
    obtain rfl := Option.some.inj (hstep'.symm.trans hstep)
    exact hcounted
  refine eachState_iff_eachStep (I := fun t => Counted t ∧ Detects t)
    (fun t ht => ht.2) ?_ ?_ ⟨h, hdetects⟩
    (EachStep.of_forall (fun _ _ => trivial) o ps)
  · intro t p t' ht _ hp hstep
    exact ⟨hkeep t p t' ht.1 hstep, (detects_iff ht.1 hstep).mpr hp⟩
  · intro t p t' ht _ hp hstep hdetects'
    exact hp ((detects_iff ht.1 hstep).mp hdetects')

theorem run_of_lt (order : ByteOrder) {c : Fin 2} {ps : List Package}
    (hps : ∀ p ∈ ps, p.cam = c ∧ (p.number : ℕ) < 240) {o : Observed}
    (h : Counted o) :
    ∃ o', run (step order) o ps = some o' ∧ Counted o' ∧
      o'.numbers c = o.numbers c ++ ps.map fun p => (p.number : ℕ) := by
  induction ps generalizing o with
  | nil => exact ⟨o, rfl, h, (List.append_nil _).symm⟩
  | cons p ps ih =>
      obtain ⟨⟨rfl, hp⟩, hrest⟩ := List.forall_mem_cons.mp hps
      obtain ⟨t, hstep, ht, -, hnumbers⟩ := step_of_lt order h hp
      obtain ⟨o', hrun, ho', hall⟩ := ih hrest ht
      refine ⟨o', ?_, ho', ?_⟩
      · rw [run_cons, hstep]
        exact hrun
      · rw [hall, hnumbers, Function.update_self, List.append_assoc]
        rfl

/-- A package of the first camera, without data. -/
def emptyPackage (n : ℕ) : Package :=
  { cam := ⟨0, Nat.zero_lt_two⟩
    number := ⟨n % 241, Nat.mod_lt n (Nat.zero_lt_succ 240)⟩
    data := [] }

/-- The client detects lost and reordered packages in exactly those runs in
which the packages that have the count of a whole image are in order. -/
theorem detects_iff_ordered (order : ByteOrder) {client : State}
    (h : Start client) (ps : List Package) :
    (∃ o, run (step order) (start client) ps = some o) ∧
      (EachState (step order) Detects (start client) ps ↔
        EachStep (step order) Ordered (start client) ps) := by
  have hdetects : Detects (start client) := by
    rintro r hr
    cases hr
  exact ⟨exists_run order (counted_start h) ps,
    eachState_detects_iff order (counted_start h) hdetects ps⟩

theorem number_emptyPackage {n : ℕ} (h : n < 241) :
    ((emptyPackage n).number : ℕ) = n :=
  Nat.mod_eq_of_lt h

theorem map_number_emptyPackage {ns : List ℕ} (h : ∀ n ∈ ns, n < 241) :
    (ns.map emptyPackage).map (fun p => (p.number : ℕ)) = ns := by
  rw [List.map_map]
  refine (List.map_congr_left fun n hn => ?_).trans (List.map_id ns)
  exact number_emptyPackage (h n hn)

/-- The packages of a whole image, in order. -/
def wholeImage : List Package :=
  (List.range 240).map emptyPackage ++ [emptyPackage 240]

theorem detects_wholeImage :
    (∃ o, run (step .little) (start blackImages) wholeImage = some o) ∧
      EachState (step .little) Detects (start blackImages) wholeImage := by
  obtain ⟨hrun, hiff⟩ :=
    detects_iff_ordered .little start_blackImages wholeImage
  refine ⟨hrun, hiff.mpr ?_⟩
  have hsmall : ∀ p ∈ (List.range 240).map emptyPackage,
      p.cam = 0 ∧ (p.number : ℕ) < 240 := by
    intro p hp
    obtain ⟨n, hn, rfl⟩ := List.mem_map.mp hp
    have hlt := List.mem_range.mp hn
    rw [number_emptyPackage (by omega)]
    exact ⟨rfl, hlt⟩
  refine EachStep.append (EachStep.of_forall_mem ?_ _) fun o hrun => ?_
  · intro o p hp hlast
    exact absurd hlast (Nat.ne_of_lt (hsmall p hp).2)
  · obtain ⟨o', hrun', -, hnumbers⟩ := run_of_lt .little hsmall
      (counted_start start_blackImages)
    obtain rfl := Option.some.inj (hrun'.symm.trans hrun)
    rw [map_number_emptyPackage fun n hn => by
      have hlt := List.mem_range.mp hn
      omega] at hnumbers
    refine fun _ _ => ⟨fun _ _ => ?_, trivial⟩
    have hnil : (start blackImages).numbers 0 = [] := rfl
    have hall : o'.numbers 0 ++ [240] = List.range 241 := by
      rw [hnumbers, hnil, List.nil_append, ← List.range_succ]
    change (o'.numbers 0 ++ [240]).Pairwise (· < ·)
    rw [hall]
    exact List.pairwise_lt_range

/-- The first half of an image, and another one without its second half but for
the last package. -/
theorem halves_not_detected :
    ¬ ∀ (order : ByteOrder) (client : State) (ps : List Package),
      Start client → EachState (step order) Detects (start client) ps := by
  intro hall
  have hsmall : ∀ p ∈ (List.range 120 ++ List.range 120).map emptyPackage,
      p.cam = 0 ∧ (p.number : ℕ) < 240 := by
    intro p hp
    obtain ⟨n, hn, rfl⟩ := List.mem_map.mp hp
    have hlt : n < 120 := by simpa using hn
    refine ⟨rfl, ?_⟩
    change n % 241 < 240
    omega
  obtain ⟨o, hrun, ho, hnumbers⟩ := run_of_lt .little hsmall
    (counted_start start_blackImages)
  obtain ⟨o', hstep, -⟩ := exists_step .little ho (emptyPackage 240)
  have hrun' : run (step .little) (start blackImages)
      ((List.range 120 ++ List.range 120).map emptyPackage ++
        [emptyPackage 240]) = some o' := by
    rw [run_append, hrun, Option.bind_some, run_cons, hstep]
    rfl
  have hnumbers' : o.numbers 0 = List.range 120 ++ List.range 120 := by
    rw [hnumbers, map_number_emptyPackage]
    · rfl
    · intro n hn
      have hlt : n < 120 := by simpa using hn
      omega
  have hordered := (detects_iff ho hstep).mp
    ((hall .little blackImages _ start_blackImages).last hrun')
  have hpairwise : (o.numbers 0 ++ [240]).Pairwise (· < ·) := by
    refine hordered rfl ?_
    change (o.numbers 0).length % 2 ^ 32 = 240
    rw [hnumbers', List.length_append, List.length_range, Nat.mod_eq_of_lt]
    decide
  rw [hnumbers'] at hpairwise
  have hbefore := (List.pairwise_append.mp
    (List.pairwise_append.mp hpairwise).1).2.2
  exact absurd (hbefore 0 (by simp) 0 (by simp)) (by decide)

end LossDetection

end NetworkExperiments.TestClient
