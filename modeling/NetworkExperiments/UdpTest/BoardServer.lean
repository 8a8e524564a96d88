import NetworkExperiments.UdpTest.LossReport

/-!
# The UDP server of the board

`xilinx/UDPserver/udp_server.c` is the UDPtest server for the board.  It sends
each message in two batches with one message id, so that a message has twice the
packages that the UDPtest client expects.

`board_reports` says what the client makes of this, for all packages that can
arrive, in any order and as far as they arrive: the number of lost packages that
it prints is by 1260 too small.  On a link that loses nothing it is -1260, and
it is zero when half of the packages are missing.
-/

namespace NetworkExperiments.UdpTest.BoardServer

open EventSystem LossReport

/-! ## The server -/

/-- One iteration of the outer loop: the packages sent, and the counters
then. -/
def sendMessage (data : Counters) : List Counters × Counters :=
  let data := { data with messageId := data.messageId + 1 }
  let first := sendPackages (imageSize / packageSize) data
  let second := sendPackages (imageSize / packageSize) first.2
  (first.1 ++ second.1, second.2)

/-- The counters when `k` messages have been sent. -/
def countersAfter : ℕ → Counters
  | 0 => ⟨0, 0⟩
  | k + 1 => (sendMessage (countersAfter k)).2

/-- A package: the number of messages before its own, and its place in it. -/
structure Package where
  message : ℕ
  index : Fin (2 * packagesPerMessage)
  deriving DecidableEq, Repr

def Package.counters (p : Package) : Counters where
  packageId :=
    UInt32.ofNat (2 * packagesPerMessage * p.message + p.index + 1)
  messageId := UInt32.ofNat (p.message + 1)

theorem countersAfter_eq (k : ℕ) : countersAfter k =
    ⟨UInt32.ofNat (2 * packagesPerMessage * k), UInt32.ofNat k⟩ := by
  induction k with
  | zero => rfl
  | succ k ih =>
      have hcount : 2 * packagesPerMessage * (k + 1) =
          2 * packagesPerMessage * k + imageSize / packageSize +
            imageSize / packageSize := by
        rw [Nat.mul_succ, packagesPerMessage]
        omega
      rw [countersAfter, ih, sendMessage, ofNat_add_one, sendPackages_ofNat,
        sendPackages_ofNat, hcount]

theorem sendMessage_packages (k : ℕ) :
    (sendMessage (countersAfter k)).1 =
      (List.finRange (2 * packagesPerMessage)).map fun i =>
        (Package.mk k i).counters := by
  have hrange : (List.range (2 * packagesPerMessage)).map (fun i =>
      (⟨UInt32.ofNat (2 * packagesPerMessage * k + i + 1),
        UInt32.ofNat (k + 1)⟩ : Counters)) =
      (List.finRange (2 * packagesPerMessage)).map fun i =>
        (Package.mk k i).counters := by
    rw [← List.map_coe_finRange_eq_range, List.map_map]
    rfl
  have hper : imageSize / packageSize = packagesPerMessage := rfl
  rw [← hrange, Nat.two_mul, List.range_add, List.map_append, List.map_map,
    countersAfter_eq, sendMessage, ofNat_add_one, sendPackages_ofNat,
    sendPackages_ofNat, hper, ← Nat.two_mul]
  simp only [Function.comp_def, Nat.add_assoc]

/-! ## The client -/

/-- The client, the packages received since its start, and the message ids
counted since its last report. -/
structure Observed where
  client : State
  received : List Package
  counted : List UInt32

def start : Observed := ⟨initialState, [], []⟩

/-- A package arrives, and the report is due or not. -/
structure Arrival where
  package : Package
  reports : Bool
  deriving DecidableEq, Repr

def step (o : Observed) (a : Arrival) : Option Observed :=
  (iteration o.client a.package.counters a.reports).map fun result =>
    { client := result.2
      received := o.received ++ [a.package]
      counted :=
        if a.reports then [] else o.counted ++ [a.package.counters.messageId] }

/-- What a report with the package prints for the packages lost. -/
def printed (o : Observed) (p : Package) : Option (List ℤ) :=
  (iteration o.client p.counters true).map fun result =>
    result.1.filterMap printedLost

/-- The packages of the 28 messages that a report is about. -/
def windowPackages (message : ℕ) : List Package :=
  (window message).flatMap fun k =>
    (List.finRange (2 * packagesPerMessage)).map (Package.mk k)

/-- How many packages of the window have been received, and how many not. -/
def arrived (received : List Package) (message : ℕ) : ℕ :=
  (windowPackages message).countP (· ∈ received)

def missing (received : List Package) (message : ℕ) : ℕ :=
  (windowPackages message).countP (· ∉ received)

/-- The ids have the same remainder, up to the distance of a message of the
window. -/
def SameSlots (messageId id : UInt32) : Prop :=
  ∃ d ∈ List.range' 3 28, (id.toNat + d) % 32 = messageId.toNat % 32

instance (messageId : UInt32) : DecidablePred (SameSlots messageId) :=
  fun _ => inferInstanceAs (Decidable (∃ d ∈ List.range' 3 28, _))

/-- The packages counted in the slots of the window, since the last report, are
as many as have been received of the window. -/
def CountsWindow (o : Observed) (p : Package) : Prop :=
  (o.counted ++ [p.counters.messageId]).countP
      (SameSlots p.counters.messageId) % 2 ^ 32 =
    arrived (o.received ++ [p]) p.message % 2 ^ 32

/-- A report on 28 messages prints 1260 less than are missing, exactly when the
counted packages agree with those of the window. -/
def ReportsHalf (o : Observed) : Prop :=
  ∀ p : Package, 30 ≤ p.message → p.message ≤ 2 ^ 31 + 2 →
    (printed o p =
        some [(missing (o.received ++ [p]) p.message : ℤ) - 1260] ↔
      CountsWindow o p)

/-! ## The counters -/

/-- How many ids count for an element of the array. -/
def count (ids : List UInt32) (i : Fin 32) : ℕ :=
  ids.countP fun id => messageSlot id = i

/-- The array counts the packages since the last report. -/
structure Counted (o : Observed) : Prop where
  packagesLost_eq : o.client.packagesLost = 0
  packageCounter_eq : o.client.packageCounter =
    fun i => UInt32.ofNat (count o.counted i)

theorem packageCounter_countPackage {st : State} {ids : List UInt32}
    (h : st.packageCounter = fun i => UInt32.ofNat (count ids i))
    (id : UInt32) :
    (countPackage st id).packageCounter =
      fun i => UInt32.ofNat (count (ids ++ [id]) i) := by
  funext i
  have hcount : count (ids ++ [id]) i =
      count ids i + if messageSlot id = i then 1 else 0 := by
    simp [count, List.countP_append, List.countP_cons]
  simp only [countPackage, h, hcount]
  by_cases hi : i = messageSlot id
  · subst hi
    rw [Function.update_self, if_pos rfl, ofNat_add_one]
  · rw [Function.update_of_ne hi, if_neg (Ne.symm hi), Nat.add_zero]

theorem counted_start : Counted start := ⟨rfl, rfl⟩

theorem counted_step (o : Observed) (a : Arrival) (o' : Observed)
    (h : Counted o) (hstep : step o a = some o') : Counted o' := by
  obtain ⟨⟨events, client⟩, hiteration, rfl⟩ := Option.map_eq_some_iff.mp hstep
  cases hreports : a.reports with
  | false =>
      rw [hreports] at hiteration
      obtain ⟨-, rfl⟩ := Prod.mk.inj (Option.some.inj hiteration)
      exact ⟨h.packagesLost_eq,
        packageCounter_countPackage h.packageCounter_eq _⟩
  | true =>
      rw [hreports] at hiteration
      obtain ⟨hlost, hcounter⟩ := report_client hiteration
      exact ⟨hlost, hcounter⟩

theorem messageSlot_mem_iff {m : UInt32} (hm : 30 ≤ m.toNat) (id : UInt32) :
    messageSlot id ∈ slots (m.toNat - 30) ↔ SameSlots m id := by
  rw [slots, List.mem_map, SameSlots]
  simp only [List.mem_range'_1]
  constructor
  · rintro ⟨k, hk, heq⟩
    have hmod : k % 32 = id.toNat % 32 := congrArg Fin.val heq
    exact ⟨m.toNat - k, by omega, by omega⟩
  · rintro ⟨d, hd, hmod⟩
    refine ⟨m.toNat - d, by omega, Fin.ext ?_⟩
    change (m.toNat - d) % 32 = id.toNat % 32
    omega

theorem sum_count {m : UInt32} (hm : 30 ≤ m.toNat) (ids : List UInt32) :
    ((slots (m.toNat - 30)).map (count ids)).sum =
      ids.countP (SameSlots m) := by
  have hsum := CyclicSlots.sum_countP messageSlot ids
    (slots_nodup (m.toNat - 30))
  refine hsum.trans (List.countP_congr fun id _ => ?_)
  simp only [decide_eq_true_eq, messageSlot_mem_iff hm]

/-! ## The report -/

theorem windowValues_slots {m : UInt32} (hm : 30 ≤ m.toNat)
    (hle : m.toNat ≤ 2 ^ 31 + 3) :
    ∃ js, windowValues m = some js ∧
      js.map slot = (slots (m.toNat - 30)).map some := by
  have hfirst : (2 ^ 32 - 30 + m.toNat) % 2 ^ 32 = m.toNat - 30 := by omega
  have hwindow := windowValues_of_le (Or.inr hm)
  rw [hfirst] at hwindow
  refine ⟨_, hwindow, ?_⟩
  rw [slots, List.map_map, List.map_map]
  refine List.map_congr_left fun k hk => ?_
  rw [List.mem_range'_1] at hk
  rw [Function.comp_apply, Function.comp_apply]
  exact slot_counter (by omega)

/-- A report prints what would be missing if messages had the size that the
client expects. -/
theorem printed_eq {o : Observed} (h : Counted o) {p : Package}
    (hm : 30 ≤ p.counters.messageId.toNat)
    (hle : p.counters.messageId.toNat ≤ 2 ^ 31 + 3) :
    printed o p = some [CInt.toInt (1260 -
      ((o.counted ++ [p.counters.messageId]).countP
        (SameSlots p.counters.messageId) : ℕ))] := by
  obtain ⟨js, hjs, hslots⟩ := windowValues_slots hm hle
  have hcounter : (countPackage (zeroBehind o.client)
      p.counters.messageId).packageCounter =
        fun i => UInt32.ofNat
          (count (o.counted ++ [p.counters.messageId]) i) :=
    packageCounter_countPackage h.packageCounter_eq p.counters.messageId
  have hzero : (countPackage (zeroBehind o.client)
      p.counters.messageId).packagesLost = CInt.toInt 0 := h.packagesLost_eq
  obtain ⟨events, hadd, hnone⟩ :=
    addLost_eq (count (o.counted ++ [p.counters.messageId])) hslots 0
  have hlength : (slots (p.counters.messageId.toNat - 30)).length = 28 := by
    rw [slots, List.length_map, List.length_range']
  have hproduct : (packagesPerMessage : ℤ) * (28 : ℕ) = 1260 := rfl
  rw [Int.zero_add, ← hcounter, ← hzero, hlength, hproduct, sum_count hm]
    at hadd
  obtain ⟨received, client, hreport⟩ := report_eq _ hjs hadd
  rw [printed, iteration_due, hreport, Option.map_some,
    List.filterMap_cons_none rfl, List.filterMap_append, hnone,
    List.nil_append]
  rfl

theorem arrived_add_missing (received : List Package) {message : ℕ}
    (h : 30 ≤ message) :
    arrived received message + missing received message = 2520 := by
  have hwindow : (window message).length = 28 := by
    have hall : (List.range' 3 28).filter (· ≤ message) =
        List.range' 3 28 := by
      refine List.filter_eq_self.mpr fun d hd => ?_
      rw [List.mem_range'_1] at hd
      exact decide_eq_true (by omega)
    rw [window, hall, List.length_map, List.length_range']
  have hlength : (windowPackages message).length = 2520 := by
    rw [windowPackages, List.length_flatMap]
    simp only [List.length_map, List.length_finRange, List.map_const',
      List.sum_replicate_nat, hwindow]
    rfl
  have hmissing : missing received message = (windowPackages message).countP
      fun q => decide ¬(decide (q ∈ received) = true) := by
    simp only [missing, decide_eq_true_eq]
  rw [← hlength, hmissing]
  exact (List.length_eq_countP_add_countP (· ∈ received)).symm

theorem reportsHalf_of_counted {o : Observed} (h : Counted o) :
    ReportsHalf o := by
  intro p hlo hhi
  have hid : p.counters.messageId.toNat = p.message + 1 := by
    change (UInt32.ofNat (p.message + 1)).toNat = _
    rw [UInt32.toNat_ofNat']
    omega
  have hadd := arrived_add_missing (o.received ++ [p]) hlo
  rw [printed_eq h (by omega) (by omega), CountsWindow, Option.some.injEq,
    List.cons.injEq, and_iff_left rfl, CInt.toInt, Int.bmod_def]
  split <;> omega

/-- In every run, with any loss and in any order, the client is by 1260 too low
whenever it has counted the packages of its window. -/
theorem board_reports (arrivals : List Arrival) :
    EachState step ReportsHalf start arrivals :=
  (eachState_of_eachStep (fun o a o' h _ => counted_step o a o' h)
    counted_start (EachStep.of_forall (fun _ _ => trivial) _ arrivals)).mono
    fun _ h => reportsHalf_of_counted h

end NetworkExperiments.UdpTest.BoardServer
