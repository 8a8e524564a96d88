import Mathlib.Data.List.FinRange
import NetworkExperiments.Support.CyclicSlots
import NetworkExperiments.Support.Run
import NetworkExperiments.UdpTest.Client

/-!
# The loss report of the UDPtest client

The packages of a sender that uses the client's `PACKAGE_SIZE` arrive in any
order, as far as they arrive, and the report may be due with any of them.  It is
to tell how many packages are missing of the messages that lie 30 to 3 before
that of the last package.

The counters hold all packages since the last report with the remainders of
these messages, but none from before it, and the loop over the messages is empty
for small ids.  The report is right exactly when these effects cancel out.
-/

namespace NetworkExperiments.UdpTest

open EventSystem

/-- A package of the sender: the number of messages before its own, and its
place in it. -/
structure Package where
  message : ℕ
  index : Fin packagesPerMessage
  deriving DecidableEq, Repr

/-- The counters of the package. -/
def Package.counters (p : Package) : Counters where
  packageId :=
    UInt32.ofNat (packagesPerMessage * p.message + p.index + 1)
  messageId := UInt32.ofNat (p.message + 1)

def Package.messageId (p : Package) : UInt32 := p.counters.messageId

/-- The packages that the server would send with the size of the client. -/
theorem sendMessage_packages (k : ℕ) :
    (sendMessage packageSize (countersAfter packageSize k)).1 =
      (List.finRange packagesPerMessage).map fun i =>
        (Package.mk k i).counters := by
  rw [sendMessage_eq, ← List.map_coe_finRange_eq_range, List.map_map]
  rfl

namespace LossReport

/-- A package arrives, and the report is due or not. -/
structure Arrival where
  package : Package
  reports : Bool
  deriving DecidableEq, Repr

/-- The client, and the packages received since its start and since its last
report. -/
structure Observed where
  client : State
  received : List Package
  counted : List Package

def start : Observed := ⟨initialState, [], []⟩

def step (o : Observed) (a : Arrival) : Option Observed :=
  (iteration o.client a.package.counters a.reports).map fun result =>
    { client := result.2
      received := o.received ++ [a.package]
      counted := if a.reports then [] else o.counted ++ [a.package] }

/-- The messages from 30 to 3 before a message, as far as there are any. -/
def window (message : ℕ) : List ℕ :=
  ((List.range' 3 28).filter (· ≤ message)).map (message - ·)

def windowPackages (message : ℕ) : List Package :=
  (window message).flatMap fun k =>
    (List.finRange packagesPerMessage).map (Package.mk k)

/-- How many packages of the window have been received, and how many not. -/
def arrived (received : List Package) (message : ℕ) : ℕ :=
  (windowPackages message).countP (· ∈ received)

def missing (received : List Package) (message : ℕ) : ℕ :=
  (windowPackages message).countP (· ∉ received)

/-- The number that a report has for the lost packages. -/
def printedLost : Event → Option ℤ
  | .packagesLost packages => some packages
  | .received _ | .packageCounter _ => none

/-- A report accesses `package_counter` inside of its bounds and prints the
number of packages missing. -/
def Correct (o : Observed) (a : Arrival) : Prop :=
  a.reports = true →
    (∀ js, windowValues a.package.messageId = some js →
      ∀ j ∈ js, 0 ≤ j.tmod 32 ∧ j.tmod 32 < 32) ∧
    ∃ events client,
      iteration o.client a.package.counters true = some (events, client) ∧
      events.filterMap printedLost =
        [(missing (o.received ++ [a.package]) a.package.message : ℤ)]

/-- The id of the package has the same remainder as one of the 28 ids that end
three before the given one. -/
def SharesSlot (messageId : UInt32) (p : Package) : Prop :=
  ∃ d ∈ List.range' 3 28,
    (p.messageId.toNat + d) % 32 = messageId.toNat % 32

instance (messageId : UInt32) (p : Package) :
    Decidable (SharesSlot messageId p) :=
  inferInstanceAs (Decidable (∃ d ∈ List.range' 3 28, _))

/-- For an id below 30 nothing is missing.  Up to the middle of the range, the
packages counted in the slots of the window are as many as have been received of
the window, and those of the messages that there are not. -/
def Agrees (o : Observed) (a : Arrival) : Prop :=
  a.reports = true →
    let id := a.package.messageId.toNat
    let received := o.received ++ [a.package]
    let counted := o.counted ++ [a.package]
    (2 ≤ id ∧ id < 30 ∧ missing received a.package.message = 0) ∨
      (30 ≤ id ∧ id ≤ 2 ^ 31 + 3 ∧
        counted.countP (SharesSlot a.package.messageId) % 2 ^ 32 =
          (arrived received a.package.message + packagesPerMessage *
            (28 - (window a.package.message).length)) % 2 ^ 32)

instance (o : Observed) (a : Arrival) : Decidable (Agrees o a) :=
  inferInstanceAs (Decidable (_ → _))

/-! ## The loop over the messages -/

theorem toSize_counter {k : ℕ} (hk : k < 2 ^ 32) :
    CInt.toSize 32 (CountingLoop.counter 1 k) = k := by
  have hcounter : CountingLoop.counter 1 k = CInt.toLong 32 (k : ℤ) := by
    rw [CountingLoop.counter, Int.mul_one]
    rfl
  rw [hcounter, CInt.toSize_toLong, CInt.toSize_natCast hk]

/-- The loop runs from one id to the other, as unsigned numbers. -/
theorem windowValues_eq (m : UInt32) :
    windowValues m = some ((List.range' (m - 30).toNat
      ((m - 2).toNat - (m - 30).toNat)).map (CountingLoop.counter 1)) := by
  have hfirst := (m - 30).toNat_lt
  have hlast := (m - 2).toNat_lt
  have hstart : CInt.toInt (m - 30).toNat =
      CountingLoop.counter 1 (m - 30).toNat := by
    rw [CountingLoop.counter, Int.mul_one]
  rw [windowValues, hstart]
  refine CountingLoop.values_eq_some ?_ ?_ ?_
  · rw [loopFuel]
    omega
  · intro j hj
    rw [toSize_counter (by omega)]
    omega
  · rw [toSize_counter (by omega)]
    omega

/-- Up to the middle of the range, the remainders are not negative. -/
theorem tmod_counter {k : ℕ} (hk : k ≤ 2 ^ 31) :
    (CountingLoop.counter 1 k).tmod 32 = ((k % 32 : ℕ) : ℤ) := by
  rw [CountingLoop.counter, Int.mul_one, CInt.toInt, Int.bmod_def,
    Int.tmod_eq_emod]
  split <;> split <;> omega

/-- Above it, they are negative but for the multiples of 32. -/
theorem tmod_counter_neg {k : ℕ} (hk : 2 ^ 31 < k) (hlt : k < 2 ^ 32)
    (hmod : k % 32 ≠ 0) : (CountingLoop.counter 1 k).tmod 32 < 0 := by
  rw [CountingLoop.counter, Int.mul_one, CInt.toInt, Int.bmod_def,
    Int.tmod_eq_emod]
  split <;> split <;> omega

theorem slot_counter {k : ℕ} (hk : k ≤ 2 ^ 31) :
    slot (CountingLoop.counter 1 k) = some (element k) := by
  have heq : element (k % 32) = element k := Fin.ext (Nat.mod_mod k 32)
  rw [slot, tmod_counter hk, if_pos (Int.natCast_nonneg _), Int.toNat_natCast,
    heq]

/-! ## The sum -/

theorem toNat_sub_ofNat (k n : ℕ) :
    (UInt32.ofNat k - UInt32.ofNat n).toNat = CInt.toSize 32 (k - n) := by
  rw [UInt32.toNat_sub, UInt32.toNat_ofNat', UInt32.toNat_ofNat', CInt.toSize]
  omega

/-- The unsigned difference is added as if it were not. -/
theorem toInt_add_missing (x : ℤ) (n : ℕ) :
    CInt.toInt (CInt.toInt x +
        (UInt32.ofNat packagesPerMessage - UInt32.ofNat n).toNat) =
      CInt.toInt (x + packagesPerMessage - n) := by
  have hwrap : ∀ y : ℤ,
      CInt.toInt (CInt.toInt x + y) = CInt.toInt (y + x) := by
    intro y
    rw [CInt.toInt, CInt.toInt, CInt.toInt, Int.bmod_add_bmod, Int.add_comm]
  have hsum : x + packagesPerMessage - n = packagesPerMessage - n + x := by
    omega
  rw [toNat_sub_ofNat, hwrap, CInt.toInt_toSize_add, hsum]

theorem addLost_eq (count : Fin 32 → ℕ) {js : List ℤ} {slots : List (Fin 32)}
    (hslots : js.map slot = slots.map some) (x : ℤ) :
    ∃ events, addLost (fun i => UInt32.ofNat (count i)) (CInt.toInt x) js =
        some (events, CInt.toInt (x + packagesPerMessage * slots.length -
          (slots.map count).sum)) ∧
      events.filterMap printedLost = [] := by
  induction js generalizing slots x with
  | nil =>
      obtain rfl : slots = [] := List.map_eq_nil_iff.mp hslots.symm
      refine ⟨[], ?_, rfl⟩
      simp [addLost]
  | cons j js ih =>
      cases slots with
      | nil => cases hslots
      | cons i slots =>
          obtain ⟨hj, hrest⟩ := List.cons.inj hslots
          obtain ⟨events, hadd, hnone⟩ :=
            ih hrest (x + packagesPerMessage - count i)
          refine ⟨.packageCounter (CInt.toInt (UInt32.ofNat (count i)).toNat) ::
            events, ?_, hnone⟩
          have hsum : x + packagesPerMessage - count i +
                packagesPerMessage * slots.length - (slots.map count).sum =
              x + packagesPerMessage * ((i :: slots).length : ℕ) -
                ((i :: slots).map count).sum := by
            rw [List.length_cons, List.map_cons, List.sum_cons]
            push_cast
            rw [Int.mul_add]
            omega
          simp only [addLost, hj, Option.bind_some, toInt_add_missing, hadd,
            Option.map_some, hsum]

/-! ## One package -/

/-- How many packages count for an element of the array. -/
def count (counted : List Package) (i : Fin 32) : ℕ :=
  counted.countP fun p => messageSlot p.messageId = i

/-- The array counts the packages since the last report. -/
structure Counted (o : Observed) : Prop where
  packagesLost_eq : o.client.packagesLost = 0
  packageCounter_eq : o.client.packageCounter =
    fun i => UInt32.ofNat (count o.counted i)

theorem counted_start : Counted start :=
  ⟨rfl, rfl⟩

theorem packageCounter_countPackage {o : Observed} (h : Counted o)
    (p : Package) :
    (countPackage o.client p.messageId).packageCounter =
      fun i => UInt32.ofNat (count (o.counted ++ [p]) i) := by
  funext i
  have hcount : count (o.counted ++ [p]) i = count o.counted i +
      if messageSlot p.messageId = i then 1 else 0 := by
    simp [count, List.countP_append, List.countP_cons]
  simp only [countPackage, h.packageCounter_eq, hcount]
  by_cases hi : i = messageSlot p.messageId
  · subst hi
    rw [Function.update_self, if_pos rfl, ofNat_add_one]
  · rw [Function.update_of_ne hi, if_neg (Ne.symm hi), Nat.add_zero]

/-- What a report prints when the loop stays inside of the array. -/
theorem iteration_reports {o : Observed} (h : Counted o) (p : Package)
    {js : List ℤ} {slots : List (Fin 32)}
    (hjs : windowValues p.messageId = some js)
    (hslots : js.map slot = slots.map some) :
    ∃ events client, iteration o.client p.counters true =
        some (events, client) ∧
      events.filterMap printedLost =
        [CInt.toInt (packagesPerMessage * slots.length -
          (slots.map (count (o.counted ++ [p]))).sum)] := by
  have hcounter : (countPackage (zeroBehind o.client)
      p.messageId).packageCounter =
        fun i => UInt32.ofNat (count (o.counted ++ [p]) i) :=
    packageCounter_countPackage h p
  have hzero : (countPackage (zeroBehind o.client) p.messageId).packagesLost =
      CInt.toInt 0 := h.packagesLost_eq
  obtain ⟨events, hadd, hnone⟩ :=
    addLost_eq (count (o.counted ++ [p])) hslots 0
  rw [Int.zero_add, ← hcounter, ← hzero] at hadd
  obtain ⟨received, client, hreport⟩ := report_eq _ hjs hadd
  refine ⟨_, client, (iteration_due _ _).trans hreport, ?_⟩
  rw [List.filterMap_cons_none rfl, List.filterMap_append, hnone,
    List.nil_append]
  rfl

theorem counted_step (o : Observed) (a : Arrival) (o' : Observed)
    (h : Counted o) (hstep : step o a = some o') : Counted o' := by
  obtain ⟨⟨events, client⟩, hiteration, rfl⟩ := Option.map_eq_some_iff.mp hstep
  cases hreports : a.reports with
  | false =>
      rw [hreports] at hiteration
      obtain ⟨-, rfl⟩ := Prod.mk.inj (Option.some.inj hiteration)
      exact ⟨h.packagesLost_eq, packageCounter_countPackage h a.package⟩
  | true =>
      rw [hreports] at hiteration
      obtain ⟨hlost, hcounter⟩ := report_client hiteration
      exact ⟨hlost, hcounter⟩

/-! ## The window of a report -/

/-- The elements of the array for 28 ids. -/
def slots (first : ℕ) : List (Fin 32) :=
  (List.range' first 28).map element

theorem slots_nodup (first : ℕ) : (slots first).Nodup := by
  refine List.Nodup.map_on ?_ List.nodup_range'
  intro j hj k hk heq
  have hmod : j % 32 = k % 32 := congrArg Fin.val heq
  rw [List.mem_range'_1] at hj hk
  omega

theorem messageSlot_mem_iff {m : UInt32} (hm : 30 ≤ m.toNat) (p : Package) :
    messageSlot p.messageId ∈ slots (m.toNat - 30) ↔ SharesSlot m p := by
  rw [messageSlot, slots, List.mem_map, SharesSlot]
  constructor
  · rintro ⟨k, hk, heq⟩
    have hmod : k % 32 = p.messageId.toNat % 32 := congrArg Fin.val heq
    rw [List.mem_range'_1] at hk
    refine ⟨m.toNat - k, List.mem_range'_1.mpr ?_, ?_⟩ <;> omega
  · rintro ⟨d, hd, hmod⟩
    rw [List.mem_range'_1] at hd
    refine ⟨m.toNat - d, List.mem_range'_1.mpr ?_, ?_⟩
    · omega
    · apply Fin.ext
      change (m.toNat - d) % 32 = p.messageId.toNat % 32
      omega

theorem sum_count {m : UInt32} (hm : 30 ≤ m.toNat) (counted : List Package) :
    ((slots (m.toNat - 30)).map (count counted)).sum =
      counted.countP (SharesSlot m) := by
  have hsum := CyclicSlots.sum_countP
    (fun p : Package => messageSlot p.messageId) counted
    (slots_nodup (m.toNat - 30))
  refine hsum.trans (List.countP_congr fun p _ => ?_)
  simp only [decide_eq_true_eq, messageSlot_mem_iff hm]

theorem arrived_add_missing (received : List Package) (message : ℕ) :
    arrived received message + missing received message =
      packagesPerMessage * (window message).length := by
  have hlength : (windowPackages message).length =
      packagesPerMessage * (window message).length := by
    rw [windowPackages, List.length_flatMap]
    simp only [List.length_map, List.length_finRange, List.map_const',
      List.sum_replicate_nat]
    exact Nat.mul_comm _ _
  have hmissing : missing received message = (windowPackages message).countP
      fun q => decide ¬(decide (q ∈ received) = true) := by
    simp only [missing, decide_eq_true_eq]
  rw [← hlength, hmissing]
  exact (List.length_eq_countP_add_countP (· ∈ received)).symm

theorem length_window_le (message : ℕ) : (window message).length ≤ 28 := by
  rw [window, List.length_map]
  exact List.length_filter_le ..

/-! ## The exact condition -/

theorem windowValues_of_lt {m : UInt32} (hm : 2 ≤ m.toNat)
    (hlt : m.toNat < 30) : windowValues m = some [] := by
  have hfirst : (m - 30).toNat = (2 ^ 32 - 30 + m.toNat) % 2 ^ 32 :=
    UInt32.toNat_sub m 30
  have hlast : (m - 2).toNat = (2 ^ 32 - 2 + m.toNat) % 2 ^ 32 :=
    UInt32.toNat_sub m 2
  have hcount : (m - 2).toNat - (m - 30).toNat = 0 := by omega
  rw [windowValues_eq, hcount]
  rfl

theorem windowValues_of_le {m : UInt32} (hm : m.toNat < 2 ∨ 30 ≤ m.toNat) :
    windowValues m = some ((List.range' ((2 ^ 32 - 30 + m.toNat) % 2 ^ 32)
      28).map (CountingLoop.counter 1)) := by
  have hfirst : (m - 30).toNat = (2 ^ 32 - 30 + m.toNat) % 2 ^ 32 :=
    UInt32.toNat_sub m 30
  have hlast : (m - 2).toNat = (2 ^ 32 - 2 + m.toNat) % 2 ^ 32 :=
    UInt32.toNat_sub m 2
  have hlt := m.toNat_lt
  have hcount : (m - 2).toNat - (m - 30).toNat = 28 := by omega
  rw [windowValues_eq, hcount, hfirst]

/-- A report that stays inside of the array is correct if the sum is. -/
theorem correct_iff_sum {o : Observed} (h : Counted o) {p : Package}
    {js : List ℤ} (elements : List (Fin 32))
    (hjs : windowValues p.messageId = some js)
    (hslots : js.map slot = elements.map some) :
    Correct o ⟨p, true⟩ ↔
      CInt.toInt (packagesPerMessage * elements.length -
          (elements.map (count (o.counted ++ [p]))).sum) =
        missing (o.received ++ [p]) p.message := by
  obtain ⟨events, client, hiteration, hprinted⟩ :=
    iteration_reports h p hjs hslots
  have hinside : ∀ j ∈ js, 0 ≤ j.tmod 32 ∧ j.tmod 32 < 32 := by
    intro j hj
    have hmem : slot j ∈ elements.map some :=
      hslots ▸ List.mem_map_of_mem hj
    obtain ⟨i, -, hi⟩ := List.mem_map.mp hmem
    refine ⟨?_, Int.tmod_lt_of_pos j (by decide)⟩
    by_contra hneg
    rw [slot, if_neg hneg] at hi
    cases hi
  constructor
  · intro hcorrect
    obtain ⟨-, events', client', hiteration', hmissing⟩ := hcorrect rfl
    rw [hiteration] at hiteration'
    obtain ⟨rfl, -⟩ := Prod.mk.inj (Option.some.inj hiteration')
    rw [hprinted] at hmissing
    exact (List.cons.inj hmissing).1
  · intro hsum _
    refine ⟨fun js' hjs' => ?_, events, client, hiteration, ?_⟩
    · obtain rfl := Option.some.inj (hjs.symm.trans hjs')
      exact hinside
    · rw [hprinted, hsum]

/-- The loop leaves the array for ids below 2, and for those of which some id of
the window is in the upper half of the range. -/
theorem not_correct_of_outside {o : Observed} {p : Package}
    (hid : p.messageId.toNat < 2 ∨ 2 ^ 31 + 3 < p.messageId.toNat) :
    ¬ Correct o ⟨p, true⟩ := by
  have hlt := p.messageId.toNat_lt
  have hlower : p.messageId.toNat < 2 ∨ 30 ≤ p.messageId.toNat := by omega
  have hwindow := windowValues_of_le hlower
  obtain ⟨k, hk, hhigh, hmod⟩ : ∃ k ∈ List.range'
      ((2 ^ 32 - 30 + p.messageId.toNat) % 2 ^ 32) 28,
        2 ^ 31 < k ∧ k % 32 ≠ 0 := by
    simp only [List.mem_range'_1]
    rcases hid with hid | hid
    · exact ⟨2 ^ 32 - 30 + p.messageId.toNat, by omega, by omega, by omega⟩
    · by_cases hlast : (p.messageId.toNat - 3) % 32 = 0
      · exact ⟨p.messageId.toNat - 4, by omega, by omega, by omega⟩
      · exact ⟨p.messageId.toNat - 3, by omega, by omega, hlast⟩
  have hbound : k < 2 ^ 32 := by
    rw [List.mem_range'_1] at hk
    omega
  intro hcorrect
  have hinside := (hcorrect rfl).1 _ hwindow (CountingLoop.counter 1 k)
    (List.mem_map_of_mem hk)
  have hneg := tmod_counter_neg hhigh hbound hmod
  omega

/-- A report for an id below 30 looks at no element. -/
theorem correct_iff_of_lt {o : Observed} (h : Counted o) {p : Package}
    (hid : 2 ≤ p.messageId.toNat) (hlt : p.messageId.toNat < 30) :
    Correct o ⟨p, true⟩ ↔ missing (o.received ++ [p]) p.message = 0 := by
  have hzero : CInt.toInt 0 = 0 := CInt.toInt_eq_self (by decide) (by decide)
  have hsum := correct_iff_sum h [] (windowValues_of_lt hid hlt) rfl
  rw [List.length_nil, List.map_nil, List.sum_nil, Int.natCast_zero,
    Int.mul_zero, Int.sub_zero, hzero] at hsum
  rw [hsum]
  omega

/-- Any other report inside of the array looks at 28 elements. -/
theorem correct_iff_of_le {o : Observed} (h : Counted o) {p : Package}
    (hid : 30 ≤ p.messageId.toNat) (hle : p.messageId.toNat ≤ 2 ^ 31 + 3) :
    Correct o ⟨p, true⟩ ↔
      (o.counted ++ [p]).countP (SharesSlot p.messageId) % 2 ^ 32 =
        (arrived (o.received ++ [p]) p.message + packagesPerMessage *
          (28 - (window p.message).length)) % 2 ^ 32 := by
  have hfirst : (2 ^ 32 - 30 + p.messageId.toNat) % 2 ^ 32 =
      p.messageId.toNat - 30 := by
    omega
  have hwindow := windowValues_of_le (Or.inr hid)
  rw [hfirst] at hwindow
  have hslots : ((List.range' (p.messageId.toNat - 30) 28).map
      (CountingLoop.counter 1)).map slot =
        (slots (p.messageId.toNat - 30)).map some := by
    rw [slots, List.map_map, List.map_map]
    refine List.map_congr_left fun k hk => ?_
    rw [List.mem_range'_1] at hk
    rw [Function.comp_apply, Function.comp_apply]
    exact slot_counter (by omega)
  have hlength : (slots (p.messageId.toNat - 30)).length = 28 := by
    rw [slots, List.length_map, List.length_range']
  have hsum := correct_iff_sum h _ hwindow hslots
  rw [hlength, sum_count hid] at hsum
  have hadd := arrived_add_missing (o.received ++ [p]) p.message
  have hle := length_window_le p.message
  have hper : packagesPerMessage = 45 := rfl
  rw [hper] at hsum hadd ⊢
  rw [hsum, CInt.toInt, Int.bmod_def]
  split <;> omega

theorem correct_iff_agrees (o : Observed) (a : Arrival) (h : Counted o) :
    Correct o a ↔ Agrees o a := by
  obtain ⟨p, reports⟩ := a
  cases reports with
  | false =>
      have hnot : ¬ (Arrival.mk p false).reports = true := Bool.false_ne_true
      exact iff_of_true (fun hdue => absurd hdue hnot)
        fun hdue => absurd hdue hnot
  | true =>
      by_cases houtside :
          p.messageId.toNat < 2 ∨ 2 ^ 31 + 3 < p.messageId.toNat
      · refine iff_of_false (not_correct_of_outside houtside) fun hagrees => ?_
        rcases hagrees rfl with ⟨hid, hlt, -⟩ | ⟨hid, hle, -⟩
        · change 2 ≤ p.messageId.toNat at hid
          change p.messageId.toNat < 30 at hlt
          omega
        · change 30 ≤ p.messageId.toNat at hid
          change p.messageId.toNat ≤ 2 ^ 31 + 3 at hle
          omega
      · obtain ⟨hid, hle⟩ := not_or.mp houtside
        rw [Nat.not_lt] at hid hle
        by_cases hlt : p.messageId.toNat < 30
        · rw [correct_iff_of_lt h hid hlt]
          refine ⟨fun hmissing _ => Or.inl ⟨hid, hlt, hmissing⟩,
            fun hagrees => ?_⟩
          rcases hagrees rfl with ⟨-, -, hmissing⟩ | ⟨hge, -⟩
          · exact hmissing
          · exact absurd hlt (Nat.not_lt.mpr hge)
        · rw [Nat.not_lt] at hlt
          rw [correct_iff_of_le h hlt hle]
          refine ⟨fun hcount _ => Or.inr ⟨hlt, hle, hcount⟩,
            fun hagrees => ?_⟩
          rcases hagrees rfl with ⟨-, hsmall, -⟩ | ⟨-, -, hcount⟩
          · exact absurd hsmall (Nat.not_lt.mpr hlt)
          · exact hcount

theorem exists_run_of_correct {arrivals : List Arrival}
    (h : EachTurn step Correct start arrivals) :
    ∃ o, run step start arrivals = some o := by
  refine h.exists_run fun o a hcorrect => ?_
  have hiteration : ∃ result,
      iteration o.client a.package.counters a.reports = some result := by
    cases hreports : a.reports with
    | false => exact ⟨_, rfl⟩
    | true =>
        obtain ⟨-, events, client, hiteration, -⟩ := hcorrect hreports
        exact ⟨_, hiteration⟩
  obtain ⟨result, hiteration⟩ := hiteration
  rw [step, hiteration]
  exact ⟨_, rfl⟩

/-- All reports of a run are correct exactly when the counted packages agree
with those of the window at each of them. -/
theorem reports_correct_iff (arrivals : List Arrival) :
    EachTurn step Correct start arrivals ↔
      EachTurn step Agrees start arrivals :=
  eachTurn_congr (I := Counted) (fun o a h => correct_iff_agrees o a h)
    counted_step counted_start

def firstPackage : Package := ⟨0, ⟨0, by decide⟩⟩

/-- A report with the first package of all: the remainders are those of
-29, ..., -2. -/
theorem first_report_not_correct :
    ¬ ∀ arrivals : List Arrival, EachTurn step Correct start arrivals := by
  intro hall
  have hid : firstPackage.messageId.toNat < 2 := by decide
  exact not_correct_of_outside (Or.inl hid) (hall [⟨firstPackage, true⟩]).1

end LossReport

end NetworkExperiments.UdpTest
