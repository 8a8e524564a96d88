import NetworkExperiments.Support.ByteMemory
import NetworkExperiments.Support.ByteOrder
import NetworkExperiments.UdpTest.BoardServer

/-!
# The UDP test over TCP

`server_socket.cpp` and `client_socket.cpp` are the UDPtest programs with TCP
sockets.  The server sends packages of 512 bytes, the client reads as much as
there is, up to a whole image, and takes the first package of what it has read
for all of it.

`reads_reported` says what its reports mean when reads end between two packages:
they compare the reads, not the packages, with the 28 messages.
`never_ends` is about the end of the stream, which the client does not notice.
The rate in MBit/s is left out.
-/

namespace NetworkExperiments.TcpTest.Sockets

open EventSystem UdpTest
open LossReport (slots toNat_sub_ofNat)
open BoardServer (count SameSlots sum_count windowValues_slots)

/-! ## The server -/

/-- `PACKAGE_SIZE` of the server. -/
def serverPackageSize : ℕ := 512

def serverPackages : ℕ := UdpTest.imageSize / serverPackageSize

/-- The counters in the package with the given number. -/
def countersOf (i : ℕ) : Counters where
  packageId := UInt32.ofNat (i + 1)
  messageId := UInt32.ofNat (i / serverPackages + 1)

/-- The first 512 bytes of `data`, with the two counters in it. -/
def packageBytes (order : ByteOrder) (data : ByteMemory) (c : Counters) :
    List UInt8 :=
  order.store c.packageId ++ data.bytes 4 12 ++ order.store c.messageId ++
    data.bytes 20 (serverPackageSize - 20)

/-- A number of packages, from the given one on. -/
def streamBytes (order : ByteOrder) (data : ByteMemory) (first n : ℕ) :
    List UInt8 :=
  (List.range' first n).flatMap fun i =>
    packageBytes order data (countersOf i)

/-- A message consists of the packages that follow those of the messages before
it. -/
theorem sendMessage_counters (k : ℕ) :
    (sendMessage serverPackageSize (countersAfter serverPackageSize k)).1 =
      (List.range' (serverPackages * k) serverPackages).map countersOf := by
  have hpos : 0 < serverPackages := by decide
  have hper : UdpTest.imageSize / serverPackageSize = serverPackages := rfl
  rw [sendMessage_eq, hper, List.range'_eq_map_range, List.map_map]
  refine List.map_congr_left fun i hi => ?_
  have hdiv : (serverPackages * k + i) / serverPackages = k := by
    rw [Nat.mul_add_div hpos, Nat.div_eq_of_lt (List.mem_range.mp hi),
      Nat.add_zero]
  rw [Function.comp_apply, countersOf, hdiv]

/-- The packages of the first messages, one after the other, are the stream from
its beginning. -/
theorem streamBytes_messages (order : ByteOrder) (data : ByteMemory) (k : ℕ) :
    streamBytes order data 0 (serverPackages * k) =
      (List.range k).flatMap fun message =>
        (sendMessage serverPackageSize
          (countersAfter serverPackageSize message)).1.flatMap
            (packageBytes order data) := by
  induction k with
  | zero => rfl
  | succ k ih =>
      have hrange : List.range' 0 (serverPackages * (k + 1)) =
          List.range' 0 (serverPackages * k) ++
            List.range' (serverPackages * k) serverPackages := by
        rw [Nat.mul_succ, ← List.range'_append_1, Nat.zero_add]
      rw [List.range_succ, List.flatMap_append, ← ih, List.flatMap_singleton,
        sendMessage_counters, List.flatMap_map, streamBytes, hrange,
        List.flatMap_append]
      rfl

/-! ## The client -/

/-- `PACKAGE_SIZE` of the client, the size of `mesg`. -/
def mesgSize : ℕ := UdpTest.imageSize

/-- `IMAGE_SIZE/PACKAGE_SIZE` of the client. -/
def packagesPerMessage : ℕ := UdpTest.imageSize / mesgSize

/-- The variables of `main` that are read again. -/
structure State where
  mesg : ByteMemory
  startPackageId : UInt32
  packagesLost : ℤ
  packageCounter : Fin 32 → UInt32

/-- An `unsigned int` in `mesg`. -/
def idAt (order : ByteOrder) (mesg : ByteMemory) (a : ℕ) : UInt32 :=
  order.load (mesg.bytes a 4)

/-- The loop over the messages of a report. -/
def addLost (packageCounter : Fin 32 → UInt32) :
    ℤ → List ℤ → Option (List Event × ℤ)
  | lost, [] => some ([], lost)
  | lost, j :: js =>
      (slot j).bind fun i =>
        let missing := UInt32.ofNat packagesPerMessage - packageCounter i
        (addLost packageCounter (CInt.toInt (lost + missing.toNat)) js).map
          fun rest =>
            (.packageCounter (CInt.toInt (packageCounter i).toNat) :: rest.1,
              rest.2)

/-- The bytes that `read` returns, with the zero behind them. -/
def readInto (mesg : ByteMemory) (data : List UInt8) : ByteMemory :=
  Function.update (mesg.write 0 data.length fun k => data.getD k 0)
    data.length 0

/-- One iteration of the loop, in which `read` returns the given bytes and the
report is due or not.  With all of `mesg` read, the zero is written behind
it. -/
def iteration (order : ByteOrder) (st : State) (data : List UInt8)
    (reports : Bool) : Option (List Event × State) :=
  if mesgSize ≤ data.length then none
  else
    let mesg := readInto st.mesg data
    let packageId := idAt order mesg 0
    let messageId := idAt order mesg 16
    let i := messageSlot messageId
    let packageCounter :=
      Function.update st.packageCounter i (st.packageCounter i + 1)
    if reports then
      (windowValues messageId).bind fun js =>
        (addLost packageCounter st.packagesLost js).map fun result =>
          (.received (CInt.toInt (packageId - st.startPackageId).toNat) ::
              (result.1 ++ [.packagesLost result.2]),
            { mesg := mesg
              startPackageId := packageId
              packagesLost := 0
              packageCounter := fun _ => 0 })
    else some ([], { st with mesg := mesg, packageCounter := packageCounter })

/-- The numbers of a report. -/
def reported : Event → Option ℤ
  | .received packages => some packages
  | .packagesLost packages => some packages
  | .packageCounter _ => none

/-! ## Reading packages -/

theorem bytes_readInto (mesg : ByteMemory) {data : List UInt8} {a n : ℕ}
    (h : a + n ≤ data.length) :
    (readInto mesg data).bytes a n = (data.drop a).take n := by
  apply List.ext_getElem?
  intro k
  by_cases hk : k < n
  · have hne : a + k ≠ data.length := by omega
    have hinside : ByteMemory.write mesg 0 data.length
        (fun k => data.getD k 0) (0 + (a + k)) = data.getD (a + k) 0 :=
      ByteMemory.write_of_inside _ _ (by omega)
    rw [Nat.zero_add] at hinside
    rw [ByteMemory.getElem?_bytes _ _ hk, readInto,
      Function.update_of_ne hne, hinside, List.getElem?_take_of_lt hk,
      List.getElem?_drop, List.getD_eq_getElem?_getD,
      List.getElem?_eq_getElem (by omega), Option.getD_some]
  · rw [List.getElem?_eq_none, List.getElem?_eq_none]
    · rw [List.length_take]
      omega
    · rw [ByteMemory.length_bytes]
      omega

theorem length_packageBytes (order : ByteOrder) (data : ByteMemory)
    (c : Counters) :
    (packageBytes order data c).length = serverPackageSize := by
  simp only [packageBytes, List.length_append, ByteOrder.length_store,
    ByteMemory.length_bytes]
  rfl

theorem length_streamBytes (order : ByteOrder) (data : ByteMemory)
    (first n : ℕ) :
    (streamBytes order data first n).length = serverPackageSize * n := by
  rw [streamBytes, List.length_flatMap]
  simp only [length_packageBytes, List.map_const', List.length_range',
    List.sum_replicate_nat]
  exact Nat.mul_comm _ _

/-- The ids that the client finds are those of the first package read. -/
theorem idAt_read (order : ByteOrder) (data mesg : ByteMemory) (first : ℕ)
    {n : ℕ} (hn : 0 < n) :
    idAt order (readInto mesg (streamBytes order data first n)) 0 =
        (countersOf first).packageId ∧
      idAt order (readInto mesg (streamBytes order data first n)) 16 =
        (countersOf first).messageId := by
  obtain ⟨m, rfl⟩ : ∃ m, n = m + 1 := ⟨n - 1, by omega⟩
  have hlength := length_streamBytes order data first (m + 1)
  have hsize : serverPackageSize = 512 := rfl
  rw [hsize] at hlength
  have hbytes : streamBytes order data first (m + 1) =
      order.store (countersOf first).packageId ++
      (data.bytes 4 12 ++ (order.store (countersOf first).messageId ++
        (data.bytes 20 (serverPackageSize - 20) ++
          streamBytes order data (first + 1) m))) := by
    simp only [streamBytes, List.range'_succ, List.flatMap_cons,
      packageBytes, List.append_assoc]
  constructor
  · rw [idAt, bytes_readInto mesg (by omega), List.drop_zero, hbytes,
      List.take_left' (ByteOrder.length_store _ _), ByteOrder.load_store]
  · have hfront : (order.store (countersOf first).packageId ++
        data.bytes 4 12).length = 16 := by
      rw [List.length_append, ByteOrder.length_store, ByteMemory.length_bytes]
    rw [idAt, bytes_readInto mesg (by omega), hbytes, ← List.append_assoc,
      List.drop_left' hfront, List.take_left' (ByteOrder.length_store _ _),
      ByteOrder.load_store]

/-! ## The sum of a report -/

theorem toInt_add_missing (x : ℤ) (n : ℕ) :
    CInt.toInt (CInt.toInt x +
        (UInt32.ofNat packagesPerMessage - UInt32.ofNat n).toNat) =
      CInt.toInt (x + 1 - n) := by
  have hwrap : ∀ y : ℤ,
      CInt.toInt (CInt.toInt x + y) = CInt.toInt (y + x) := by
    intro y
    rw [CInt.toInt, CInt.toInt, CInt.toInt, Int.bmod_add_bmod, Int.add_comm]
  have hper : (packagesPerMessage : ℤ) = 1 := rfl
  have hsum : x + 1 - n = packagesPerMessage - n + x := by omega
  rw [toNat_sub_ofNat, hwrap, CInt.toInt_toSize_add, hsum]

theorem addLost_eq (count : Fin 32 → ℕ) {js : List ℤ} {slots : List (Fin 32)}
    (hslots : js.map slot = slots.map some) (x : ℤ) :
    ∃ events, addLost (fun i => UInt32.ofNat (count i)) (CInt.toInt x) js =
        some (events, CInt.toInt (x + slots.length -
          (slots.map count).sum)) ∧
      events.filterMap reported = [] := by
  induction js generalizing slots x with
  | nil =>
      obtain rfl : slots = [] := List.map_eq_nil_iff.mp hslots.symm
      refine ⟨[], ?_, rfl⟩
      simp [addLost]
  | cons j js ih =>
      cases slots with
      | nil => cases hslots
      | cons i slots =>
          obtain ⟨hj, hrest⟩ := List.cons.inj hslots
          obtain ⟨events, hadd, hnone⟩ := ih hrest (x + 1 - count i)
          refine ⟨.packageCounter (CInt.toInt (UInt32.ofNat (count i)).toNat) ::
            events, ?_, hnone⟩
          have hsum : x + 1 - count i + slots.length -
                (slots.map count).sum =
              x + ((i :: slots).length : ℕ) -
                ((i :: slots).map count).sum := by
            rw [List.length_cons, List.map_cons, List.sum_cons]
            push_cast
            omega
          simp only [addLost, hj, Option.bind_some, toInt_add_missing, hadd,
            Option.map_some, hsum]

/-- The array holds the numbers of the ids. -/
structure Counts (st : State) (ids : List UInt32) : Prop where
  packagesLost_eq : st.packagesLost = 0
  packageCounter_eq : st.packageCounter =
    fun i => UInt32.ofNat (count ids i)

theorem Counts.update {st : State} {ids : List UInt32} (h : Counts st ids)
    (id : UInt32) :
    Function.update st.packageCounter (messageSlot id)
        (st.packageCounter (messageSlot id) + 1) =
      fun i => UInt32.ofNat (count (ids ++ [id]) i) :=
  @BoardServer.packageCounter_countPackage ⟨0, 0, st.packageCounter, 0⟩ ids
    h.packageCounter_eq id

/-- What a report prints: the distance of two package ids, and how many of 28
reads it has not seen. -/
def reportOf (startPackageId packageId messageId : UInt32)
    (ids : List UInt32) : List ℤ :=
  [CInt.toInt (packageId - startPackageId).toNat,
    CInt.toInt (28 - (ids.countP (SameSlots messageId) : ℕ))]

/-- A report on 28 messages starts all counters again. -/
theorem iteration_reports {order : ByteOrder} {st : State}
    {ids : List UInt32} (h : Counts st ids) {data : List UInt8}
    (hdata : data.length < mesgSize) {mesg : ByteMemory}
    (hmesg : readInto st.mesg data = mesg)
    (hlo : 30 ≤ (idAt order mesg 16).toNat)
    (hhi : (idAt order mesg 16).toNat ≤ 2 ^ 31 + 3) :
    ∃ events, iteration order st data true =
        some (events, ⟨mesg, idAt order mesg 0, 0, fun _ => 0⟩) ∧
      events.filterMap reported =
        reportOf st.startPackageId (idAt order mesg 0) (idAt order mesg 16)
          (ids ++ [idAt order mesg 16]) := by
  obtain ⟨js, hjs, hslots⟩ := windowValues_slots hlo hhi
  obtain ⟨events, hadd, hnone⟩ :=
    addLost_eq (count (ids ++ [idAt order mesg 16])) hslots 0
  have hlength : (slots ((idAt order mesg 16).toNat - 30)).length = 28 := by
    rw [slots, List.length_map, List.length_range']
  have hzero : st.packagesLost = CInt.toInt 0 := h.packagesLost_eq
  rw [Int.zero_add, ← hzero, hlength, sum_count hlo] at hadd
  rw [iteration]
  simp only [Nat.not_le.mpr hdata, if_false, if_true, hmesg, h.update, hjs,
    Option.bind_some, hadd, Option.map_some]
  have hreceived : ∀ n : ℤ, reported (.received n) = some n := fun _ => rfl
  refine ⟨_, rfl, ?_⟩
  rw [List.filterMap_cons_some (hreceived _), List.filterMap_append, hnone,
    List.nil_append]
  rfl

theorem iteration_client {order : ByteOrder} {st st' : State}
    {data : List UInt8} {events : List Event}
    (h : iteration order st data true = some (events, st')) :
    st' = ⟨readInto st.mesg data, idAt order (readInto st.mesg data) 0, 0,
      fun _ => 0⟩ := by
  rw [iteration] at h
  simp only [if_true] at h
  split at h
  · cases h
  · obtain ⟨js, -, h⟩ := Option.bind_eq_some_iff.mp h
    obtain ⟨result, -, h⟩ := Option.map_eq_some_iff.mp h
    exact (Prod.mk.inj h).2.symm

theorem iteration_quiet (order : ByteOrder) (st : State) {data : List UInt8}
    (hdata : data.length < mesgSize) {mesg : ByteMemory}
    (hmesg : readInto st.mesg data = mesg) :
    iteration order st data false =
      some ([], { st with
        mesg := mesg
        packageCounter := Function.update st.packageCounter
          (messageSlot (idAt order mesg 16))
          (st.packageCounter (messageSlot (idAt order mesg 16)) + 1) }) := by
  rw [iteration]
  simp only [Nat.not_le.mpr hdata, if_false, hmesg, Bool.false_eq_true]

/-! ## Runs -/

/-- A read returns a number of packages, less than a message, after which the
report is due or not. -/
structure Read where
  packages : ℕ
  reports : Bool
  packages_pos : 0 < packages
  packages_lt : packages < serverPackages

/-- The client with the packages that it has read, those up to the first one of
the read with the last report, and where the reads since then have started. -/
structure Observed where
  client : State
  position : ℕ
  reportedAt : ℕ
  starts : List ℕ

/-- The variables before the loop. -/
def start : Observed := ⟨⟨fun _ => 0, 0, 0, fun _ => 0⟩, 0, 0, []⟩

def step (order : ByteOrder) (data : ByteMemory) (o : Observed) (r : Read) :
    Option Observed :=
  (iteration order o.client (streamBytes order data o.position r.packages)
    r.reports).map fun result =>
      { client := result.2
        position := o.position + r.packages
        reportedAt := if r.reports then o.position + 1 else o.reportedAt
        starts := if r.reports then [] else o.starts ++ [o.position] }

/-- What the report prints when it is due with the next read. -/
def printed (order : ByteOrder) (data : ByteMemory) (o : Observed) (n : ℕ) :
    Option (List ℤ) :=
  (iteration order o.client (streamBytes order data o.position n) true).map
    fun result => result.1.filterMap reported

/-- The message of the package `p` has the slot of one that is 3 to 30 before
that of the package `q`. -/
def InWindow (q p : ℕ) : Prop :=
  ∃ d ∈ List.range' 3 28,
    (p / serverPackages + d) % 32 = q / serverPackages % 32

instance (q : ℕ) : DecidablePred (InWindow q) :=
  fun _ => inferInstanceAs (Decidable (∃ d ∈ List.range' 3 28, _))

/-- A report prints the packages from the first one of a read to that of
another, and by how much the reads that have started in the window are less
than 28. -/
def ReportsReads (order : ByteOrder) (data : ByteMemory) (o : Observed) :
    Prop :=
  ∀ n, 0 < n → n < serverPackages →
    29 ≤ o.position / serverPackages →
    o.position / serverPackages ≤ 2 ^ 31 + 2 →
      printed order data o n =
        some [CInt.toInt ((o.position + 1 : ℕ) - o.reportedAt),
          CInt.toInt (28 -
            ((o.starts ++ [o.position]).countP (InWindow o.position) : ℕ))]

/-- The counters are those of the reads since the last report. -/
structure Reading (o : Observed) : Prop where
  counts : Counts o.client (o.starts.map fun p => (countersOf p).messageId)
  startPackageId_eq : o.client.startPackageId = UInt32.ofNat o.reportedAt

theorem reading_start : Reading start := ⟨⟨rfl, rfl⟩, rfl⟩

theorem length_read (order : ByteOrder) (data : ByteMemory) (first : ℕ) {n : ℕ}
    (hn : n < serverPackages) :
    (streamBytes order data first n).length < mesgSize := by
  have hall : mesgSize = serverPackageSize * serverPackages := rfl
  have hpos : 0 < serverPackageSize := by decide
  rw [length_streamBytes, hall]
  exact Nat.mul_lt_mul_of_pos_left hn hpos

theorem reading_step (order : ByteOrder) (data : ByteMemory) (o : Observed)
    (r : Read) (o' : Observed) (h : Reading o)
    (hstep : step order data o r = some o') : Reading o' := by
  obtain ⟨⟨events, client⟩, hiteration, rfl⟩ := Option.map_eq_some_iff.mp hstep
  obtain ⟨hpackage, hmessage⟩ :=
    idAt_read order data o.client.mesg o.position r.packages_pos
  cases hreports : r.reports with
  | true =>
      rw [hreports] at hiteration
      obtain rfl := iteration_client hiteration
      exact ⟨⟨rfl, rfl⟩, hpackage⟩
  | false =>
      have hlength := length_read order data o.position r.packages_lt
      have hcounter := h.counts.update (countersOf o.position).messageId
      rw [hreports, iteration_quiet order o.client hlength rfl,
        Option.some.injEq] at hiteration
      obtain ⟨-, rfl⟩ := Prod.mk.inj hiteration
      refine ⟨⟨h.counts.packagesLost_eq, ?_⟩, h.startPackageId_eq⟩
      simp only [hmessage, hcounter, Bool.false_eq_true, if_false,
        List.map_append, List.map_cons, List.map_nil]

theorem sameSlots_iff (q p : ℕ) :
    SameSlots (countersOf q).messageId (countersOf p).messageId ↔
      InWindow q p := by
  have hid : ∀ k, (countersOf k).messageId.toNat =
      (k / serverPackages + 1) % 2 ^ 32 := fun k => UInt32.toNat_ofNat'
  rw [SameSlots, InWindow, hid, hid]
  refine exists_congr fun d => and_congr_right fun _ => ?_
  omega

theorem reportsReads_of_reading (order : ByteOrder) (data : ByteMemory)
    {o : Observed} (h : Reading o) : ReportsReads order data o := by
  intro n hpos hlt hlo hhi
  obtain ⟨hpackage, hmessage⟩ :=
    idAt_read order data o.client.mesg o.position hpos
  have hid : (countersOf o.position).messageId.toNat =
      o.position / serverPackages + 1 := by
    change (UInt32.ofNat (o.position / serverPackages + 1)).toNat = _
    rw [UInt32.toNat_ofNat']
    omega
  have hreceived : (countersOf o.position).packageId =
      UInt32.ofNat (o.position + 1) := rfl
  have hstarts : (o.starts.map fun p => (countersOf p).messageId) ++
      [(countersOf o.position).messageId] =
        (o.starts ++ [o.position]).map fun p => (countersOf p).messageId := by
    rw [List.map_append, List.map_singleton]
  have hdistance := CInt.toInt_toSize_add
    ((o.position + 1 : ℕ) - o.reportedAt) 0
  rw [Int.add_zero, Int.add_zero] at hdistance
  obtain ⟨events, hiteration, hprinted⟩ := iteration_reports h.counts
    (length_read order data o.position hlt) rfl
    (by rw [hmessage, hid]; omega) (by rw [hmessage, hid]; omega)
  rw [printed, hiteration, Option.map_some, hprinted, hpackage, hmessage,
    reportOf, hreceived, h.startPackageId_eq, toNat_sub_ofNat, hdistance,
    hstarts, List.countP_map]
  simp only [Function.comp_def, sameSlots_iff]

/-- In every run of reads that end between packages, a report takes each read
for one package: it compares the number of reads with the 28 messages. -/
theorem reads_reported (order : ByteOrder) (data : ByteMemory)
    (reads : List Read) :
    EachState (step order data) (ReportsReads order data) start reads :=
  (eachState_of_eachStep
    (fun o r o' h _ => reading_step order data o r o' h) reading_start
    (EachStep.of_forall (fun _ _ => trivial) _ reads)).mono
    fun _ h => reportsReads_of_reading order data h

/-! ## The end of the stream -/

/-- The reports when every `read` returns 0, and the report is due or not after
each. -/
def reportsAtEnd (order : ByteOrder) : State → List Bool →
    Option (List (List ℤ))
  | _, [] => some []
  | st, reports :: rest =>
      (iteration order st [] reports).bind fun result =>
        (reportsAtEnd order result.2 rest).map fun later =>
          if reports then result.1.filterMap reported :: later else later

/-- The client goes on for ever, and from the second report on it prints that it
has received no packages and lost 28. -/
def NeverEnds (order : ByteOrder) (o : Observed) : Prop :=
  30 ≤ (idAt order o.client.mesg 16).toNat →
  (idAt order o.client.mesg 16).toNat ≤ 2 ^ 31 + 3 →
    ∀ reports : List Bool, ∃ all,
      reportsAtEnd order o.client reports = some all ∧
        all.length = reports.count true ∧ ∀ report ∈ all.tail, report = [0, 28]

theorem readInto_nil (mesg : ByteMemory) :
    readInto mesg [] = Function.update mesg 0 0 := by
  rw [readInto, List.length_nil, ByteMemory.write_zero]

theorem idAt_end (order : ByteOrder) (mesg : ByteMemory) :
    idAt order (readInto mesg []) 16 = idAt order mesg 16 := by
  rw [idAt, readInto_nil, ByteMemory.bytes_update _ _ (Or.inl (by decide)),
    idAt]

/-- After a report at the end of the stream, with the message id `m`. -/
structure AtEnd (order : ByteOrder) (m : UInt32) (st : State) : Prop where
  first_eq : st.mesg 0 = 0
  messageId_eq : idAt order st.mesg 16 = m
  startPackageId_eq : st.startPackageId = idAt order st.mesg 0
  counts : ∃ n, Counts st (List.replicate n m)

theorem countP_replicate_self (m : UInt32) (n : ℕ) :
    (List.replicate n m).countP (SameSlots m) = 0 := by
  rw [List.countP_eq_zero]
  intro id hid hsame
  rw [List.eq_of_mem_replicate hid, decide_eq_true_eq, SameSlots] at hsame
  obtain ⟨d, hd, hmod⟩ := hsame
  rw [List.mem_range'_1] at hd
  omega

theorem AtEnd.readInto {order : ByteOrder} {m : UInt32} {st : State}
    (h : AtEnd order m st) : Sockets.readInto st.mesg [] = st.mesg := by
  rw [readInto_nil, ← h.first_eq, Function.update_eq_self]

theorem atEnd_of_report {order : ByteOrder} {st : State} {ids : List UInt32}
    (h : Counts st ids) (hlo : 30 ≤ (idAt order st.mesg 16).toNat)
    (hhi : (idAt order st.mesg 16).toNat ≤ 2 ^ 31 + 3) :
    ∃ events st', iteration order st [] true = some (events, st') ∧
      AtEnd order (idAt order st.mesg 16) st' := by
  have hid := idAt_end order st.mesg
  have hnil : ([] : List UInt8).length < mesgSize := by decide
  have hfirst : readInto st.mesg [] 0 = 0 := by
    rw [readInto_nil, Function.update_self]
  obtain ⟨events, hiteration, -⟩ := iteration_reports h hnil rfl
    (hid.symm ▸ hlo) (hid.symm ▸ hhi)
  exact ⟨events, _, hiteration, hfirst, hid, rfl, 0, ⟨rfl, rfl⟩⟩

theorem AtEnd.report {order : ByteOrder} {m : UInt32} {st : State}
    (h : AtEnd order m st) (hlo : 30 ≤ m.toNat) (hhi : m.toNat ≤ 2 ^ 31 + 3) :
    ∃ events st', iteration order st [] true = some (events, st') ∧
      events.filterMap reported = [0, 28] ∧ AtEnd order m st' := by
  obtain ⟨n, hcounts⟩ := h.counts
  have hid := h.messageId_eq
  have hnil : ([] : List UInt8).length < mesgSize := by decide
  obtain ⟨events, hiteration, hreported⟩ := iteration_reports hcounts hnil
    h.readInto (hid.symm ▸ hlo) (hid.symm ▸ hhi)
  refine ⟨events, _, hiteration, ?_, h.first_eq, hid, rfl, 0, ⟨rfl, rfl⟩⟩
  have hzero : CInt.toInt (0 : UInt32).toNat = 0 := by decide
  have hlost : CInt.toInt (28 - (0 : ℕ)) = 28 := by decide
  rw [hreported, reportOf, hid, h.startPackageId_eq, UInt32.sub_self,
    ← List.replicate_succ', countP_replicate_self, hzero, hlost]

theorem iteration_end_quiet (order : ByteOrder) {st : State}
    {ids : List UInt32} (h : Counts st ids) :
    ∃ st', iteration order st [] false = some ([], st') ∧
      st'.mesg = readInto st.mesg [] ∧
      st'.startPackageId = st.startPackageId ∧
      Counts st' (ids ++ [idAt order st.mesg 16]) := by
  have hnil : ([] : List UInt8).length < mesgSize := by decide
  refine ⟨_, iteration_quiet order st hnil rfl, rfl, rfl,
    h.packagesLost_eq, ?_⟩
  simp only [idAt_end, h.update]

theorem reportsAtEnd_of_atEnd {order : ByteOrder} {m : UInt32} {st : State}
    (h : AtEnd order m st) (hlo : 30 ≤ m.toNat) (hhi : m.toNat ≤ 2 ^ 31 + 3)
    (reports : List Bool) :
    reportsAtEnd order st reports =
      some (List.replicate (reports.count true) [0, 28]) := by
  induction reports generalizing st with
  | nil => rfl
  | cons due rest ih =>
      cases due with
      | true =>
          obtain ⟨events, st', hiteration, hreported, h'⟩ := h.report hlo hhi
          rw [reportsAtEnd, hiteration, Option.bind_some, ih h',
            Option.map_some, if_pos rfl, hreported, List.count_cons_self,
            List.replicate_succ]
      | false =>
          obtain ⟨n, hcounts⟩ := h.counts
          obtain ⟨st', hiteration, hmesg, hstart, hcounts'⟩ :=
            iteration_end_quiet order hcounts
          rw [h.messageId_eq, ← List.replicate_succ'] at hcounts'
          rw [h.readInto] at hmesg
          have h' : AtEnd order m st' :=
            ⟨hmesg ▸ h.first_eq, hmesg ▸ h.messageId_eq,
              by rw [hstart, hmesg, h.startPackageId_eq], n + 1, hcounts'⟩
          rw [reportsAtEnd, hiteration, Option.bind_some, ih h',
            Option.map_some, if_neg Bool.false_ne_true,
            List.count_cons_of_ne Bool.false_ne_true]

theorem reportsAtEnd_eq (order : ByteOrder) {st : State} {ids : List UInt32}
    (h : Counts st ids) (hlo : 30 ≤ (idAt order st.mesg 16).toNat)
    (hhi : (idAt order st.mesg 16).toNat ≤ 2 ^ 31 + 3) (reports : List Bool) :
    ∃ all, reportsAtEnd order st reports = some all ∧
      all.length = reports.count true ∧
        ∀ report ∈ all.tail, report = [0, 28] := by
  induction reports generalizing st ids with
  | nil => exact ⟨[], rfl, rfl, fun _ hmem => absurd hmem List.not_mem_nil⟩
  | cons due rest ih =>
      cases due with
      | true =>
          obtain ⟨events, st', hiteration, h'⟩ := atEnd_of_report h hlo hhi
          have hrest := reportsAtEnd_of_atEnd h' hlo hhi rest
          refine ⟨events.filterMap reported ::
            List.replicate (rest.count true) [0, 28], ?_, ?_, ?_⟩
          · rw [reportsAtEnd, hiteration, Option.bind_some, hrest,
              Option.map_some, if_pos rfl]
          · rw [List.length_cons, List.length_replicate,
              List.count_cons_self]
          · intro report hmem
            exact List.eq_of_mem_replicate hmem
      | false =>
          obtain ⟨st', hiteration, hmesg, -, h'⟩ :=
            iteration_end_quiet order h
          have hid : idAt order st'.mesg 16 = idAt order st.mesg 16 := by
            rw [hmesg, idAt_end]
          obtain ⟨all, hrest, hlength, htail⟩ :=
            ih h' (hid.symm ▸ hlo) (hid.symm ▸ hhi)
          refine ⟨all, ?_, ?_, htail⟩
          · rw [reportsAtEnd, hiteration, Option.bind_some, hrest,
              Option.map_some, if_neg Bool.false_ne_true]
          · rw [hlength, List.count_cons_of_ne Bool.false_ne_true]

theorem neverEnds_of_reading (order : ByteOrder) {o : Observed}
    (h : Reading o) : NeverEnds order o :=
  fun hlo hhi => reportsAtEnd_eq order h.counts hlo hhi

/-- In every run of such reads, when the connection is closed. -/
theorem never_ends (order : ByteOrder) (data : ByteMemory)
    (reads : List Read) :
    EachState (step order data) (NeverEnds order) start reads :=
  (eachState_of_eachStep
    (fun o r o' h _ => reading_step order data o r o' h) reading_start
    (EachStep.of_forall (fun _ _ => trivial) _ reads)).mono
    fun _ h => neverEnds_of_reading order h

end NetworkExperiments.TcpTest.Sockets
