import NetworkExperiments.SlamServer.Loop
import NetworkExperiments.SlamServer.Sweep
import NetworkExperiments.TestClient.Bounds

/-!
# The slam_sensor_server program and the test client

The threads of the server run over the bytes of the shared memory, in which the
flags are, and the loop sends the datagrams of a transfer one after the other.
The network may lose, duplicate and reorder them; the test client, on a machine
of the same byte order, gets what arrives.

`client_shows` says what the client can have in its images, in every run of all
these parties: the first 1500 bytes come from the region of camera 0, whatever
camera the image belongs to, and the others are never written.
-/

namespace NetworkExperiments.TestClient.ImageNetwork

open EventSystem SlamServer UdpServer Sweep ImageTransfer Bounds

/-- The server with the shared memory, how many datagrams of the present
transfer have been sent, and all that have been sent; the client, and what it
has printed. -/
structure System where
  program : SlamServer.State
  memory : ByteMemory
  number : ℕ
  sent : List Datagram
  client : TestClient.State
  printed : List TestClient.Event

/-- A statement of the server, a call of `send_to` in `UdpServer::send_data`, or
a datagram that arrives at the client. -/
inductive Action
  | program (e : SlamServer.Event)
  | sendTo
  | receive (d : Datagram)

/-- The camera in whose iteration a statement of the loop is. -/
def pcCamera : Pc → Option ℕ
  | .head | .getEndpoint => none
  | .check i _ | .send i _ | .sending i _ | .close i _ | .asyncAccept i _
  | .clearConnection i _ | .clearNewData i _ => some i

instance (c : MemoryConfig) : DecidablePred c.HasRegion
  | .cam i => inferInstanceAs (Decidable (i < c.numCams))
  | .imu | .config => inferInstanceAs (Decidable True)

section System

variable (bits : ℕ) (order : ByteOrder) (c : MemoryConfig) (addr : ℕ)

/-- The datagrams of a transfer for camera `i`, of which the data are those of
camera 0. -/
def transfer (memory : ByteMemory) (i : ℕ) : Option (List Datagram) :=
  ((SharedMemoryManager.ofConfig c addr).cam 0).bind fun source =>
    sendData bits memory sendWhole i source

/-- The next datagram of the present transfer. -/
def nextDatagram (o : System) : Option Datagram :=
  match o.program.pc with
  | .sending i .camera =>
      (transfer bits c addr o.memory i).bind fun datagrams =>
        datagrams[o.number]?
  | _ => none

/-- The flag bytes are changed by the main thread and by the producers. -/
def memoryAfter (s : SlamServer.State) (memory : ByteMemory) :
    SlamServer.Event → ByteMemory
  | .main =>
      match s.pc with
      | .clearNewData i item =>
          (c.sharedMemory addr (item.region i)).setNewDataAvailable memory false
      | _ => memory
  | .setNewDataAvailable region =>
      (c.sharedMemory addr region).setNewDataAvailable memory true
  | _ => memory

/-- `send_data` does not return before all datagrams have been sent, and there
are producers for the regions that there are. -/
def Enabled (o : System) : SlamServer.Event → Prop
  | .sendEnds true => nextDatagram bits c addr o = none
  | .setNewDataAvailable region => c.HasRegion region
  | _ => True

instance (o : System) : DecidablePred (Enabled bits c addr o)
  | .sendEnds true => inferInstanceAs (Decidable (_ = none))
  | .setNewDataAvailable _ => inferInstanceAs (Decidable (c.HasRegion _))
  | .main | .sendEnds false | .acceptCompletes _ | .handleAccept
  | .clientDisconnects | .clientResets => inferInstanceAs (Decidable True)

/-- A transfer begins with the datagram 0. -/
def numberAfter (number : ℕ) : Pc → ℕ
  | .sending _ _ => number
  | _ => 0

def step (o : System) : Action → Option System
  | .program e =>
      if Enabled bits c addr o e then
        (SlamServer.step c.numCams o.program e).map fun program =>
          { o with
            program := program
            memory := memoryAfter c addr o.program o.memory e
            number := numberAfter o.number program.pc }
      else none
  | .sendTo =>
      (nextDatagram bits c addr o).map fun d =>
        { o with number := o.number + 1, sent := o.sent ++ [d] }
  | .receive d =>
      if d ∈ o.sent then
        (TestClient.iteration order o.client (received (d.bytes order))).map
          fun result =>
            { o with
              client := result.2.2
              printed := o.printed ++ result.1 }
      else none

end System

/-- The server and the client before their loops. -/
def start (c : MemoryConfig) (addr : ℕ) (memory : ByteMemory)
    (client : TestClient.State) : System where
  program := SlamServer.init (viewOf c addr memory).flag
  memory := memory
  number := 0
  sent := []
  client := client
  printed := []

/-- A byte of an image is the one that was there, or among the first 1500 and
one of a datagram with the data of the region. -/
def FromRegion (region initial image : List UInt8) : Prop :=
  ∀ j, image[j]? = initial[j]? ∨
    j < maxPaketSize ∧ ∃ k, maxPaketSize * k + j < region.length ∧
      image[j]? = region[maxPaketSize * k + j]?

/-- A complete image starts with a datagram of the region, from number 240
on. -/
def Completes (region : List UInt8) : TestClient.Event → Prop
  | .complete _ package image => ∃ k : ℕ, package = k ∧ 240 ≤ k ∧
      k < fragmentCount region.length ∧
      image.take (fragmentData region k).length = fragmentData region k
  | .packagesLost _ _ => True

/-- What can be seen of a run with the given memory and client. -/
structure Shows (bits : ℕ) (order : ByteOrder) (c : MemoryConfig) (addr : ℕ)
    (memory : ByteMemory) (client : TestClient.State) (o : System) :
    Prop where
  represents : Represents c addr o.memory
    ⟨o.program.newDataAvailable, (viewOf c addr memory).contents⟩
  images : ∀ cam, FromRegion ((viewOf c addr memory).contents (.cam 0))
    (client.image cam) (o.client.image cam)
  printed : ∀ e ∈ o.printed,
    Completes ((viewOf c addr memory).contents (.cam 0)) e
  received : ∀ d ∈ o.sent,
    (∃ o', step bits order c addr o (.receive d) = some o') ↔ d.cam < 2

/-! ## The server -/

theorem pcCamera_forCondition {numCams i j : ℕ}
    (h : pcCamera (forCondition numCams i) = some j) : j < numCams := by
  unfold forCondition at h
  split at h
  · next hi => exact Option.some.inj h ▸ hi
  · cases h

theorem pcCamera_afterItem {numCams i j : ℕ} (hi : i < numCams) {item : Item}
    (h : pcCamera (afterItem numCams i item) = some j) : j < numCams := by
  cases item with
  | camera | imu => exact Option.some.inj h ▸ hi
  | config => exact pcCamera_forCondition h

theorem pcCamera_lt {numCams : ℕ} {s s' : SlamServer.State}
    {e : SlamServer.Event}
    (h : ∀ i, pcCamera s.pc = some i → i < numCams)
    (hmove : Move numCams s e s') :
    ∀ i, pcCamera s'.pc = some i → i < numCams := by
  cases hmove with
  | head hpc =>
      intro i hi
      dsimp only at hi
      split at hi <;> cases hi
  | getEndpoint hpc halive => exact fun i hi => pcCamera_forCondition hi
  | check hpc =>
      rw [hpc] at h
      intro j hj
      dsimp only at hj
      split at hj
      · exact h j hj
      · exact pcCamera_afterItem (h _ rfl) hj
  | clearNewData hpc =>
      rw [hpc] at h
      exact fun j hj => pcCamera_afterItem (h _ rfl) hj
  | send hpc | close hpc | asyncAccept hpc | clearConnection hpc =>
      rw [hpc] at h
      exact h
  | sent hpc | writeThrows hpc =>
      rw [hpc] at h
      exact h
  | getEndpointThrows | udpThrows | acceptSucceeds | acceptFails
  | remoteEndpoint | remoteEndpointThrows | setConnection | clientDisconnects
  | clientResets | setNewDataAvailable => exact h

variable {c : MemoryConfig} {addr : ℕ}

theorem represents_set {memory : ByteMemory} {view : View}
    (h : Represents c addr memory view) {r : Region} (hr : c.HasRegion r)
    (value : Bool) :
    Represents c addr
      ((c.sharedMemory addr r).setNewDataAvailable memory value)
      ⟨Function.update view.flag r value, view.contents⟩ := by
  constructor
  · intro r' hr'
    rw [MemoryConfig.newDataAvailable_set hr' hr, h.flag_eq r' hr']
    simp only [Function.update_apply]
  · intro r' hr'
    rw [MemoryConfig.contents_set hr' hr, h.contents_eq r' hr']

/-- The memory follows the flags of the program. -/
theorem represents_step {s s' : SlamServer.State} {e : SlamServer.Event}
    {memory : ByteMemory} {contents : Region → List UInt8}
    (h : Represents c addr memory ⟨s.newDataAvailable, contents⟩)
    (hpc : ∀ i, pcCamera s.pc = some i → i < c.numCams)
    (hregion : ∀ region, e = .setNewDataAvailable region →
      c.HasRegion region)
    (hmove : Move c.numCams s e s') :
    Represents c addr (memoryAfter c addr s memory e)
      ⟨s'.newDataAvailable, contents⟩ := by
  cases hmove with
  | @clearNewData i item hclear =>
      have hi : c.HasRegion (item.region i) := by
        cases item with
        | camera => exact hpc i (by rw [hclear]; rfl)
        | imu | config => trivial
      simp only [memoryAfter, hclear]
      exact represents_set h hi false
  | setNewDataAvailable region =>
      exact represents_set h (hregion region rfl) true
  | head hother | getEndpoint hother | getEndpointThrows hother | check hother
  | send hother | close hother | asyncAccept hother | clearConnection hother =>
      simp only [memoryAfter, hother]
      exact h
  | sent | udpThrows | writeThrows | acceptSucceeds | acceptFails
  | remoteEndpoint | remoteEndpointThrows | setConnection | clientDisconnects
  | clientResets => exact h

/-- The datagrams of a transfer are the fragments of the region of camera 0. -/
theorem transfer_eq {bits : ℕ} (hbits : 32 ≤ bits) {memory : ByteMemory}
    {view : View} (h : Represents c addr memory view) (hcam : 0 < c.numCams)
    (i : ℕ) :
    transfer bits c addr memory i =
      some ((List.range (fragmentCount (view.contents (.cam 0)).length)).map
        (fragment i (view.contents (.cam 0)))) := by
  have hcontents := h.contents_eq (.cam 0) hcam
  have hlength : (view.contents (.cam 0)).length =
      (c.sharedMemory addr (.cam 0)).size := by
    rw [← hcontents, SharedMemory.contents, ByteMemory.length_bytes]
  rw [transfer, MemoryConfig.cam_ofConfig c addr hcam, Option.bind_some,
    sendData_whole hbits memory i (c.size_cam_lt addr hcam), hcontents, hlength]

theorem nextDatagram_eq {bits : ℕ} (hbits : 32 ≤ bits) {o : System}
    {view : View} (h : Represents c addr o.memory view)
    (hpc : ∀ i, pcCamera o.program.pc = some i → i < c.numCams)
    {d : Datagram} (hd : nextDatagram bits c addr o = some d) :
    ∃ i k, i < c.numCams ∧
      k < fragmentCount (view.contents (.cam 0)).length ∧
      d = fragment i (view.contents (.cam 0)) k := by
  unfold nextDatagram at hd
  split at hd
  · next i hsending =>
      have hi : i < c.numCams := hpc i (by rw [hsending]; rfl)
      rw [transfer_eq hbits h (Nat.zero_lt_of_lt hi), Option.bind_some,
        List.getElem?_map] at hd
      obtain ⟨k, hk, rfl⟩ := Option.map_eq_some_iff.mp hd
      have hmem := List.mem_range.mp (List.mem_of_getElem? hk)
      exact ⟨i, k, hi, hmem, rfl⟩
  · cases hd

/-! ## The client -/

theorem FromRegion.overwrite {region initial image : List UInt8}
    (h : FromRegion region initial image) (k : ℕ) :
    FromRegion region initial
      (Buffer.overwrite image (fragmentData region k)) := by
  intro j
  by_cases hj : j < (fragmentData region k).length
  · have hbound : j < min maxPaketSize (region.length - maxPaketSize * k) := by
      rw [← List.length_drop, ← List.length_take]
      exact hj
    refine Or.inr ⟨by omega, k, by omega, ?_⟩
    rw [Buffer.overwrite, List.getElem?_append_left hj, fragmentData,
      List.getElem?_take_of_lt (by omega), List.getElem?_drop]
  · have hrest : (Buffer.overwrite image (fragmentData region k))[j]? =
        image[j]? := by
      rw [Buffer.overwrite, List.getElem?_append_right (by omega),
        List.getElem?_drop, Nat.add_sub_cancel' (by omega)]
    rw [hrest]
    exact h j

theorem number_lt {region : List UInt8} (hregion : region.length < 2 ^ 31)
    {k : ℕ} (hk : k < fragmentCount region.length) : (k : ℤ) < 2 ^ 31 := by
  have hle := fragmentCount_le region.length
  omega

/-- What the client does with a datagram of the cameras 0 and 1. -/
theorem iteration_fragment_eq (order : ByteOrder) {st : TestClient.State}
    (h : Arrays st) (cam : Fin 2) {region : List UInt8}
    (hregion : region.length < 2 ^ 31) {k : ℕ}
    (hk : k < fragmentCount region.length) :
    ∃ st' : TestClient.State, Arrays st' ∧
      st'.image = Function.update st.image cam
        (Buffer.overwrite (st.image cam) (fragmentData region k)) ∧
      TestClient.iteration order st
          (received ((fragment ((cam : ℕ) : ℤ) region k).bytes order)) =
        some ((countPackage st' cam k).1, .continues,
          (countPackage st' cam k).2) := by
  have hcam : ((cam : ℕ) : ℤ) < 2 ^ 31 := by
    have hlt := cam.isLt
    omega
  have hbuf := length_overwrite_fragment order ((cam : ℕ) : ℤ) region k
    h.length_buf
  have hfits : (fragmentData region k).length ≤ (st.image cam).length := by
    have hle := length_fragmentData_le region k
    rw [h.length_image cam]
    exact Nat.le_trans hle (by decide)
  have himage : (Buffer.overwrite (st.image cam)
      (fragmentData region k)).length = imageSize := by
    rw [Buffer.length_overwrite hfits, h.length_image cam]
  refine ⟨_, arrays_update h cam himage hbuf, rfl, ?_⟩
  rw [TestClient.iteration]
  simp only [received, take_overwrite_fragment, take_drop_overwrite_fragment,
    ByteOrder.loadInt_storeInt order (by omega : -2 ^ 31 ≤ ((cam : ℕ) : ℤ))
      hcam,
    ByteOrder.loadInt_storeInt order (by omega : -2 ^ 31 ≤ ((k : ℕ) : ℤ))
      (number_lt hregion hk), camIndex_fin, Option.bind_some,
    copyData_fragment order ((cam : ℕ) : ℤ) region k (h.length_image cam)
      h.length_buf,
    Option.map_some, verdict]

theorem iteration_fragment_none (order : ByteOrder) (st : TestClient.State)
    {i : ℕ} (hi : (i : ℤ) < 2 ^ 31) (htwo : 2 ≤ i) (region : List UInt8)
    (k : ℕ) :
    TestClient.iteration order st
      (received ((fragment i region k).bytes order)) = none := by
  have hindex : camIndex (i : ℤ) = none := by
    rw [camIndex, if_neg (by omega), if_neg (by omega)]
  rw [TestClient.iteration]
  simp only [received, take_overwrite_fragment,
    ByteOrder.loadInt_storeInt order (by omega : -2 ^ 31 ≤ (i : ℤ)) hi, hindex,
    Option.bind_none]

theorem printed_countPackage {region : List UInt8} {k : ℕ}
    (hk : k < fragmentCount region.length) {st : TestClient.State}
    {cam : Fin 2}
    (himage : (st.image cam).take (fragmentData region k).length =
      fragmentData region k) :
    (∀ e ∈ (countPackage st cam k).1, Completes region e) ∧
      (countPackage st cam k).2.image = st.image := by
  unfold countPackage
  split
  · next hlast =>
      refine ⟨fun e he => ?_, rfl⟩
      rcases List.mem_cons.mp he with rfl | he
      · exact ⟨k, rfl, by omega, hk, himage⟩
      · split at he
        · rw [List.mem_singleton.mp he]
          trivial
        · exact absurd he List.not_mem_nil
  · exact ⟨fun e he => absurd he List.not_mem_nil, rfl⟩

theorem iteration_shows (order : ByteOrder) {st : TestClient.State}
    (h : Arrays st) {region : List UInt8} {initial : Fin 2 → List UInt8}
    (himages : ∀ cam, FromRegion region (initial cam) (st.image cam))
    (cam : Fin 2) (hregion : region.length < 2 ^ 31) {k : ℕ}
    (hk : k < fragmentCount region.length) :
    ∃ events st', TestClient.iteration order st
          (received ((fragment ((cam : ℕ) : ℤ) region k).bytes order)) =
        some (events, .continues, st') ∧
      Arrays st' ∧
      (∀ cam, FromRegion region (initial cam) (st'.image cam)) ∧
      ∀ e ∈ events, Completes region e := by
  obtain ⟨st', harrays, himage, hiteration⟩ :=
    iteration_fragment_eq order h cam hregion hk
  have htake : (st'.image cam).take (fragmentData region k).length =
      fragmentData region k := by
    rw [himage, Function.update_self, Buffer.take_overwrite]
  obtain ⟨hprinted, hcounted⟩ := printed_countPackage hk htake
  refine ⟨_, _, hiteration, arrays_countPackage harrays cam k, ?_, hprinted⟩
  rw [hcounted, himage]
  exact (Function.forall_update_iff st.image fun cam image =>
    FromRegion region (initial cam) image).mpr
      ⟨(himages cam).overwrite k, fun cam' _ => himages cam'⟩

/-! ## Runs -/

/-- The datagrams that have been sent carry the region of camera 0. -/
def SentOf (numCams : ℕ) (region : List UInt8) (sent : List Datagram) : Prop :=
  ∀ d ∈ sent, ∃ i k, i < numCams ∧ k < fragmentCount region.length ∧
    d = fragment i region k

/-- The invariant. -/
structure Tracks (c : MemoryConfig) (addr : ℕ) (memory : ByteMemory)
    (client : TestClient.State) (o : System) : Prop where
  pcCamera_lt : ∀ i, pcCamera o.program.pc = some i → i < c.numCams
  represents : Represents c addr o.memory
    ⟨o.program.newDataAvailable, (viewOf c addr memory).contents⟩
  sent : SentOf c.numCams ((viewOf c addr memory).contents (.cam 0)) o.sent
  arrays : Arrays o.client
  images : ∀ cam, FromRegion ((viewOf c addr memory).contents (.cam 0))
    (client.image cam) (o.client.image cam)
  printed : ∀ e ∈ o.printed,
    Completes ((viewOf c addr memory).contents (.cam 0)) e

theorem tracks_start (c : MemoryConfig) (addr : ℕ) (memory : ByteMemory)
    {client : TestClient.State} (h : Arrays client) :
    Tracks c addr memory client (start c addr memory client) where
  pcCamera_lt := nofun
  represents := represents_viewOf c addr memory
  sent := fun _ hd => absurd hd List.not_mem_nil
  arrays := h
  images := fun _ _ => Or.inl rfl
  printed := fun _ he => absurd he List.not_mem_nil

theorem length_region_lt {memory : ByteMemory} {i : ℕ} (hi : i < c.numCams) :
    ((viewOf c addr memory).contents (.cam 0)).length < 2 ^ 31 := by
  have hcam : 0 < c.numCams := Nat.zero_lt_of_lt hi
  have hlength : ((viewOf c addr memory).contents (.cam 0)).length =
      (c.sharedMemory addr (.cam 0)).size :=
    ByteMemory.length_bytes ..
  rw [hlength]
  exact c.size_cam_lt addr hcam

variable {bits : ℕ} {order : ByteOrder} {memory : ByteMemory}
  {client : TestClient.State} {o o' : System}

theorem tracks_program (h : Tracks c addr memory client o)
    {e : SlamServer.Event}
    (hstep : step bits order c addr o (.program e) = some o') :
    Tracks c addr memory client o' := by
  rw [step] at hstep
  split at hstep
  · next henabled =>
      obtain ⟨program, hprogram, rfl⟩ := Option.map_eq_some_iff.mp hstep
      obtain ⟨-, hmove⟩ := move_of_step hprogram
      have hregion : ∀ region, e = .setNewDataAvailable region →
          c.HasRegion region := by
        rintro region rfl
        exact henabled
      exact ⟨pcCamera_lt h.pcCamera_lt hmove,
        represents_step h.represents h.pcCamera_lt hregion hmove,
        h.sent, h.arrays, h.images, h.printed⟩
  · cases hstep

theorem tracks_sendTo (hbits : 32 ≤ bits) (h : Tracks c addr memory client o)
    (hstep : step bits order c addr o .sendTo = some o') :
    Tracks c addr memory client o' := by
  obtain ⟨d, hd, rfl⟩ := Option.map_eq_some_iff.mp hstep
  refine ⟨h.pcCamera_lt, h.represents, fun d' hd' => ?_, h.arrays, h.images,
    h.printed⟩
  rcases List.mem_append.mp hd' with hd' | hd'
  · exact h.sent d' hd'
  · rw [List.mem_singleton.mp hd']
    exact nextDatagram_eq hbits h.represents h.pcCamera_lt hd

theorem camera_lt {i : ℕ} (hi : i < c.numCams) : (i : ℤ) < 2 ^ 31 := by
  have hmul : 1 * c.numCams ≤ (c.imageSize + 1) * c.numCams :=
    Nat.mul_le_mul_right _ (Nat.le_add_left 1 _)
  have hspace := c.memSpace_lt
  omega

/-- A datagram arrives. -/
theorem tracks_receive (h : Tracks c addr memory client o) {d : Datagram}
    (hstep : step bits order c addr o (.receive d) = some o') :
    Tracks c addr memory client o' := by
  rw [step] at hstep
  split at hstep
  · next hd =>
      obtain ⟨result, hiteration, rfl⟩ := Option.map_eq_some_iff.mp hstep
      obtain ⟨i, k, hi, hk, rfl⟩ := h.sent d hd
      by_cases htwo : i < 2
      · obtain ⟨events, st, heq, harrays, himages, hprinted⟩ :=
          iteration_shows order h.arrays h.images ⟨i, htwo⟩
            (length_region_lt hi) hk
        obtain rfl := Option.some.inj (heq.symm.trans hiteration)
        refine ⟨h.pcCamera_lt, h.represents, h.sent, harrays, himages,
          fun e he => ?_⟩
        rcases List.mem_append.mp he with he | he
        · exact h.printed e he
        · exact hprinted e he
      · have hnone := iteration_fragment_none order o.client (camera_lt hi)
          (Nat.not_lt.mp htwo) ((viewOf c addr memory).contents (.cam 0)) k
        rw [hnone] at hiteration
        cases hiteration
  · cases hstep

theorem tracks_step (hbits : 32 ≤ bits) (h : Tracks c addr memory client o)
    {a : Action} (hstep : step bits order c addr o a = some o') :
    Tracks c addr memory client o' := by
  cases a with
  | program e => exact tracks_program h hstep
  | sendTo => exact tracks_sendTo hbits h hstep
  | receive d => exact tracks_receive h hstep

theorem shows_of_tracks (h : Tracks c addr memory client o) :
    Shows bits order c addr memory client o := by
  refine ⟨h.represents, h.images, h.printed, fun d hd => ?_⟩
  obtain ⟨i, k, hi, hk, rfl⟩ := h.sent d hd
  have hcam : (fragment i ((viewOf c addr memory).contents (.cam 0)) k).cam =
      i := rfl
  rw [hcam, step, if_pos hd]
  constructor
  · rintro ⟨o', ho'⟩
    by_contra htwo
    rw [iteration_fragment_none order o.client (camera_lt hi) (by omega)] at ho'
    cases ho'
  · intro htwo
    obtain ⟨events, st, hiteration, -⟩ := iteration_shows order h.arrays
      h.images ⟨i, by omega⟩ (length_region_lt hi) hk
    exact ⟨_, congrArg (Option.map _) hiteration⟩

/-- In every run of the server, the network and the client. -/
theorem client_shows {bits : ℕ} (hbits : 32 ≤ bits) (order : ByteOrder)
    (c : MemoryConfig) (addr : ℕ) (memory : ByteMemory)
    {client : TestClient.State} (hclient : Arrays client)
    (actions : List Action) :
    EachState (step bits order c addr)
      (Shows bits order c addr memory client) (start c addr memory client)
      actions :=
  (eachState_of_eachStep
    (fun _ _ _ h _ hstep => tracks_step hbits h hstep)
    (tracks_start c addr memory hclient)
    (EachStep.of_forall (fun _ _ => trivial) _ actions)).mono
    fun _ h => shows_of_tracks h

/-- A client with black images gets the first datagram that is sent for two
cameras. -/
theorem client_shows_twoCams :
    32 ≤ 64 ∧ Arrays blackImages ∧
      EachState (step 64 .little twoCams 0)
        (Shows 64 .little twoCams 0 differentImages blackImages)
        (start twoCams 0 differentImages blackImages)
        [.program (.acceptCompletes false), .program .handleAccept,
          .program .handleAccept, .program .main, .program .main,
          .program .main, .program .main, .sendTo,
          .receive (fragment 0 [7] 0)] :=
  ⟨by decide, arrays_blackImages,
    client_shows (by decide) .little twoCams 0 differentImages
      arrays_blackImages _⟩

end NetworkExperiments.TestClient.ImageNetwork
