import NetworkExperiments.SlamServer.Sends
import NetworkExperiments.SlamServer.Sweep
import NetworkExperiments.SlamServer.TestPattern
import NetworkExperiments.Visensor.SharedPages
import NetworkExperiments.VisensorMod.StoredPattern

/-!
# From the kernel module to the threads of the server

The slam_sensor_server program maps the area of a kernel module and divides it
into regions.  It sets no flag and clears none before its loop starts, so that
the first flags and the first contents of the regions are what the module has
stored there, and what the test pattern of `main` has written over it.

`regions_show_pattern` says this for every configuration.  With the one of
`main` the config region is announced from the start, and `config_sent_once`
follows this through all runs: no producer has anything for that region, and yet
it is sent, once, unless its client resets the connection then.
-/

namespace NetworkExperiments.SlamServer.StartUp

open EventSystem VisensorMod Visensor.SharedPages

/-- The module of `memory_allocator.c`.  It has the functions of `visensor.c`,
but an area for three images only. -/
def memoryAllocatorConfig : Config :=
  { armConfig with npages := 360960 * 3 / 4096 }

theorem memoryAllocatorConfig_sensible : memoryAllocatorConfig.Sensible :=
  ⟨by decide, by decide, by decide⟩

/-- The addresses of the kernel start at `0xc0000000`. -/
theorem linearOn_memoryAllocator :
    LinearOn memoryAllocatorConfig (fun addr => addr - 0xc0000000) 0xc0100010
      memoryAllocatorConfig.kmallocBytes := by
  constructor
  · intro addr hge hlt
    omega
  · intro addr hge hlt hdvd
    exact Nat.dvd_sub hdvd (by decide)

/-- A process sees physical memory through a mapping. -/
def Shows (cfg : Config) (mapping : Mapping) (vmStart : ℕ)
    (memory physical : ByteMemory) : Prop :=
  ∀ a p, translate cfg mapping vmStart a = some p → memory a = physical p

/-- The `mmap` in the constructor of `SharedMemoryManager`. -/
def mapRegions (cfg : Config) (statics : Statics) (virtToPhys : ℕ → ℕ)
    (c : MemoryConfig) (address : ℕ) : Option Mapping :=
  mmap cfg statics virtToPhys (.done ()) address
    (CInt.toSize cfg.bits c.memSpace)

/-- What a process reads, with zeros where nothing is mapped. -/
def userMemory (cfg : Config) (mapping : Mapping) (vmStart : ℕ)
    (physical : ByteMemory) : ByteMemory := fun a =>
  ((translate cfg mapping vmStart a).map physical).getD 0

theorem shows_userMemory (cfg : Config) (mapping : Mapping) (vmStart : ℕ)
    (physical : ByteMemory) :
    Shows cfg mapping vmStart (userMemory cfg mapping vmStart physical)
      physical := by
  intro a p htranslate
  rw [userMemory, htranslate, Option.map_some, Option.getD_some]

/-- Every byte of a region is one of the block, and the process reads the
pattern there. -/
structure RegionsShow (cfg : Config) (order : ByteOrder) (c : MemoryConfig)
    (address block : ℕ) (physical : ByteMemory) (mapping : Mapping) :
    Prop where
  inside : ∀ r ∈ (SharedMemoryManager.ofConfig c address).regions, ∀ a,
    r.addr ≤ a → a < r.stop → ∃ p, translate cfg mapping address a = some p ∧
      block ≤ p ∧ p < block + cfg.kmallocBytes
  pattern : ∀ memory, Shows cfg mapping address memory physical →
    ∀ r ∈ (SharedMemoryManager.ofConfig c address).regions, ∀ a,
      r.addr ≤ a → a < r.stop → memory a = patternByte order (a - address)

/-! ## Mapping the regions -/

theorem memSpace_spec (c : MemoryConfig) :
    ∃ space : ℕ, c.memSpace = space ∧ 0 < space ∧ space < 2 ^ 31 :=
  ⟨_, c.memSpace_eq, Nat.succ_pos _, c.memSpace_lt⟩

theorem mapRegions_eq (cfg : Config) (statics : Statics) (virtToPhys : ℕ → ℕ)
    (c : MemoryConfig) (address : ℕ) :
    ∃ size, cfg.pageSize ∣ size ∧ c.memSpace ≤ size ∧
      (size ≤ cfg.areaBytes ↔ c.memSpace ≤ cfg.areaBytes) ∧
      mapRegions cfg statics virtToPhys c address =
        if size ≤ cfg.areaBytes then
          some ⟨virtToPhys statics.kmallocArea >>> cfg.pageShift, size⟩
        else none := by
  obtain ⟨space, hspace, hpos, hlt⟩ := memSpace_spec c
  obtain ⟨pages, hpages⟩ := cfg.pageSize_dvd_areaBytes
  have hpage := cfg.pageSize_pos
  have hpageLe := cfg.pageSize_le
  have hbits := cfg.pow_bits_ge
  have hround := Nat.div_add_mod (space + cfg.pageSize - 1) cfg.pageSize
  have hmod := Nat.mod_lt (space + cfg.pageSize - 1) hpage
  rw [Nat.mul_comm] at hround
  let size := (space + cfg.pageSize - 1) / cfg.pageSize * cfg.pageSize
  have hsize : size ≤ cfg.areaBytes ↔ space ≤ cfg.areaBytes := by
    constructor
    · intro hle
      omega
    · intro hle
      have hcount : (space + cfg.pageSize - 1) / cfg.pageSize ≤ pages := by
        rw [Nat.div_le_iff_le_mul_add_pred hpage, ← hpages]
        omega
      rw [hpages, Nat.mul_comm cfg.pageSize]
      exact Nat.mul_le_mul_right _ hcount
  have hlength : CInt.toSize cfg.bits (CInt.toLong cfg.bits
      (((address + size : ℕ) : ℤ) - address)) = size := by
    rw [CInt.toSize_toLong, ← Int.natCast_sub (Nat.le_add_right _ _),
      Nat.add_sub_cancel_left]
    exact CInt.toSize_natCast (by omega)
  have hbytes : CInt.toSize cfg.bits c.memSpace = space := by
    rw [hspace]
    exact CInt.toSize_natCast (by omega)
  refine ⟨size, Nat.dvd_mul_left _ _, by omega, by omega, ?_⟩
  rw [mapRegions, hbytes, mmap, if_neg (Nat.pos_iff_ne_zero.mp hpos)]
  simp only [aslamMmap, aslamKmem, if_true]
  rw [hlength]
  by_cases hle : size ≤ cfg.areaBytes
  · rw [if_neg (Nat.not_lt.mpr hle), if_pos hle]
  · rw [if_pos (Nat.not_le.mp hle), if_neg hle]

theorem offset_of_mem_regions {c : MemoryConfig} {address a : ℕ}
    {r : SharedMemory}
    (hr : r ∈ (SharedMemoryManager.ofConfig c address).regions)
    (hlo : r.addr ≤ a) (hhi : a < r.stop) :
    ∃ offset : ℕ, a = address + offset ∧ (offset : ℤ) < c.memSpace := by
  obtain ⟨space, hspace, -, -⟩ := memSpace_spec c
  have htiles := c.tiles_regions address
  have hstart := htiles.start_ge hr
  have hstop := htiles.stop_le hr
  rw [hspace, Int.toNat_natCast] at hstop
  exact ⟨a - address, by omega, by omega⟩

/-- What has been mapped for the regions shows the area. -/
theorem regionsShow_of_mapRegions {cfg : Config} (h : cfg.Sensible)
    {answers : Answers} {ptr : ℕ} (hkmalloc : answers.kmalloc = some ptr)
    (hwrap : ptr + cfg.kmallocBytes ≤ 2 ^ cfg.bits) (statics : Statics)
    {virtToPhys : ℕ → ℕ}
    (hlinear : LinearOn cfg virtToPhys ptr cfg.kmallocBytes)
    (order : ByteOrder) (physical : ByteMemory) {c : MemoryConfig}
    {address : ℕ} {mapping : Mapping}
    (hmapping : mapRegions cfg (aslamInit cfg answers statics).2.1 virtToPhys
      c address = some mapping) :
    RegionsShow cfg order c address (virtToPhys ptr)
      ((aslamInit cfg answers statics).2.2.foldl
        (memoryAfter order virtToPhys) physical) mapping := by
  obtain ⟨size, hdvd, hspace, -, hmap⟩ :=
    mapRegions_eq cfg (aslamInit cfg answers statics).2.1 virtToPhys c address
  obtain ⟨harea, -⟩ := aslamInit_statics cfg hkmalloc statics
  obtain ⟨haligned, hle, hend⟩ := area_spec h hwrap
  rw [hmap, harea] at hmapping
  split at hmapping
  · next hsize =>
      obtain rfl := Option.some.inj hmapping
      have hphys := hlinear.linear _ hle (by omega)
      have hbase := hlinear.aligned _ hle (by omega) haligned
      have htranslate : ∀ offset : ℕ, (offset : ℤ) < c.memSpace →
          translate cfg ⟨virtToPhys (roundUp cfg ptr) >>> cfg.pageShift,
            size⟩ address (address + offset) =
            some (virtToPhys (roundUp cfg ptr) + offset) :=
        fun offset hoffset => translate_eq hbase address (by omega)
      constructor
      · intro r hr a hlo hhi
        obtain ⟨offset, rfl, hoffset⟩ := offset_of_mem_regions hr hlo hhi
        exact ⟨_, htranslate offset hoffset, by omega, by omega⟩
      · intro memory hshows r hr a hlo hhi
        obtain ⟨offset, rfl, hoffset⟩ := offset_of_mem_regions hr hlo hhi
        rw [hshows _ _ (htranslate offset hoffset),
          memory_aslamInit h hwrap order hlinear hkmalloc,
          ByteMemory.write_of_inside _ _ (by omega), Nat.add_sub_cancel_left]
  · cases hmapping

theorem isSome_mapRegions_iff (cfg : Config) (statics : Statics)
    (virtToPhys : ℕ → ℕ) (c : MemoryConfig) (address : ℕ) :
    (mapRegions cfg statics virtToPhys c address).isSome ↔
      c.memSpace ≤ cfg.areaBytes := by
  obtain ⟨size, -, -, hfits, hmap⟩ :=
    mapRegions_eq cfg statics virtToPhys c address
  rw [hmap, ← hfits]
  by_cases hsize : size ≤ cfg.areaBytes <;> simp [hsize]

/-- Once the module is loaded, the constructor of `SharedMemoryManager` can map
its regions exactly when they fit into the area.  All their bytes are then
inside of the block from `kmalloc`, and hold the pattern of the module. -/
theorem regions_show_pattern {cfg : Config} (h : cfg.Sensible)
    {answers : Answers} {ptr : ℕ} (hkmalloc : answers.kmalloc = some ptr)
    (hwrap : ptr + cfg.kmallocBytes ≤ 2 ^ cfg.bits) (statics : Statics)
    {virtToPhys : ℕ → ℕ}
    (hlinear : LinearOn cfg virtToPhys ptr cfg.kmallocBytes)
    (order : ByteOrder) (physical : ByteMemory) (c : MemoryConfig)
    (address : ℕ) :
    let result := aslamInit cfg answers statics
    let mapped := mapRegions cfg result.2.1 virtToPhys c address
    (mapped.isSome ↔ c.memSpace ≤ cfg.areaBytes) ∧
      ∀ mapping, mapped = some mapping →
        RegionsShow cfg order c address (virtToPhys ptr)
          (result.2.2.foldl (memoryAfter order virtToPhys) physical)
          mapping :=
  ⟨isSome_mapRegions_iff cfg _ virtToPhys c address, fun _ hmapping =>
    regionsShow_of_mapRegions h hkmalloc hwrap statics hlinear order physical
      hmapping⟩

theorem twoImages_show_pattern :
    let result := aslamInit memoryAllocatorConfig allSucceed ⟨0, 0, 0, 0, 0⟩
    let mapped := mapRegions memoryAllocatorConfig result.2.1
      (fun addr => addr - 0xc0000000) (mainConfig 360960 (by decide))
      0x40000000
    (mapped.isSome ↔ (mainConfig 360960 (by decide)).memSpace ≤
        memoryAllocatorConfig.areaBytes) ∧
      ∀ mapping, mapped = some mapping →
        RegionsShow memoryAllocatorConfig .little
          (mainConfig 360960 (by decide)) 0x40000000 0x100010
          (result.2.2.foldl (memoryAfter .little fun addr => addr - 0xc0000000)
            fun _ => 0) mapping :=
  regions_show_pattern memoryAllocatorConfig_sensible rfl (by decide)
    ⟨0, 0, 0, 0, 0⟩ linearOn_memoryAllocator .little (fun _ => 0)
    (mainConfig 360960 (by decide)) 0x40000000

/-! ## The test pattern -/

/-- With five digits at most, the last text ends two bytes behind its place. -/
theorem fillLoop_of_behind (data : ℕ) (memory : ByteMemory) {k x : ℕ}
    (hk : k ≤ 100000) (hx : x < data ∨ data + 4 * k + 2 ≤ x) :
    fillLoop data memory k x = memory x := by
  induction k with
  | zero => rfl
  | succ k ih =>
      have hlength : (decimalText (4 * k / 4)).length ≤ 6 := by
        rw [length_decimalText, Nat.add_le_add_iff_right]
        exact (Nat.length_toDigits_le_iff (by decide) (by decide)).mpr
          (by omega)
      rw [fillLoop, sprintfDecimal,
        ByteMemory.write_of_outside _ _ (by omega)]
      exact ih (by omega) (by omega)

/-- The regions of `main`, for the images of the camera. -/
def serverConfig : MemoryConfig := mainConfig 360960 (by decide)

/-- The regions that are announced before the loop of `main` starts. -/
def announced : List Region := [.cam 1, .imu, .config]

/-- The regions of which `cam_faker` and `imu_faker` set the flags. -/
def faked : List Region := [.cam 0, .cam 1, .imu]

/-- Flags are set by the timers of `main` only. -/
def SetByFakers (_ : Sends.Observed) (e : Event) : Prop :=
  ∀ region, e = .setNewDataAvailable region → region ∈ faked

/-- The config region has been sent, or lost with its client, or is being sent, or
is pending: one of these, and once. -/
def ConfigSentOnce (o : Sends.Observed) : Prop :=
  o.written .config + o.lost .config +
    (if Sends.Sending o.program .config then 1 else 0) +
    (if Sends.Pending o.program .config then 1 else 0) = 1

theorem addr_imu (address : ℕ) :
    (serverConfig.sharedMemory address .imu).addr = address + 721922 := rfl

theorem addr_config (address : ℕ) :
    (serverConfig.sharedMemory address .config).addr = address + 721933 := rfl

theorem testPattern_serverConfig {address : ℕ} {memory memory' : ByteMemory}
    (h : testPattern (SharedMemoryManager.ofConfig serverConfig address)
      serverConfig.imageSize memory = some memory') :
    memory' (address + 360961) = 57 ∧
      ∀ offset, 360963 ≤ offset → memory' (address + offset) =
        memory (address + offset) := by
  have hcam : 0 < serverConfig.numCams := by decide
  have hcount : (serverConfig.imageSize + 3) / 4 = 90239 + 1 := by decide
  have hdata : (serverConfig.sharedMemory address (.cam 0)).data =
      address + 1 := rfl
  rw [testPattern_eq hcam, hcount, hdata] at h
  obtain rfl := Option.some.inj h
  constructor
  · have hdigit : (decimalText 90239).getD 4 0 = 57 := by decide
    have hplace : address + 360961 = address + 1 + 4 * (90239 + 1) := by omega
    rw [hplace, fillLoop_at_end _ _ (by decide), hdigit]
  · intro offset hoffset
    rw [fillLoop_of_behind _ _ (by decide) (by omega)]
    exact ByteMemory.write_of_outside memory _ (by omega)

/-- What the threads of the program start with.  The text for the last number of
the test pattern announces camera 1, and the pattern of the module the last two
regions. -/
theorem view_spec {order : ByteOrder} {address : ℕ}
    {memory memory' : ByteMemory}
    (hpattern : ∀ r ∈ (SharedMemoryManager.ofConfig serverConfig
      address).regions, ∀ a, r.addr ≤ a → a < r.stop →
      memory a = patternByte order (a - address))
    (htest : testPattern (SharedMemoryManager.ofConfig serverConfig address)
      serverConfig.imageSize memory = some memory') :
    (∀ r ∈ announced, (Sweep.viewOf serverConfig address memory').flag r =
      true) ∧
      (Sweep.viewOf serverConfig address memory').contents .config =
        (List.range 10).map fun k => patternByte order (721934 + k) := by
  obtain ⟨hcam, hbehind⟩ := testPattern_serverConfig htest
  have hlast : ∀ r : Region, r = .imu ∨ r = .config → ∀ a,
      (serverConfig.sharedMemory address r).addr ≤ a →
      a < (serverConfig.sharedMemory address r).stop →
      memory a = patternByte order (a - address) := by
    intro r hr
    refine hpattern _ (List.mem_append_right _ ?_)
    rcases hr with rfl | rfl
    · exact List.mem_cons_self
    · exact List.mem_cons_of_mem _ List.mem_cons_self
  have himu : memory' (address + 721922) = patternByte order 721922 := by
    have hinside := hlast .imu (Or.inl rfl) _ (Nat.le_refl _)
      (SharedMemory.addr_lt_stop _)
    rw [addr_imu, Nat.add_sub_cancel_left] at hinside
    rw [hbehind 721922 (by decide), hinside]
  have hsize : (serverConfig.sharedMemory address .config).size = 10 := rfl
  have hconfig : ∀ k < 11, memory' (address + (721933 + k)) =
      patternByte order (721933 + k) := by
    intro k hk
    have hinside := hlast .config (Or.inr rfl) (address + (721933 + k))
    rw [SharedMemory.stop_eq, addr_config, hsize, Nat.add_sub_cancel_left]
      at hinside
    rw [hbehind _ (by omega), hinside (by omega) (by omega)]
  constructor
  · intro r hr
    have hbyte : patternByte order 721922 ≠ 0 ∧
        patternByte order (721933 + 0) ≠ 0 := by
      cases order <;> decide
    simp only [announced, List.mem_cons, List.not_mem_nil, or_false] at hr
    rcases hr with rfl | rfl | rfl
    · exact decide_eq_true (hcam ▸ by decide)
    · exact decide_eq_true (himu ▸ hbyte.1)
    · exact decide_eq_true (hconfig 0 (by decide) ▸ hbyte.2)
  · refine List.map_congr_left fun k hk => ?_
    have hlt : k < 10 := List.mem_range.mp hk
    have hbytes := hconfig (k + 1) (by omega)
    have hoffset : 721933 + (k + 1) = 721934 + k := by omega
    rw [hoffset, ← Nat.add_assoc] at hbytes
    exact hbytes

/-! ## The runs of the program -/

theorem raised_config {numCams : ℕ} {o o' : Sends.Observed} {e : Event}
    (hfakers : SetByFakers o e) (hstep : Sends.step numCams o e = some o') :
    o'.raised .config = o.raised .config := by
  rw [Sends.step, Option.map_eq_some_iff] at hstep
  obtain ⟨program, -, rfl⟩ := hstep
  cases e with
  | setNewDataAvailable region =>
      have hne : Region.config ≠ region := by
        rintro rfl
        exact absurd (hfakers _ rfl) (by decide)
      simp only [Sends.raisedAfter]
      split
      · rfl
      · exact Function.update_of_ne hne _ _
  | _ => rfl

theorem configSentOnce_of_raised {o : Sends.Observed} (h : Sends.SendsInv o)
    (hends : Sends.SendsEnd o) (hraised : o.raised .config = 1) :
    ConfigSentOnce o := by
  rw [ConfigSentOnce, ← hends .config, ← h.sendsMatch .config, hraised]

/-- A region that is announced at the start and that no producer sets is sent
at most once. -/
theorem eachState_configSentOnce {numCams : ℕ}
    {newDataAvailable : Region → Bool}
    (hconfig : newDataAvailable .config = true) {es : List Event}
    (hfakers : EachStep (Sends.step numCams) SetByFakers
      (Sends.init newDataAvailable) es) :
    EachState (Sends.step numCams) ConfigSentOnce
      (Sends.init newDataAvailable) es := by
  have hinv : EachState (Sends.step numCams)
      (fun o => (Sends.SendsInv o ∧ Sends.SendsEnd o) ∧
        o.raised .config = 1) (Sends.init newDataAvailable) es := by
    refine eachState_of_eachStep ?_
      ⟨⟨Sends.sendsInv_init newDataAvailable,
        Sends.sendsEnd_init newDataAvailable⟩, if_pos hconfig⟩ hfakers
    rintro o e o' ⟨⟨hsends, hends⟩, hraised⟩ hfaker hstep
    exact ⟨⟨Sends.sendsInv_step hsends hstep, Sends.sendsEnd_step hends hstep⟩,
      (raised_config hfaker hstep).trans hraised⟩
  exact hinv.mono fun _ h => configSentOnce_of_raised h.1.1 h.1.2 h.2

/-- In every run of the program on a freshly loaded module, the last ten bytes
of the regions, which are the pattern of the module, are announced as config
data, and they are sent once: there is no producer of such data. -/
theorem config_sent_once {cfg : Config} (h : cfg.Sensible)
    {answers : Answers} {ptr : ℕ} (hkmalloc : answers.kmalloc = some ptr)
    (hwrap : ptr + cfg.kmallocBytes ≤ 2 ^ cfg.bits) (statics : Statics)
    {virtToPhys : ℕ → ℕ}
    (hlinear : LinearOn cfg virtToPhys ptr cfg.kmallocBytes)
    (order : ByteOrder) (physical : ByteMemory) {address : ℕ}
    {mapping : Mapping} {memory memory' : ByteMemory} {es : List Event}
    (hmapping : mapRegions cfg (aslamInit cfg answers statics).2.1 virtToPhys
      serverConfig address = some mapping)
    (hshows : Shows cfg mapping address memory
      ((aslamInit cfg answers statics).2.2.foldl
        (memoryAfter order virtToPhys) physical))
    (htest : testPattern (SharedMemoryManager.ofConfig serverConfig address)
      serverConfig.imageSize memory = some memory')
    (hfakers : EachStep (Sends.step serverConfig.numCams) SetByFakers
      (Sends.init (Sweep.viewOf serverConfig address memory').flag) es) :
    (∀ r ∈ announced, (Sweep.viewOf serverConfig address memory').flag r =
      true) ∧
      (Sweep.viewOf serverConfig address memory').contents .config =
        (List.range 10).map (fun k => patternByte order (721934 + k)) ∧
      EachState (Sends.step serverConfig.numCams) ConfigSentOnce
        (Sends.init (Sweep.viewOf serverConfig address memory').flag) es := by
  have hregions := regionsShow_of_mapRegions h hkmalloc hwrap statics hlinear
    order physical hmapping
  obtain ⟨hflags, hcontents⟩ :=
    view_spec (hregions.pattern memory hshows) htest
  exact ⟨hflags, hcontents,
    eachState_configSentOnce (hflags .config (by decide)) hfakers⟩

/-- A client connects, and gets the imu and the config region. -/
def sendsConfig : List Event :=
  [.acceptCompletes false, .handleAccept, .handleAccept,
    .setNewDataAvailable (.cam 0), .main, .main,
    .main, .main, .sendEnds true, .main,
    .main, .main, .sendEnds true, .main,
    .main, .main, .sendEnds true]

theorem run_sendsConfig {newDataAvailable : Region → Bool}
    (himu : newDataAvailable .imu = true)
    (hconfig : newDataAvailable .config = true) :
    ∃ o, run (Sends.step serverConfig.numCams) (Sends.init newDataAvailable)
      sendsConfig = some o ∧ o.written .config = 1 := by
  have hnumCams : 0 < serverConfig.numCams := by decide
  simp [sendsConfig, run_cons, Sends.step, Sends.init, SlamServer.step,
    SlamServer.init, acceptCompletes, handleAccept, mainStep, forCondition,
    afterItem, sendEnds, Socket.Alive, Item.region, himu, hconfig, hnumCams,
    Sends.writtenAfter, Sends.countSending, Pc.sendingRegion]

/-- On a machine with `memory_allocator.c`. -/
theorem config_sent_once_memoryAllocator :
    ∃ mapping memory',
      let result := aslamInit memoryAllocatorConfig allSucceed ⟨0, 0, 0, 0, 0⟩
      let physical : ByteMemory := result.2.2.foldl
        (memoryAfter .little fun addr => addr - 0xc0000000) fun _ => 0
      let start := Sends.init
        (Sweep.viewOf serverConfig 0x40000000 memory').flag
      mapRegions memoryAllocatorConfig result.2.1
          (fun addr => addr - 0xc0000000) serverConfig 0x40000000 =
        some mapping ∧
      testPattern (SharedMemoryManager.ofConfig serverConfig 0x40000000)
          serverConfig.imageSize
          (userMemory memoryAllocatorConfig mapping 0x40000000 physical) =
        some memory' ∧
      ((∀ r ∈ announced,
        (Sweep.viewOf serverConfig 0x40000000 memory').flag r = true) ∧
      (Sweep.viewOf serverConfig 0x40000000 memory').contents .config =
        (List.range 10).map (fun k => patternByte .little (721934 + k)) ∧
      EachState (Sends.step serverConfig.numCams) ConfigSentOnce start
        sendsConfig) ∧
      ∃ o, run (Sends.step serverConfig.numCams) start sendsConfig = some o ∧
        o.written .config = 1 := by
  obtain ⟨mapping, hmapping⟩ := Option.isSome_iff_exists.mp
    ((isSome_mapRegions_iff memoryAllocatorConfig
      (aslamInit memoryAllocatorConfig allSucceed ⟨0, 0, 0, 0, 0⟩).2.1
      (fun addr => addr - 0xc0000000) serverConfig 0x40000000).mpr (by decide))
  have hfakers : ∀ o, EachStep (Sends.step serverConfig.numCams) SetByFakers o
      sendsConfig := by
    refine EachStep.of_forall_mem fun _ e he region heq => ?_
    subst heq
    obtain rfl : region = .cam 0 := by simpa [sendsConfig] using he
    decide
  have hsent := config_sent_once memoryAllocatorConfig_sensible rfl (by decide)
    ⟨0, 0, 0, 0, 0⟩ linearOn_memoryAllocator .little (fun _ => 0) hmapping
    (shows_userMemory _ _ _ _) (testPattern_eq (by decide) _) (hfakers _)
  exact ⟨mapping, _, hmapping, testPattern_eq (by decide) _, hsent,
    run_sendsConfig (hsent.1 .imu (by decide))
      (hsent.1 .config (by decide))⟩

end NetworkExperiments.SlamServer.StartUp
