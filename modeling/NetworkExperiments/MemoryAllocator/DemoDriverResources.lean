import NetworkExperiments.Support.Ledger
import NetworkExperiments.Support.Run

/-!
# The resources of the demo driver

What `ntp_fpga_init`, `ntp_fpga_exit` and the other functions of
`memory_allocator/demo_driver.c` acquire, use and release, entered in a ledger,
over all loads and unloads of the module.

`ntp_fpga_exit` is also called when `ntp_fpga_init` fails, and releases what has
not been acquired then.  Nobody looks at the results of `request_mem_region`,
`kmalloc`, `ioremap` and `create_workqueue`, and mappings and buffers are never
given back.  The `file_operations` have no owner, so that the module can be
unloaded while files are open, and their functions are gone then.
`no_fault_iff` shows that these are all the ways in which a run goes wrong as
long as loads, unloads, system calls and interrupts come one after the other.
-/

namespace NetworkExperiments.MemoryAllocator.DemoDriverResources

open EventSystem

/-- The device number, the memory region of the registers, the interrupt, the
work queue, and what is allocated by a load or mapped by a call of `ioremap`.
The code of the module is there from a load to the unload. -/
inductive Resource
  | chrdev
  | memRegion
  | irq
  | workqueue
  | logData (load : ℕ)
  | logData2 (load : ℕ)
  | work (load : ℕ)
  | mapping (n : ℕ)
  | code (load : ℕ)
  deriving DecidableEq, Repr

abbrev Op : Type := Ledger.Op Resource

/-- What the functions called by `ntp_fpga_init` return, in their order; what
returns a pointer succeeds or not. -/
structure Answers where
  registerChrdev : ℤ
  checkMemRegion : ℤ
  requestMemRegion : Bool
  kmallocLog : Bool
  kmallocLog2 : Bool
  ioremapBuffer : Bool
  ioremapNtp : Bool
  requestIrq : ℤ
  createWorkqueue : Bool
  kmallocWork : Bool

/-- The module is loaded when there are the answers of its load.  `loads` and
`mappings` number the loads and the mappings that have been made.  Of each open
file there is the number of the load that it was opened in. -/
structure State where
  port : ℤ
  loads : ℕ
  mappings : ℕ
  ledger : Ledger Resource
  answers : Option Answers
  files : List ℕ

def init : State := ⟨0, 0, 0, .empty, none, []⟩

/-- A function that returns what it has acquired, or nothing. -/
def allocate (ok : Bool) (r : Resource) : List Op :=
  if ok then [.acquire r] else []

/-- `ioremap`, and the accesses to the registers through its result. -/
def ioremap (ok : Bool) (n : ℕ) : List Op :=
  allocate ok (.mapping n) ++ [.use (.mapping n)]

/-- `ntp_fpga_exit`. -/
def ntpFpgaExit (port : ℤ) : List Op :=
  .release .chrdev :: ((if port = 0 then [.release .memRegion] else []) ++
    [.release .irq, .use .workqueue, .release .workqueue])

def setupBuffer (a : Answers) (s : State) : List Op :=
  allocate a.kmallocLog (.logData s.loads) ++
    (allocate a.kmallocLog2 (.logData2 s.loads) ++
      ioremap a.ioremapBuffer s.mappings)

def setupNtp (a : Answers) (s : State) : List Op :=
  ioremap a.ioremapNtp (s.mappings + a.ioremapBuffer.toNat)

/-- `ntp_fpga_init` up to `request_irq`, and behind it. -/
def beforeIrq (a : Answers) (s : State) : List Op :=
  .acquire .chrdev :: (allocate a.requestMemRegion .memRegion ++
    (setupBuffer a s ++ setupNtp a s))

def afterIrq (a : Answers) (s : State) : List Op :=
  allocate a.createWorkqueue .workqueue ++
    allocate (a.createWorkqueue && a.kmallocWork) (.work s.loads)

/-- `ntp_fpga_init`: the value returned, the operations, and the state but for
these.  `enable_irq` is called whether `request_irq` has failed or not, and if
it has, `result` is still that of `register_chrdev`. -/
def ntpFpgaInit (a : Answers) (s : State) : ℤ × List Op × State :=
  if a.registerChrdev < 0 then (a.registerChrdev, [], s)
  else if a.checkMemRegion ≠ 0 then
    (a.checkMemRegion, .acquire .chrdev :: ntpFpgaExit a.checkMemRegion,
      { s with port := a.checkMemRegion })
  else
    let next : State :=
      { s with
        port := 0
        loads := s.loads + 1
        mappings := s.mappings + a.ioremapBuffer.toNat + a.ioremapNtp.toNat }
    if a.requestIrq ≠ 0 then
      (a.registerChrdev, beforeIrq a s ++ .use .irq :: ntpFpgaExit 0, next)
    else
      (0, beforeIrq a s ++ .acquire .irq :: .use .irq :: afterIrq a s, next)

/-- Loads and unloads of the module; files that are opened and closed, reads and
writes of the registers, each of which calls `ioremap` again, and reads of a log
buffer; and interrupts. -/
inductive Event
  | load (a : Answers)
  | unload
  | openFile
  | closeFile (file : ℕ)
  | registers (file : ℕ) (mapped : Bool)
  | log (file : ℕ) (second : Bool)
  | interrupt

/-- The module is loaded unless it is; there is a device as long as its number
is registered, and a handler as long as the interrupt is requested. -/
def Enabled (s : State) : Event → Prop
  | .load _ => s.answers = none
  | .unload => s.answers ≠ none
  | .openFile => .chrdev ∈ s.ledger.held
  | .closeFile file | .registers file _ | .log file _ => file ∈ s.files
  | .interrupt => .irq ∈ s.ledger.held

instance (s : State) : DecidablePred (Enabled s)
  | .load _ => inferInstanceAs (Decidable (s.answers = none))
  | .unload => inferInstanceAs (Decidable (s.answers ≠ none))
  | .openFile | .closeFile _ | .registers _ _ | .log _ _ | .interrupt =>
      inferInstanceAs (Decidable (_ ∈ _))

/-- The code of a module that could not be loaded is freed. -/
def ops (s : State) : Event → List Op
  | .load a =>
      .acquire (.code s.loads) :: ((ntpFpgaInit a s).2.1 ++
        if (ntpFpgaInit a s).1 < 0 then [.release (.code s.loads)] else [])
  | .unload => ntpFpgaExit s.port ++ [.release (.code (s.loads - 1))]
  | .openFile => [.use (.code (s.loads - 1))]
  | .closeFile file => [.use (.code file)]
  | .registers file mapped => .use (.code file) :: ioremap mapped s.mappings
  | .log file second =>
      [.use (.code file),
        .use (if second then .logData2 file else .logData file)]
  | .interrupt => [.use .workqueue, .use (.work (s.loads - 1))]

/-- The state but for the ledger. -/
def next (s : State) : Event → State
  | .load a =>
      { (ntpFpgaInit a s).2.2 with
        answers := if (ntpFpgaInit a s).1 < 0 then none else some a }
  | .unload => { s with answers := none }
  | .openFile => { s with files := (s.loads - 1) :: s.files }
  | .closeFile file => { s with files := s.files.erase file }
  | .registers _ mapped => { s with mappings := s.mappings + mapped.toNat }
  | .log _ _ | .interrupt => s

def step (s : State) (e : Event) : Option State :=
  if Enabled s e then
    some { next s e with ledger := s.ledger.run (ops s e) }
  else none

/-- Nothing has been used or released that was not held. -/
def NoFault (s : State) : Prop := s.ledger.faulted = false

/-- The module has not been unloaded since the file was opened. -/
def IsCurrent (s : State) (file : ℕ) : Prop :=
  s.answers ≠ none ∧ file + 1 = s.loads

/-- What `ntp_fpga_init` relies on once it has the device number. -/
structure Answers.Succeed (a : Answers) : Prop where
  checkMemRegion : a.checkMemRegion = 0
  ioremapBuffer : a.ioremapBuffer = true
  ioremapNtp : a.ioremapNtp = true
  requestIrq : a.requestIrq = 0

/-- A load fails before anything has been acquired, or gets the mappings and the
interrupt; files are used as long as the module is loaded; and what is used or
given back has been allocated by the last load. -/
def Benign (s : State) : Event → Prop
  | .load a => a.registerChrdev < 0 ∨ a.Succeed
  | .unload => ∀ a ∈ s.answers,
      a.requestMemRegion = true ∧ a.createWorkqueue = true
  | .openFile => True
  | .closeFile file => IsCurrent s file
  | .registers file mapped => IsCurrent s file ∧ mapped = true
  | .log file second => IsCurrent s file ∧ ∀ a ∈ s.answers,
      (if second then a.kmallocLog2 else a.kmallocLog) = true
  | .interrupt => ∀ a ∈ s.answers,
      a.createWorkqueue = true ∧ a.kmallocWork = true

/-- What `ntp_fpga_exit` gives back. -/
def exitResources : List Resource := [.chrdev, .memRegion, .irq, .workqueue]

/-- An unload gives back what `ntp_fpga_exit` does, and the code. -/
def IsGivenBack (r : Resource) : Prop :=
  r ∈ exitResources ∨ ∃ load, r = .code load

/-- The rest is held for ever. -/
def Leaks (s : State) (e : Event) : Prop :=
  ∀ s', step s e = some s' → ∀ r ∈ s.ledger.held, ¬ IsGivenBack r →
    r ∈ s'.ledger.held

/-- Every mapping that has been made is held. -/
def MappingsHeld (s : State) : Prop :=
  ∀ n < s.mappings, .mapping n ∈ s.ledger.held

/-! ## What is given back -/

theorem step_eq {s s' : State} {e : Event} (h : step s e = some s') :
    Enabled s e ∧ s' = { next s e with ledger := s.ledger.run (ops s e) } := by
  rw [step] at h
  split at h
  · next henabled => exact ⟨henabled, (Option.some.inj h).symm⟩
  · cases h

theorem isGivenBack_of_release {port : ℤ} {r : Resource}
    (h : .release r ∈ ntpFpgaExit port) : IsGivenBack r := by
  left
  rw [exitResources]
  unfold ntpFpgaExit at h
  split at h <;> simp at h <;> simp <;> tauto

@[simp] theorem mem_allocate {ok : Bool} {r : Resource} {op : Op} :
    op ∈ allocate ok r ↔ ok = true ∧ op = .acquire r := by
  cases ok <;> simp [allocate]

@[simp] theorem mem_ioremap {ok : Bool} {n : ℕ} {op : Op} :
    op ∈ ioremap ok n ↔
      (ok = true ∧ op = .acquire (.mapping n)) ∨ op = .use (.mapping n) := by
  simp [ioremap]

theorem release_notMem_beforeIrq {a : Answers} {s : State} {r : Resource} :
    .release r ∉ beforeIrq a s := by
  simp [beforeIrq, setupBuffer, setupNtp]

theorem release_notMem_afterIrq {a : Answers} {s : State} {r : Resource} :
    .release r ∉ afterIrq a s := by
  simp [afterIrq]

theorem isGivenBack_of_init {a : Answers} {s : State} {r : Resource}
    (h : .release r ∈ (ntpFpgaInit a s).2.1) : IsGivenBack r := by
  rw [ntpFpgaInit] at h
  split at h
  · exact absurd h List.not_mem_nil
  · split at h
    · rcases List.mem_cons.mp h with h | h
      · cases h
      · exact isGivenBack_of_release h
    · dsimp only at h
      split at h
      · rcases List.mem_append.mp h with h | h
        · exact absurd h release_notMem_beforeIrq
        · rcases List.mem_cons.mp h with h | h
          · cases h
          · exact isGivenBack_of_release h
      · rcases List.mem_append.mp h with h | h
        · exact absurd h release_notMem_beforeIrq
        · simp only [List.mem_cons, reduceCtorEq, false_or] at h
          exact absurd h release_notMem_afterIrq

theorem isGivenBack_of_ops {s : State} {e : Event} {r : Resource}
    (h : .release r ∈ ops s e) : IsGivenBack r := by
  cases e with
  | load a =>
      rcases List.mem_cons.mp h with h | h
      · cases h
      · rcases List.mem_append.mp h with h | h
        · exact isGivenBack_of_init h
        · split at h
          · cases List.mem_singleton.mp h
            exact Or.inr ⟨s.loads, rfl⟩
          · exact absurd h List.not_mem_nil
  | unload =>
      rcases List.mem_append.mp h with h | h
      · exact isGivenBack_of_release h
      · cases List.mem_singleton.mp h
        exact Or.inr ⟨s.loads - 1, rfl⟩
  | openFile | closeFile | registers | log | interrupt => simp [ops] at h

theorem leaks (s : State) (e : Event) : Leaks s e := by
  intro s' hstep r hr hback
  obtain ⟨-, rfl⟩ := step_eq hstep
  exact Ledger.mem_held_run hr fun hrelease =>
    hback (isGivenBack_of_ops hrelease)

/-! ## The invariant -/

/-- What a module that has been loaded holds. -/
structure Loaded (a : Answers) (s : State) : Prop where
  port_eq : s.port = 0
  loads_pos : 0 < s.loads
  chrdev : .chrdev ∈ s.ledger.held
  memRegion : .memRegion ∈ s.ledger.held ↔ a.requestMemRegion = true
  irq : .irq ∈ s.ledger.held
  workqueue : .workqueue ∈ s.ledger.held ↔ a.createWorkqueue = true
  logData : .logData (s.loads - 1) ∈ s.ledger.held ↔ a.kmallocLog = true
  logData2 : .logData2 (s.loads - 1) ∈ s.ledger.held ↔ a.kmallocLog2 = true
  work : .work (s.loads - 1) ∈ s.ledger.held ↔
    a.createWorkqueue = true ∧ a.kmallocWork = true
  code : ∀ n, .code n ∈ s.ledger.held ↔ n + 1 = s.loads

/-- The invariant of runs without faults. -/
structure Inv (s : State) : Prop where
  sound : NoFault s
  fresh : ∀ n, s.loads ≤ n → .logData n ∉ s.ledger.held ∧
    .logData2 n ∉ s.ledger.held ∧ .work n ∉ s.ledger.held
  freshMapping : ∀ n, s.mappings ≤ n → .mapping n ∉ s.ledger.held
  unloaded : s.answers = none → ∀ r ∈ s.ledger.held, ¬ IsGivenBack r
  loaded : ∀ a ∈ s.answers, Loaded a s

theorem inv_init : Inv init where
  sound := rfl
  fresh := fun _ _ => ⟨Finset.notMem_empty _, Finset.notMem_empty _,
    Finset.notMem_empty _⟩
  freshMapping := fun _ _ => Finset.notMem_empty _
  unloaded := fun _ r hr => absurd hr (Finset.notMem_empty r)
  loaded := nofun

/-- What is given back is held by a loaded module only. -/
theorem Inv.exists_answers {s : State} (h : Inv s) {r : Resource}
    (hr : IsGivenBack r) (hheld : r ∈ s.ledger.held) :
    ∃ a, s.answers = some a := by
  refine Option.ne_none_iff_exists'.mp fun hnone => ?_
  exact h.unloaded hnone r hheld hr

/-- The only code is that of the loaded module. -/
theorem Inv.code_iff {s : State} (h : Inv s) (file : ℕ) :
    .code file ∈ s.ledger.held ↔ IsCurrent s file := by
  constructor
  · intro hheld
    obtain ⟨a, ha⟩ := h.exists_answers (Or.inr ⟨file, rfl⟩) hheld
    exact ⟨by simp [ha], ((h.loaded a ha).code file).mp hheld⟩
  · rintro ⟨hloaded, hfile⟩
    obtain ⟨a, ha⟩ := Option.ne_none_iff_exists'.mp hloaded
    exact ((h.loaded a ha).code file).mpr hfile

/-- What a load with the mappings and the interrupt acquires. -/
def acquisitions (a : Answers) (s : State) : List Op :=
  .acquire (.code s.loads) :: .acquire .chrdev ::
    (allocate a.requestMemRegion .memRegion ++
      (allocate a.kmallocLog (.logData s.loads) ++
        (allocate a.kmallocLog2 (.logData2 s.loads) ++
          (.acquire (.mapping s.mappings) ::
            .acquire (.mapping (s.mappings + 1)) :: .acquire .irq ::
              afterIrq a s))))

theorem Answers.Succeed.init_eq {a : Answers} (h : a.Succeed) (s : State)
    (hchrdev : ¬ a.registerChrdev < 0) :
    ntpFpgaInit a s =
      (0, beforeIrq a s ++ .acquire .irq :: .use .irq :: afterIrq a s,
        { s with port := 0, loads := s.loads + 1,
                 mappings := s.mappings + 2 }) := by
  obtain ⟨hregion, hbuffer, hntp, hirq⟩ := h
  simp [ntpFpgaInit, hchrdev, hregion, hbuffer, hntp, hirq]

/-- The uses are of what has just been acquired. -/
theorem Answers.Succeed.run_ops {a : Answers} (h : a.Succeed) (s : State)
    (hchrdev : ¬ a.registerChrdev < 0) (l : Ledger Resource) :
    l.run (ops s (.load a)) =
      ⟨l.held ∪ (Ledger.acquired (acquisitions a s)).toFinset,
        l.faulted⟩ := by
  have hops : l.run (ops s (.load a)) = l.run (acquisitions a s) := by
    simp only [ops, h.init_eq s hchrdev, beforeIrq, setupBuffer, setupNtp,
      ioremap, allocate, h.ioremapBuffer, h.ioremapNtp, acquisitions,
      if_true, Int.lt_irrefl, if_false, Ledger.run_cons, Ledger.run_append,
      Ledger.run_nil, Ledger.step_acquire_use, Bool.toNat_true]
  rw [hops]
  refine Ledger.run_eq_union fun op hop => ?_
  have hacquire : ∃ r, op = .acquire r := by
    simp only [acquisitions, afterIrq, List.mem_cons, List.mem_append,
      mem_allocate] at hop
    tauto
  obtain ⟨r, rfl⟩ := hacquire
  trivial

/-- A load that gets the mappings and the interrupt. -/
theorem inv_load {s : State} (h : Inv s) (hnone : s.answers = none)
    {a : Answers} (hchrdev : ¬ a.registerChrdev < 0) (hsucceed : a.Succeed) :
    Inv { next s (.load a) with ledger := s.ledger.run (ops s (.load a)) } := by
  have hunloaded := h.unloaded hnone
  obtain ⟨hlog, hlog2, hwork⟩ := h.fresh s.loads (Nat.le_refl _)
  have hregion : .memRegion ∉ s.ledger.held := fun hmem =>
    hunloaded _ hmem (Or.inl (by decide))
  have hworkqueue : .workqueue ∉ s.ledger.held := fun hmem =>
    hunloaded _ hmem (Or.inl (by decide))
  have hcode : ∀ n, .code n ∉ s.ledger.held := fun n hmem =>
    hunloaded _ hmem (Or.inr ⟨n, rfl⟩)
  have hmem : ∀ r, r ∈ s.ledger.held ∪
      (Ledger.acquired (acquisitions a s)).toFinset ↔
        r ∈ s.ledger.held ∨ .acquire r ∈ acquisitions a s := by
    intro r
    rw [Finset.mem_union, List.mem_toFinset, Ledger.mem_acquired]
  simp only [next, hsucceed.init_eq s hchrdev, hsucceed.run_ops s hchrdev]
  refine ⟨h.sound, fun n hn => ?_, fun n hn => ?_, nofun, fun a' ha' => ?_⟩
  · obtain ⟨hlogn, hlog2n, hworkn⟩ := h.fresh n (Nat.le_of_succ_le hn)
    have hne : n ≠ s.loads := by
      dsimp only at hn
      omega
    simp only [hmem]
    simp [acquisitions, afterIrq, hlogn, hlog2n, hworkn, hne]
  · have hmapping := h.freshMapping n (by dsimp only at hn; omega)
    have hne : n ≠ s.mappings ∧ n ≠ s.mappings + 1 := by
      dsimp only at hn
      omega
    simp only [hmem]
    simp [acquisitions, afterIrq, hmapping, hne.1, hne.2]
  · obtain rfl : a = a' := Option.some.inj ha'
    constructor <;> simp only [hmem, Nat.add_sub_cancel] <;>
      simp [acquisitions, afterIrq, hregion, hlog, hlog2, hwork, hworkqueue,
        hcode]

theorem inv_load_fails {s : State} (h : Inv s) (hnone : s.answers = none)
    {a : Answers} (hchrdev : a.registerChrdev < 0) :
    Inv { next s (.load a) with ledger := s.ledger.run (ops s (.load a)) } := by
  have hinit : ntpFpgaInit a s = (a.registerChrdev, [], s) := by
    rw [ntpFpgaInit, if_pos hchrdev]
  have hcode : .code s.loads ∉ s.ledger.held := fun hmem =>
    h.unloaded hnone _ hmem (Or.inr ⟨s.loads, rfl⟩)
  simp only [next, ops, hinit, if_pos hchrdev, List.nil_append,
    Ledger.run_acquire_release hcode, ← hnone]
  exact h

theorem run_exit {l : Ledger Resource} (h : ∀ r ∈ exitResources, r ∈ l.held) :
    l.run (ntpFpgaExit 0) = ⟨l.held \ exitResources.toFinset, l.faulted⟩ := by
  let first : List Resource := [.chrdev, .memRegion, .irq]
  have hexit : ntpFpgaExit 0 = first.map .release ++
      (.use .workqueue :: [Resource.workqueue].map .release) := rfl
  have hall : exitResources = first ++ [.workqueue] := rfl
  have hfirst : ∀ r ∈ first, r ∈ l.held := fun r hr =>
    h r (hall ▸ List.mem_append_left _ hr)
  have hworkqueue : .workqueue ∈ l.held \ first.toFinset := by
    rw [Finset.mem_sdiff]
    exact ⟨h _ (by decide), by decide⟩
  have hlast : ∀ r ∈ [Resource.workqueue], r ∈ l.held \ first.toFinset := by
    intro r hr
    rw [List.mem_singleton.mp hr]
    exact hworkqueue
  rw [hexit, Ledger.run_append, Ledger.run_release (by decide) hfirst,
    Ledger.run_cons, Ledger.step_use hworkqueue,
    Ledger.run_release (by decide) hlast, hall, List.toFinset_append,
    ← Finset.sup_eq_union, sdiff_sdiff_left]

theorem inv_unload {s : State} (h : Inv s) {a : Answers}
    (ha : s.answers = some a) (hregion : a.requestMemRegion = true)
    (hworkqueue : a.createWorkqueue = true) :
    Inv { next s .unload with ledger := s.ledger.run (ops s .unload) } := by
  have hloaded := h.loaded a ha
  have hall : ∀ r ∈ exitResources, r ∈ s.ledger.held := by
    intro r hr
    simp only [exitResources, List.mem_cons, List.not_mem_nil, or_false] at hr
    rcases hr with rfl | rfl | rfl | rfl
    · exact hloaded.chrdev
    · exact hloaded.memRegion.mpr hregion
    · exact hloaded.irq
    · exact hloaded.workqueue.mpr hworkqueue
  have hcode : .code (s.loads - 1) ∈
      s.ledger.held \ exitResources.toFinset := by
    have hcurrent := (hloaded.code (s.loads - 1)).mpr
      (Nat.sub_add_cancel hloaded.loads_pos)
    rw [Finset.mem_sdiff, List.mem_toFinset]
    exact ⟨hcurrent, by simp [exitResources]⟩
  have hrun : s.ledger.run (ops s .unload) =
      ⟨(s.ledger.held \ exitResources.toFinset).erase (.code (s.loads - 1)),
        s.ledger.faulted⟩ := by
    rw [ops, hloaded.port_eq, Ledger.run_append, run_exit hall,
      Ledger.run_cons, Ledger.step_release hcode, Ledger.run_nil]
  rw [hrun]
  refine ⟨h.sound, fun n hn => ?_, fun n hn => ?_, fun _ r hr => ?_, nofun⟩
  · obtain ⟨hlog, hlog2, hwork⟩ := h.fresh n hn
    simp [hlog, hlog2, hwork]
  · simp [h.freshMapping n hn]
  · simp only [Finset.mem_erase, Finset.mem_sdiff, List.mem_toFinset] at hr
    rintro (hexit | ⟨n, rfl⟩)
    · exact hr.2.2 hexit
    · have hn := (hloaded.code n).mp hr.2.1
      exact hr.1 (by rw [← hn, Nat.add_sub_cancel])

/-- A module stays loaded as long as only mappings are added. -/
theorem Loaded.congr {a : Answers} {s s' : State} (h : Loaded a s)
    (hport : s'.port = s.port) (hloads : s'.loads = s.loads)
    (hheld : ∀ r, (∀ n, r ≠ .mapping n) →
      (r ∈ s'.ledger.held ↔ r ∈ s.ledger.held)) : Loaded a s' where
  port_eq := hport.trans h.port_eq
  loads_pos := hloads ▸ h.loads_pos
  chrdev := (hheld .chrdev fun _ => nofun).mpr h.chrdev
  memRegion := (hheld .memRegion fun _ => nofun).trans h.memRegion
  irq := (hheld .irq fun _ => nofun).mpr h.irq
  workqueue := (hheld .workqueue fun _ => nofun).trans h.workqueue
  logData := hloads ▸ (hheld (.logData _) fun _ => nofun).trans h.logData
  logData2 := hloads ▸ (hheld (.logData2 _) fun _ => nofun).trans h.logData2
  work := hloads ▸ (hheld (.work _) fun _ => nofun).trans h.work
  code := fun n =>
    hloads ▸ (hheld (.code n) fun _ => nofun).trans (h.code n)

theorem Inv.files {s : State} (h : Inv s) (files : List ℕ) :
    Inv { s with files := files } where
  sound := h.sound
  fresh := h.fresh
  freshMapping := h.freshMapping
  unloaded := h.unloaded
  loaded := fun a ha => (h.loaded a ha).congr rfl rfl fun _ _ => Iff.rfl

theorem inv_registers {s : State} (h : Inv s) {file : ℕ}
    (hfile : IsCurrent s file) :
    Inv { next s (.registers file true) with
      ledger := s.ledger.run (ops s (.registers file true)) } := by
  have hrun : s.ledger.run (ops s (.registers file true)) =
      ⟨insert (.mapping s.mappings) s.ledger.held, s.ledger.faulted⟩ := by
    have hioremap : ioremap true s.mappings =
        [.acquire (.mapping s.mappings), .use (.mapping s.mappings)] := rfl
    rw [ops, Ledger.run_cons, Ledger.step_use ((h.code_iff file).mpr hfile),
      hioremap, Ledger.run_cons, Ledger.run_cons, Ledger.step_acquire_use]
    rfl
  rw [hrun]
  refine ⟨h.sound, fun n hn => ?_, fun n hn => ?_,
    fun hnone => absurd hnone hfile.1, fun a ha => ?_⟩
  · obtain ⟨hlog, hlog2, hwork⟩ := h.fresh n hn
    simp [hlog, hlog2, hwork]
  · have hn : s.mappings + 1 ≤ n := hn
    have hne : n ≠ s.mappings := by omega
    simp [h.freshMapping n (Nat.le_of_succ_le hn), hne]
  · refine (h.loaded a ha).congr rfl rfl fun r hr => ?_
    exact Finset.mem_insert.trans (or_iff_right (hr s.mappings))

/-! ## Runs -/

theorem run_use {l : Ledger Resource} {r : Resource} (h : r ∈ l.held) :
    l.run [.use r] = l := by
  rw [Ledger.run_cons, Ledger.step_use h, Ledger.run_nil]

theorem Inv.log_iff {s : State} (h : Inv s) {file : ℕ}
    (hfile : IsCurrent s file) {a : Answers} (ha : s.answers = some a)
    (second : Bool) :
    (if second then Resource.logData2 file else .logData file) ∈
        s.ledger.held ↔
      (if second then a.kmallocLog2 else a.kmallocLog) = true := by
  obtain rfl : file = s.loads - 1 := Nat.eq_sub_of_add_eq hfile.2
  cases second with
  | true => exact (h.loaded a ha).logData2
  | false => exact (h.loaded a ha).logData

theorem inv_step {s : State} (h : Inv s) {e : Event} (hbenign : Benign s e)
    {s' : State} (hstep : step s e = some s') : Inv s' := by
  obtain ⟨henabled, rfl⟩ := step_eq hstep
  cases e with
  | load a =>
      by_cases hchrdev : a.registerChrdev < 0
      · exact inv_load_fails h henabled hchrdev
      · exact inv_load h henabled hchrdev (hbenign.resolve_left hchrdev)
  | unload =>
      obtain ⟨a, ha⟩ := Option.ne_none_iff_exists'.mp henabled
      obtain ⟨hregion, hworkqueue⟩ := hbenign a ha
      exact inv_unload h ha hregion hworkqueue
  | openFile =>
      obtain ⟨a, ha⟩ := h.exists_answers (r := .chrdev)
        (Or.inl (by decide)) henabled
      have hloaded := h.loaded a ha
      have hcode := (hloaded.code (s.loads - 1)).mpr
        (Nat.sub_add_cancel hloaded.loads_pos)
      rw [ops, run_use hcode]
      exact h.files _
  | closeFile file =>
      rw [ops, run_use ((h.code_iff file).mpr hbenign)]
      exact h.files _
  | registers file mapped =>
      obtain ⟨hfile, rfl⟩ := hbenign
      exact inv_registers h hfile
  | log file second =>
      obtain ⟨hfile, hlog⟩ := hbenign
      obtain ⟨a, ha⟩ := Option.ne_none_iff_exists'.mp hfile.1
      have hused := (h.log_iff hfile ha second).mpr (hlog a ha)
      rw [ops, Ledger.run_cons,
        Ledger.step_use ((h.code_iff file).mpr hfile), run_use hused]
      exact h
  | interrupt =>
      obtain ⟨a, ha⟩ := h.exists_answers (r := .irq)
        (Or.inl (by decide)) henabled
      have hloaded := h.loaded a ha
      obtain ⟨hqueue, hwork⟩ := hbenign a ha
      have hused : .workqueue ∈ s.ledger.held := hloaded.workqueue.mpr hqueue
      have hrun : s.ledger.run (ops s .interrupt) = s.ledger := by
        rw [ops, Ledger.run_cons, Ledger.step_use hused,
          run_use (hloaded.work.mpr ⟨hqueue, hwork⟩)]
      rw [hrun]
      exact h

theorem faulted_use {l : Ledger Resource} {r : Resource} (h : r ∉ l.held)
    (after : List Op) : (l.run (.use r :: after)).faulted = true := by
  have hnil : r ∉ (l.run []).held := h
  exact Ledger.faulted_of_notMem (Or.inr rfl) hnil

theorem faulted_ioremap {l : Ledger Resource} {n : ℕ}
    (h : .mapping n ∉ l.held) : (l.run (ioremap false n)).faulted = true :=
  faulted_use h []

theorem faulted_beforeIrq {s : State} {l : Ledger Resource}
    (hfresh : ∀ n, s.mappings ≤ n → .mapping n ∉ l.held) {a : Answers}
    (hfails : ¬ (a.ioremapBuffer = true ∧ a.ioremapNtp = true)) :
    (l.run (beforeIrq a s)).faulted = true := by
  by_cases hbuffer : a.ioremapBuffer = true
  · have hntp : a.ioremapNtp = false := by
      rw [← Bool.not_eq_true]
      exact fun hntp => hfails ⟨hbuffer, hntp⟩
    have hlist : beforeIrq a s =
        (.acquire .chrdev :: (allocate a.requestMemRegion .memRegion ++
          setupBuffer a s)) ++ ioremap false (s.mappings + 1) := by
      simp [beforeIrq, setupNtp, hbuffer, hntp]
    rw [hlist, Ledger.run_append]
    refine faulted_ioremap (Ledger.notMem_held_run
      (hfresh (s.mappings + 1) (Nat.le_succ _)) ?_)
    simp [setupBuffer]
  · have hlist : beforeIrq a s =
        (.acquire .chrdev :: (allocate a.requestMemRegion .memRegion ++
          (allocate a.kmallocLog (.logData s.loads) ++
            allocate a.kmallocLog2 (.logData2 s.loads)))) ++
          (ioremap false s.mappings ++ setupNtp a s) := by
      simp [beforeIrq, setupBuffer, hbuffer]
    rw [hlist, Ledger.run_append, Ledger.run_append]
    refine Ledger.faulted_run (faulted_ioremap (Ledger.notMem_held_run
      (hfresh s.mappings (Nat.le_refl _)) ?_)) _
    simp

/-- A load that fails after the device number has been registered. -/
theorem faulted_load {s : State} {l : Ledger Resource} (hirq : .irq ∉ l.held)
    (hfresh : ∀ n, s.mappings ≤ n → .mapping n ∉ l.held) {a : Answers}
    (hharm : ¬ Benign s (.load a)) :
    (l.run (ntpFpgaInit a s).2.1).faulted = true := by
  obtain ⟨hchrdev, hfails⟩ := not_or.mp hharm
  by_cases hregion : a.checkMemRegion = 0
  · by_cases hmapped : a.ioremapBuffer = true ∧ a.ioremapNtp = true
    · have hrequest : a.requestIrq ≠ 0 := fun hzero =>
        hfails ⟨hregion, hmapped.1, hmapped.2, hzero⟩
      have hbefore : .irq ∉ (l.run (beforeIrq a s)).held :=
        Ledger.notMem_held_run hirq (by simp [beforeIrq, setupBuffer, setupNtp])
      rw [ntpFpgaInit, if_neg hchrdev, if_neg (not_not.mpr hregion)]
      dsimp only
      rw [if_pos hrequest]
      exact Ledger.faulted_of_notMem (Or.inr rfl) hbefore
    · rw [ntpFpgaInit, if_neg hchrdev, if_neg (not_not.mpr hregion)]
      dsimp only
      split <;> rw [Ledger.run_append] <;>
        exact Ledger.faulted_run (faulted_beforeIrq hfresh hmapped) _
  · rw [ntpFpgaInit, if_neg hchrdev, if_pos hregion]
    refine Ledger.faulted_run_of_mem (r := .irq) ?_ (Or.inl rfl) hirq ?_ <;>
      simp [ntpFpgaExit]

/-- Any other step is a fault. -/
theorem fault_step {s : State} (h : Inv s) {e : Event} (hharm : ¬ Benign s e)
    {s' : State} (hstep : step s e = some s') : ¬ NoFault s' := by
  obtain ⟨henabled, rfl⟩ := step_eq hstep
  suffices hfault : (s.ledger.run (ops s e)).faulted = true by
    intro hno
    exact absurd (hfault.symm.trans hno) (by decide)
  cases e with
  | load a =>
      have hheld : ∀ r, r ∉ s.ledger.held → r ≠ .code s.loads →
          r ∉ (s.ledger.run [.acquire (.code s.loads)]).held :=
        fun r hr hne => Ledger.notMem_held_run hr (by simp [hne])
      have hirq : .irq ∉ s.ledger.held := fun hirq =>
        h.unloaded henabled _ hirq (Or.inl (by decide))
      rw [ops, Ledger.run_cons, Ledger.run_append]
      exact Ledger.faulted_run (faulted_load (hheld _ hirq nofun)
        (fun n hn => hheld _ (h.freshMapping n hn) nofun) hharm) _
  | unload =>
      obtain ⟨a, ha, hmissing⟩ := not_forall₂.mp hharm
      have hloaded := h.loaded a ha
      rw [ops, hloaded.port_eq, Ledger.run_append]
      refine Ledger.faulted_run ?_ _
      by_cases hregion : a.requestMemRegion = true
      · have hqueue : .workqueue ∉ s.ledger.held := fun hmem =>
          hmissing ⟨hregion, hloaded.workqueue.mp hmem⟩
        refine Ledger.faulted_run_of_mem (r := .workqueue) ?_ (Or.inl rfl)
          hqueue ?_ <;> simp [ntpFpgaExit]
      · refine Ledger.faulted_run_of_mem (r := .memRegion) ?_ (Or.inl rfl)
          (mt hloaded.memRegion.mp hregion) ?_ <;> simp [ntpFpgaExit]
  | openFile => exact absurd trivial hharm
  | closeFile file => exact faulted_use (mt (h.code_iff file).mp hharm) _
  | registers file mapped =>
      by_cases hfile : IsCurrent s file
      · have hmapped : mapped = false := by
          rw [← Bool.not_eq_true]
          exact fun hmapped => hharm ⟨hfile, hmapped⟩
        rw [ops, hmapped, Ledger.run_cons,
          Ledger.step_use ((h.code_iff file).mpr hfile)]
        exact faulted_ioremap (h.freshMapping _ (Nat.le_refl _))
      · exact faulted_use (mt (h.code_iff file).mp hfile) _
  | log file second =>
      by_cases hfile : IsCurrent s file
      · obtain ⟨a, ha, hlog⟩ :=
          not_forall₂.mp fun hall => hharm ⟨hfile, hall⟩
        rw [ops, Ledger.run_cons,
          Ledger.step_use ((h.code_iff file).mpr hfile)]
        exact faulted_use (mt (h.log_iff hfile ha second).mp hlog) []
      · exact faulted_use (mt (h.code_iff file).mp hfile) _
  | interrupt =>
      obtain ⟨a, ha, hnot⟩ := not_forall₂.mp hharm
      have hloaded := h.loaded a ha
      by_cases hqueue : .workqueue ∈ s.ledger.held
      · rw [ops, Ledger.run_cons, Ledger.step_use hqueue]
        exact faulted_use (mt hloaded.work.mp hnot) []
      · exact faulted_use hqueue _

theorem mapping_mem_beforeIrq {a : Answers} {s : State} {n : ℕ}
    (h : n < s.mappings + a.ioremapBuffer.toNat + a.ioremapNtp.toNat)
    (hn : ¬ n < s.mappings) : .acquire (.mapping n) ∈ beforeIrq a s := by
  by_cases hbuffer : n < s.mappings + a.ioremapBuffer.toNat
  · cases hok : a.ioremapBuffer with
    | true =>
        rw [hok, Bool.toNat_true] at hbuffer
        obtain rfl : n = s.mappings := by omega
        simp [beforeIrq, setupBuffer, hok]
    | false => exact absurd (by simpa [hok] using hbuffer) hn
  · cases hok : a.ioremapNtp with
    | true =>
        rw [hok, Bool.toNat_true] at h
        obtain rfl : n = s.mappings + a.ioremapBuffer.toNat := by omega
        simp [beforeIrq, setupNtp, hok]
    | false => exact absurd (by simpa [hok] using h) hbuffer

theorem mapping_acquired_load {s : State} {a : Answers} {n : ℕ}
    (h : n < (next s (.load a)).mappings) (hn : ¬ n < s.mappings) :
    .acquire (.mapping n) ∈ (ntpFpgaInit a s).2.1 := by
  simp only [next, ntpFpgaInit] at h
  simp only [ntpFpgaInit]
  split at h
  · exact absurd h hn
  · next hchrdev =>
      rw [if_neg hchrdev]
      split at h
      · exact absurd h hn
      · next hregion =>
          rw [if_neg hregion]
          have hlt : n < s.mappings + a.ioremapBuffer.toNat +
              a.ioremapNtp.toNat := by
            split at h <;> exact h
          have hmem := mapping_mem_beforeIrq hlt hn
          split <;> exact List.mem_append_left _ hmem

theorem mapping_acquired {s : State} {e : Event} {n : ℕ}
    (h : n < (next s e).mappings) :
    n < s.mappings ∨ .acquire (.mapping n) ∈ ops s e := by
  by_cases hn : n < s.mappings
  · exact Or.inl hn
  · right
    cases e with
    | load a =>
        exact List.mem_cons_of_mem _
          (List.mem_append_left _ (mapping_acquired_load h hn))
    | registers file mapped =>
        have h : n < s.mappings + mapped.toNat := h
        cases mapped with
        | true =>
            obtain rfl : n = s.mappings :=
              Nat.le_antisymm (Nat.le_of_lt_succ h) (Nat.not_lt.mp hn)
            simp [ops]
        | false => exact absurd h hn
    | unload | openFile | closeFile | log | interrupt => exact absurd h hn

theorem mappingsHeld_step {s s' : State} {e : Event} (h : MappingsHeld s)
    (hstep : step s e = some s') : MappingsHeld s' := by
  obtain ⟨henabled, rfl⟩ := step_eq hstep
  intro n hn
  have hkept : .release (.mapping n) ∉ ops s e := fun hrelease => by
    simpa [IsGivenBack, exitResources] using isGivenBack_of_ops hrelease
  rcases mapping_acquired hn with hn | hacquire
  · exact Ledger.mem_held_run (h n hn) hkept
  · exact Ledger.mem_held_of_acquire hacquire hkept

end NetworkExperiments.MemoryAllocator.DemoDriverResources
