import NetworkExperiments.Support.Ledger
import NetworkExperiments.Support.Run
import NetworkExperiments.VisensorMod.Module

/-!
# Resource balance of the kernel module

The calls of the module are entered in a ledger of six kinds of resources.  The
module is balanced when nothing has been used or given back that it did not
hold, a load that failed has returned a negative value and holds nothing, and
an unloaded module holds nothing.

This is kept by a load in which nothing fails, or in which `kmalloc` fails.  It
is broken by every other failure, after which `aslam_init` goes on, and by
unloading a module with a page, since `aslam_exit` marks the pages reserved
instead of clearing the marks.
-/

namespace NetworkExperiments.VisensorMod

open EventSystem

/-- What the module holds: memory, device number, cdev, class, device node and
the reserved marks of pages. -/
inductive Resource
  | memory (ptr : ℕ)
  | region (dev : ℕ)
  | cdev
  | deviceClass (cl : ℕ)
  | deviceNode (cl dev : ℕ)
  | reserved (page : ℕ)
  deriving DecidableEq, Repr

/-- What a call does with the resources.  Marking a page and storing an `int`
use the memory. -/
def Call.ops (cfg : Config) : Call → List (Ledger.Op Resource)
  | .kmalloc ptr _ => [.acquire (.memory ptr)]
  | .kfree ptr => [.release (.memory ptr)]
  | .allocChrdevRegion dev => [.acquire (.region dev)]
  | .unregisterChrdevRegion dev => [.release (.region dev)]
  | .cdevAdd _ => [.acquire .cdev]
  | .cdevDel => [.release .cdev]
  | .classCreate cl => [.acquire (.deviceClass cl)]
  | .classDestroy cl => [.release (.deviceClass cl)]
  | .deviceCreate cl dev => [.acquire (.deviceNode cl dev)]
  | .deviceDestroy cl dev => [.release (.deviceNode cl dev)]
  | .setPageReserved block addr =>
      [.use (.memory block), .acquire (.reserved (addr >>> cfg.pageShift))]
  | .store block _ _ => [.use (.memory block)]

/-- The ledger after some calls. -/
def afterCalls (cfg : Config) (l : Ledger Resource) (calls : List Call) :
    Ledger Resource :=
  l.run (calls.flatMap (Call.ops cfg))

/-- How the last load went. -/
structure LoadResult where
  failed : Bool
  ret : ℤ

/-- The module is loaded, or a load of it has failed, when there is a load
result. -/
structure State where
  statics : Statics
  ledger : Ledger Resource
  load : Option LoadResult

/-- The static variables of a module that has just been loaded. -/
def freshStatics : Statics := ⟨0, 0, 0, 0, 0⟩

def init : State where
  statics := freshStatics
  ledger := .empty
  load := none

inductive Event
  | load (answers : Answers)
  | unload

def Outcome.Failed {α : Type} : Outcome α → Prop
  | .done _ => False
  | .failed _ _ => True

instance {α : Type} (outcome : Outcome α) : Decidable outcome.Failed :=
  match outcome with
  | .done _ => isFalse id
  | .failed _ _ => isTrue trivial

/-- A step of the load fails. -/
def Answers.Fails (answers : Answers) : Prop :=
  answers.kmalloc = none ∨ answers.allocChrdevRegion.Failed ∨
    answers.cdevAdd.Failed

instance (answers : Answers) : Decidable answers.Fails :=
  inferInstanceAs (Decidable (_ ∨ _))

/-- The kernel loads the module unless it is loaded, and unloads it only after
a load that returned zero. -/
def step (cfg : Config) (s : State) : Event → Option State
  | .load answers =>
      if ∀ result ∈ s.load, result.ret ≠ 0 then
        let result := aslamInit cfg answers freshStatics
        some ⟨result.2.1, afterCalls cfg s.ledger result.2.2,
          some ⟨decide answers.Fails, result.1⟩⟩
      else none
  | .unload =>
      if ∃ result ∈ s.load, result.ret = 0 then
        some ⟨s.statics,
          afterCalls cfg s.ledger (aslamExit cfg s.statics), none⟩
      else none

/-- Nothing has been used or given back that was not held, a load that failed
returned a negative value and holds nothing, and an unloaded module holds
nothing. -/
structure Balanced (s : State) : Prop where
  sound : s.ledger.faulted = false
  unloaded : s.load = none → s.ledger.held = ∅
  failed : ∀ result ∈ s.load, result.failed = true →
    result.ret < 0 ∧ s.ledger.held = ∅

/-- If a load fails, it is `kmalloc` that fails, and a module that is unloaded
has no pages. -/
def Benign (cfg : Config) (_ : State) : Event → Prop
  | .load answers => answers.Fails → answers.kmalloc = none
  | .unload => cfg.areaBytes = 0

/-! ## The calls of the module in the ledger -/

theorem afterCalls_append (cfg : Config) (l : Ledger Resource)
    (calls calls' : List Call) :
    afterCalls cfg l (calls ++ calls') =
      afterCalls cfg (afterCalls cfg l calls) calls' := by
  rw [afterCalls, List.flatMap_append, Ledger.run_append]
  rfl

/-- No call clears the reserved mark of a page. -/
theorem release_reserved_notMem (cfg : Config) (page : ℕ)
    (calls : List Call) :
    .release (.reserved page) ∉ calls.flatMap (Call.ops cfg) := by
  intro hmem
  obtain ⟨call, -, hop⟩ := List.mem_flatMap.mp hmem
  cases call <;> simp [Call.ops] at hop

theorem release_deviceClass_mem {cfg : Config} {cl : ℕ} {calls : List Call}
    (h : .release (.deviceClass cl) ∈ calls.flatMap (Call.ops cfg)) :
    .classDestroy cl ∈ calls := by
  obtain ⟨call, hcall, hop⟩ := List.mem_flatMap.mp h
  cases call with
  | classDestroy cl' =>
      have heq : cl = cl' := by simpa [Call.ops] using hop
      exact heq ▸ hcall
  | _ => simp [Call.ops] at hop

/-- The marks of the pages of an area. -/
def marks (cfg : Config) (area : ℕ) : List Resource :=
  (pageOffsets cfg).map fun i =>
    .reserved (CInt.toSize cfg.bits (area + i) >>> cfg.pageShift)

theorem acquired_setPagesReserved (cfg : Config) (block area : ℕ) :
    Ledger.acquired ((setPagesReserved cfg block area).flatMap
      (Call.ops cfg)) = marks cfg area := by
  rw [Ledger.acquired_flatMap, setPagesReserved, List.flatMap_map, marks,
    List.map_eq_flatMap]
  rfl

theorem acquired_storePattern (cfg : Config) (block area : ℕ) :
    Ledger.acquired ((storePattern cfg block area).flatMap
      (Call.ops cfg)) = [] := by
  rw [Ledger.acquired_flatMap, List.flatMap_eq_nil_iff]
  intro call hcall
  obtain ⟨addr, value, rfl⟩ := mem_storePattern hcall
  rfl

/-- While the block is held, the two loops of `aslam_init` add the marks of the
pages. -/
theorem afterCalls_loops (cfg : Config) {l : Ledger Resource} {block : ℕ}
    (hblock : .memory block ∈ l.held) (area : ℕ) :
    afterCalls cfg l
        (setPagesReserved cfg block area ++ storePattern cfg block area) =
      ⟨l.held ∪ (marks cfg area).toFinset, l.faulted⟩ := by
  have hkeeps : ∀ op ∈ (setPagesReserved cfg block area ++
      storePattern cfg block area).flatMap (Call.ops cfg), l.Keeps op := by
    intro op hop
    obtain ⟨call, hcall, hop⟩ := List.mem_flatMap.mp hop
    rcases List.mem_append.mp hcall with hcall | hcall
    · obtain ⟨i, -, rfl⟩ := List.mem_map.mp hcall
      rcases List.mem_cons.mp hop with rfl | hop
      · exact hblock
      · rw [List.mem_singleton.mp hop]
        trivial
    · obtain ⟨addr, value, rfl⟩ := mem_storePattern hcall
      rw [List.mem_singleton.mp hop]
      exact hblock
  rw [afterCalls, Ledger.run_eq_union hkeeps, List.flatMap_append,
    Ledger.acquired_append, acquired_setPagesReserved, acquired_storePattern,
    List.append_nil]

/-- What a loaded module holds. -/
def holdings (cfg : Config) (statics : Statics) : List Resource :=
  [.memory statics.kmallocPtr, .region statics.aslamDev, .cdev,
    .deviceClass statics.cl, .deviceNode statics.cl statics.aslamDev] ++
    marks cfg statics.kmallocArea

/-! ## Loading -/

theorem aslamInit_noMemory (cfg : Config) {answers : Answers}
    (h : answers.kmalloc = none) (statics : Statics) :
    (aslamInit cfg answers statics).1 = -12 ∧
      (aslamInit cfg answers statics).2.2 = [] := by
  rw [aslamInit, h]
  exact ⟨rfl, rfl⟩

theorem Answers.not_fails_iff (answers : Answers) :
    ¬ answers.Fails ↔ ∃ ptr dev, answers.kmalloc = some ptr ∧
      answers.allocChrdevRegion = .done dev ∧ answers.cdevAdd = .done () := by
  obtain ⟨kmalloc, region, cdev, cl⟩ := answers
  constructor
  · intro h
    cases kmalloc with
    | none => exact absurd (Or.inl rfl) h
    | some ptr =>
        cases region with
        | failed ret neg => exact absurd (Or.inr (Or.inl trivial)) h
        | done dev =>
            cases cdev with
            | failed ret neg => exact absurd (Or.inr (Or.inr trivial)) h
            | done value => exact ⟨ptr, dev, rfl, rfl, rfl⟩
  · rintro ⟨ptr, dev, rfl, rfl, rfl⟩ (hnone | hregion | hcdev)
    · cases hnone
    · exact hregion
    · exact hcdev

/-- A load in which nothing fails returns zero and holds every resource. -/
theorem aslamInit_succeeds (cfg : Config) {answers : Answers}
    (h : ¬ answers.Fails) (statics : Statics) :
    (aslamInit cfg answers statics).1 = 0 ∧
      afterCalls cfg .empty (aslamInit cfg answers statics).2.2 =
        ⟨(holdings cfg (aslamInit cfg answers statics).2.1).toFinset,
          false⟩ := by
  obtain ⟨ptr, dev, hkmalloc, hregion, hcdev⟩ :=
    answers.not_fails_iff.mp h
  obtain ⟨kmalloc, region, cdev, cl⟩ := answers
  cases hkmalloc
  cases hregion
  cases hcdev
  refine ⟨rfl, ?_⟩
  let first : List Call := [.kmalloc ptr cfg.kmallocBytes,
    .allocChrdevRegion dev, .cdevAdd dev, .classCreate cl,
    .deviceCreate cl dev]
  have hfirst : afterCalls cfg .empty first =
      ⟨[.memory ptr, .region dev, .cdev, .deviceClass cl,
        .deviceNode cl dev].toFinset, false⟩ := by
    have hkeeps : ∀ op ∈ first.flatMap (Call.ops cfg),
        Ledger.empty.Keeps op := by
      simp [first, Call.ops, Ledger.Keeps]
    rw [afterCalls, Ledger.run_eq_union hkeeps]
    exact congrArg (Ledger.mk · false) (Finset.empty_union _)
  have hblock : .memory ptr ∈ (afterCalls cfg .empty first).held := by
    rw [hfirst]
    simp
  have hloops := afterCalls_loops cfg hblock (roundUp cfg ptr)
  rw [← afterCalls_append, hfirst] at hloops
  rw [holdings, List.toFinset_append]
  exact hloops

theorem classDestroy_notMem_aslamInit (cfg : Config) (answers : Answers)
    (statics : Statics) (cl : ℕ) :
    .classDestroy cl ∉ (aslamInit cfg answers statics).2.2 := by
  obtain ⟨kmalloc, region, cdev, cl'⟩ := answers
  cases kmalloc with
  | none => exact List.not_mem_nil
  | some ptr =>
      intro hmem
      have hpattern :
          .classDestroy cl ∈ storePattern cfg ptr (roundUp cfg ptr) := by
        cases region <;> cases cdev <;>
          simpa [aslamInit, setPagesReserved] using hmem
      obtain ⟨addr, value, hcall⟩ := mem_storePattern hpattern
      exact Call.noConfusion hcall

theorem deviceClass_mem_aslamInit (cfg : Config) {answers : Answers}
    (hmemory : answers.kmalloc ≠ none) (statics : Statics)
    (l : Ledger Resource) :
    .deviceClass answers.classCreate ∈
      (afterCalls cfg l (aslamInit cfg answers statics).2.2).held := by
  obtain ⟨ptr, hptr⟩ := Option.ne_none_iff_exists'.mp hmemory
  have hcreate : .classCreate answers.classCreate ∈
      (aslamInit cfg answers statics).2.2 := by
    rw [aslamInit, hptr]
    simp
  have hacquire : .acquire (.deviceClass answers.classCreate) ∈
      (aslamInit cfg answers statics).2.2.flatMap (Call.ops cfg) :=
    List.mem_flatMap.mpr ⟨_, hcreate, List.mem_singleton_self _⟩
  exact Ledger.mem_held_of_acquire hacquire fun hrelease =>
    classDestroy_notMem_aslamInit cfg answers statics _
      (release_deviceClass_mem hrelease)

/-! ## Unloading -/

/-- Without pages, unloading gives everything back. -/
theorem aslamExit_noPages {cfg : Config} (h : cfg.areaBytes = 0)
    (statics : Statics) :
    afterCalls cfg ⟨(holdings cfg statics).toFinset, false⟩
      (aslamExit cfg statics) = .empty := by
  have hoffsets := (pageOffsets_eq_nil_iff cfg).mpr h
  let given : List Resource :=
    [.deviceNode statics.cl statics.aslamDev, .deviceClass statics.cl, .cdev,
      .region statics.aslamDev, .memory statics.kmallocPtr]
  have hops : (aslamExit cfg statics).flatMap (Call.ops cfg) =
      given.map Ledger.Op.release := by
    rw [aslamExit, setPagesReserved, hoffsets]
    rfl
  have hnodup : given.Nodup := by simp [given]
  have hheld : ∀ r ∈ given, r ∈ (holdings cfg statics).toFinset := by
    simp [given, holdings]
  have hall : (holdings cfg statics).toFinset ⊆ given.toFinset := by
    rw [holdings, marks, hoffsets]
    intro r hr
    simp only [List.map_nil, List.append_nil, List.mem_toFinset,
      List.mem_cons] at hr
    simp only [given, List.mem_toFinset, List.mem_cons]
    tauto
  rw [afterCalls, hops, Ledger.run_release hnodup hheld,
    Finset.sdiff_eq_empty_iff_subset.mpr hall]
  rfl

/-- With a page, unloading leaves its reserved mark. -/
theorem aslamExit_pages {cfg : Config} (h : cfg.areaBytes ≠ 0)
    (statics : Statics) (l : Ledger Resource) :
    (afterCalls cfg l (aslamExit cfg statics)).held ≠ ∅ := by
  obtain ⟨i, hi⟩ := List.exists_mem_of_ne_nil _
    (mt (pageOffsets_eq_nil_iff cfg).mp h)
  have hmark : .setPageReserved statics.kmallocPtr
      (CInt.toSize cfg.bits (statics.kmallocArea + i)) ∈
      aslamExit cfg statics := by
    refine List.mem_append_left _ (List.mem_append_right _ ?_)
    exact List.mem_map.mpr ⟨i, hi, rfl⟩
  have hacquire : .acquire (.reserved
      (CInt.toSize cfg.bits (statics.kmallocArea + i) >>> cfg.pageShift)) ∈
      (aslamExit cfg statics).flatMap (Call.ops cfg) :=
    List.mem_flatMap.mpr
      ⟨_, hmark, List.mem_cons_of_mem _ (List.mem_singleton_self _)⟩
  exact Finset.ne_empty_of_mem (Ledger.mem_held_of_acquire hacquire
    (release_reserved_notMem cfg _ _))

/-! ## Runs -/

/-- Balanced, and a module that is loaded holds every resource. -/
structure Invariant (cfg : Config) (s : State) : Prop extends Balanced s where
  loaded : ∀ result ∈ s.load, result.failed = false →
    result.ret = 0 ∧
      s.ledger = ⟨(holdings cfg s.statics).toFinset, false⟩

theorem invariant_init (cfg : Config) : Invariant cfg init where
  sound := rfl
  unloaded := fun _ => rfl
  failed := by simp [init]
  loaded := by simp [init]

theorem eq_empty_of_held {s : State} (hsound : s.ledger.faulted = false)
    (hheld : s.ledger.held = ∅) : s.ledger = .empty := by
  obtain ⟨statics, ⟨held, faulted⟩, load⟩ := s
  cases (hsound : faulted = false)
  cases (hheld : held = ∅)
  rfl

/-- Whenever the kernel loads the module, it holds nothing. -/
theorem Invariant.eq_empty {cfg : Config} {s : State} (h : Invariant cfg s)
    (hload : ∀ result ∈ s.load, result.ret ≠ 0) : s.ledger = .empty := by
  apply eq_empty_of_held h.sound
  cases hresult : s.load with
  | none => exact h.unloaded hresult
  | some result =>
      have hmem : result ∈ s.load := hresult
      cases hfailed : result.failed with
      | false =>
          exact absurd (h.loaded result hmem hfailed).1 (hload result hmem)
      | true => exact (h.failed result hmem hfailed).2

theorem Invariant.eq_holdings {cfg : Config} {s : State}
    (h : Invariant cfg s) (hload : ∃ result ∈ s.load, result.ret = 0) :
    s.ledger = ⟨(holdings cfg s.statics).toFinset, false⟩ := by
  obtain ⟨result, hmem, hret⟩ := hload
  cases hfailed : result.failed with
  | false => exact (h.loaded result hmem hfailed).2
  | true =>
      have hneg := (h.failed result hmem hfailed).1
      omega

theorem step_load {cfg : Config} {s s' : State} {answers : Answers}
    (h : step cfg s (.load answers) = some s') :
    (∀ result ∈ s.load, result.ret ≠ 0) ∧
      s' = ⟨(aslamInit cfg answers freshStatics).2.1,
        afterCalls cfg s.ledger (aslamInit cfg answers freshStatics).2.2,
        some ⟨decide answers.Fails,
          (aslamInit cfg answers freshStatics).1⟩⟩ := by
  rw [step] at h
  split at h
  · next hload => exact ⟨hload, (Option.some.inj h).symm⟩
  · cases h

theorem step_unload {cfg : Config} {s s' : State}
    (h : step cfg s .unload = some s') :
    (∃ result ∈ s.load, result.ret = 0) ∧
      s' = ⟨s.statics, afterCalls cfg s.ledger (aslamExit cfg s.statics),
        none⟩ := by
  rw [step] at h
  split at h
  · next hload => exact ⟨hload, (Option.some.inj h).symm⟩
  · cases h

theorem invariant_step {cfg : Config} (s : State) (e : Event) (s' : State)
    (h : Invariant cfg s) (hbenign : Benign cfg s e)
    (hstep : step cfg s e = some s') : Invariant cfg s' := by
  cases e with
  | load answers =>
      obtain ⟨hload, rfl⟩ := step_load hstep
      rw [h.eq_empty hload]
      by_cases hfails : answers.Fails
      · obtain ⟨hret, hcalls⟩ :=
          aslamInit_noMemory cfg (hbenign hfails) freshStatics
        rw [hcalls, hret]
        exact ⟨⟨rfl, fun _ => rfl, by simp [afterCalls, Ledger.empty]⟩,
          by simp [hfails]⟩
      · obtain ⟨hret, hledger⟩ :=
          aslamInit_succeeds cfg hfails freshStatics
        rw [hledger, hret]
        exact ⟨⟨rfl, by simp, by simp [hfails]⟩, by simp⟩
  | unload =>
      obtain ⟨hload, rfl⟩ := step_unload hstep
      rw [h.eq_holdings hload, aslamExit_noPages hbenign]
      exact ⟨⟨rfl, fun _ => rfl, by simp⟩, by simp⟩

/-- Any other step leaves something that the module should not hold. -/
theorem unbalanced_step {cfg : Config} (s : State) (e : Event) (s' : State)
    (hharm : ¬ Benign cfg s e) (hstep : step cfg s e = some s') :
    ¬ Balanced s' := by
  intro hbalanced
  cases e with
  | load answers =>
      obtain ⟨-, rfl⟩ := step_load hstep
      obtain ⟨hfails, hmemory⟩ := Classical.not_imp.mp hharm
      have hclass :=
        deviceClass_mem_aslamInit cfg hmemory freshStatics s.ledger
      have hheld := (hbalanced.failed _ rfl (decide_eq_true hfails)).2
      exact Finset.ne_empty_of_mem hclass hheld
  | unload =>
      obtain ⟨-, rfl⟩ := step_unload hstep
      exact aslamExit_pages hharm s.statics s.ledger (hbalanced.unloaded rfl)

/-- The module is balanced throughout a run exactly when no load fails but by
`kmalloc`, and it is unloaded only if it has no pages. -/
theorem balanced_iff_benign (cfg : Config) (events : List Event) :
    EachState (step cfg) Balanced init events ↔
      EachStep (step cfg) (Benign cfg) init events :=
  eachState_iff_eachStep (fun _ h => h.toBalanced)
    (fun s e s' h _ => invariant_step s e s' h)
    (fun s e s' _ _ => unbalanced_step s e s')
    (invariant_init cfg)
    (EachStep.of_forall (fun _ _ => trivial) init events)

/-- `cdev_add` fails. -/
def cdevAddFails : Answers where
  kmalloc := some 0x10000000
  allocChrdevRegion := .done 0x0f800000
  cdevAdd := .failed (-12) (by decide)
  classCreate := 0x20000000

/-- After `cdev_add` has failed, the class is left behind. -/
theorem unbalanced_after_cdevAdd_fails :
    ¬ ∀ (cfg : Config) (events : List Event),
      EachState (step cfg) Balanced init events := by
  intro hall
  have hstates := hall armConfig [.load cdevAddFails]
  have hunloaded : ∀ result ∈ init.load, result.ret ≠ 0 := by simp [init]
  obtain ⟨s', hstep⟩ : ∃ s', step armConfig init (.load cdevAddFails) =
      some s' := by
    rw [step, if_pos hunloaded]
    exact ⟨_, rfl⟩
  have hharm : ¬ Benign armConfig init (.load cdevAddFails) := fun hbenign =>
    Option.some_ne_none _ (hbenign (Or.inr (Or.inr trivial)))
  exact unbalanced_step init _ s' hharm hstep (hstates.2 s' hstep)

end NetworkExperiments.VisensorMod
