import NetworkExperiments.SlamServer.Loop
import NetworkExperiments.SlamServer.Sweep

/-!
# The sweep as a run of the threads

The loop over the cameras is modelled twice: statement by statement among the
other threads, where only the flags matter, and on its own over the bytes of
the memory.  This file connects the two.  When the main thread runs alone and
all its sends succeed, its statements from the first test of the loop to the
last change the flags as a sweep over the memory does.
-/

namespace NetworkExperiments.SlamServer.LoopSweep

open EventSystem Sweep

/-- The main thread gets from `s` to `s'` on its own, with all sends
succeeding. -/
def RunsAlone (numCams : ℕ) (s s' : State) : Prop :=
  ∃ es : List Event, (∀ e ∈ es, e = .main ∨ e = .sendEnds true) ∧
    run (step numCams) s es = some s'

namespace RunsAlone

variable {numCams : ℕ} {s s' s'' : State}

theorem refl (s : State) : RunsAlone numCams s s :=
  ⟨[], fun _ h => absurd h List.not_mem_nil, rfl⟩

theorem trans (h : RunsAlone numCams s s') (h' : RunsAlone numCams s' s'') :
    RunsAlone numCams s s'' := by
  obtain ⟨es, hes, hrun⟩ := h
  obtain ⟨fs, hfs, hrun'⟩ := h'
  refine ⟨es ++ fs, ?_, ?_⟩
  · intro e he
    rcases List.mem_append.mp he with he | he
    · exact hes e he
    · exact hfs e he
  · rw [run_append, hrun]
    exact hrun'

theorem single {e : Event} (he : e = .main ∨ e = .sendEnds true)
    (h : step numCams s e = some s') : RunsAlone numCams s s' := by
  refine ⟨[e], ?_, ?_⟩
  · intro e' he'
    rw [List.mem_singleton.mp he']
    exact he
  · rw [run_cons, h]
    rfl

theorem main (hrunning : s.uncaught = none)
    (h : mainStep numCams s = some s') : RunsAlone numCams s s' := by
  apply single (Or.inl rfl)
  rw [step, hrunning]
  exact h

theorem sendEnds (hrunning : s.uncaught = none)
    (h : SlamServer.sendEnds s true = some s') : RunsAlone numCams s s' := by
  apply single (Or.inr rfl)
  rw [step, hrunning]
  exact h

end RunsAlone

/-- The state at a statement of the loop, with the given flags. -/
def stateAt (s : State) (pc : Pc) (flag : Region → Bool) : State :=
  { s with pc := pc, newDataAvailable := flag }

variable {s : State}

/-- One `if` statement clears the flag of its region. -/
theorem runsAlone_item (numCams : ℕ) (hrunning : s.uncaught = none)
    (halive : s.tcpServer.socket.Alive) (i : ℕ) (item : Item)
    (flag : Region → Bool) :
    RunsAlone numCams (stateAt s (.check i item) flag)
      (stateAt s (afterItem numCams i item)
        (Function.update flag (item.region i) false)) := by
  by_cases hflag : flag (item.region i) = true
  · have hcheck : RunsAlone numCams (stateAt s (.check i item) flag)
        (stateAt s (.send i item) flag) := by
      refine RunsAlone.main ?_ ?_
      · exact hrunning
      · simp [mainStep, stateAt, hflag]
    have hsend : RunsAlone numCams (stateAt s (.send i item) flag)
        (stateAt s (.sending i item) flag) :=
      RunsAlone.main hrunning rfl
    have hsent : RunsAlone numCams (stateAt s (.sending i item) flag)
        (stateAt s (.clearNewData i item) flag) := by
      refine RunsAlone.sendEnds ?_ ?_
      · exact hrunning
      · cases item with
        | camera => rfl
        | imu | config => exact if_pos halive
    have hclear : RunsAlone numCams (stateAt s (.clearNewData i item) flag)
        (stateAt s (afterItem numCams i item)
          (Function.update flag (item.region i) false)) :=
      RunsAlone.main hrunning rfl
    exact hcheck.trans (hsend.trans (hsent.trans hclear))
  · have hfalse : flag (item.region i) = false := by simpa using hflag
    have hclear : Function.update flag (item.region i) false = flag := by
      rw [← hfalse, Function.update_eq_self]
    rw [hclear]
    refine RunsAlone.main ?_ ?_
    · exact hrunning
    · simp [mainStep, stateAt, hfalse]

theorem runsAlone_iterations (hrunning : s.uncaught = none)
    (halive : s.tcpServer.socket.Alive) (view : View) {numCams n i : ℕ}
    (hi : i + n = numCams) :
    RunsAlone numCams (stateAt s (forCondition numCams i) view.flag)
      (stateAt s .head (view.afterIterations i n).flag) := by
  induction n generalizing view i with
  | zero =>
      have hend : ¬ i < numCams := by omega
      rw [forCondition, if_neg hend]
      exact RunsAlone.refl _
  | succ n ih =>
      have hlt : i < numCams := by omega
      rw [forCondition, if_pos hlt]
      have hcamera := runsAlone_item numCams hrunning halive i .camera view.flag
      have himu := runsAlone_item numCams hrunning halive i .imu
        (view.clear (.cam i)).flag
      have hconfig := runsAlone_item numCams hrunning halive i .config
        ((view.clear (.cam i)).clear .imu).flag
      have hrest := ih (view.afterIteration i) (i := i + 1) (by omega)
      exact hcamera.trans (himu.trans (hconfig.trans hrest))

/-- The statements of the main thread and the sweep over the memory change the
flags in the same way. -/
theorem loop_agrees_with_sweep {bits : ℕ} {sendTo : SendResults}
    (hbits : 32 ≤ bits) (hsendTo : ∀ i, UdpServer.Progresses (sendTo i))
    (c : MemoryConfig) (addr : ℕ) (memory : ByteMemory)
    (hpc : s.pc = forCondition c.numCams 0) (hrunning : s.uncaught = none)
    (halive : s.tcpServer.socket.Alive)
    (hflag : s.newDataAvailable = (viewOf c addr memory).flag) :
    ∃ emissions memory' s',
      sweep bits sendTo (SharedMemoryManager.ofConfig c addr) memory =
        some (emissions, memory') ∧
      RunsAlone c.numCams s s' ∧ s'.pc = .head ∧
      ∀ r, c.HasRegion r →
        (viewOf c addr memory').flag r = s'.newDataAvailable r := by
  obtain ⟨emissions, memory', hsweep, hafter, -⟩ :=
    sweep_spec hbits hsendTo c addr memory
  have hloop := runsAlone_iterations hrunning halive (viewOf c addr memory)
    (Nat.zero_add c.numCams)
  have hstart : stateAt s (forCondition c.numCams 0)
      (viewOf c addr memory).flag = s := by
    rw [← hpc, ← hflag]
    rfl
  rw [hstart] at hloop
  exact ⟨emissions, memory', _, hsweep, hloop, rfl, hafter.flag_eq⟩

end NetworkExperiments.SlamServer.LoopSweep
