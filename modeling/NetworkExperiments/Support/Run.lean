import Mathlib.Data.List.Infix

/-!
# Runs of event-driven systems

A system is a partial step function `step : σ → ε → Option σ`: the state that
an event leads to, or `none` when the event cannot happen in that state.  The
events may come from several parties, so a list of events is one interleaving
of their actions.

`EachState` and `EachStep` speak about every state and every step of a run.  A
run ends at the first event that cannot happen; `EachTurn` speaks about this
event too.  The rules at the end are the induction principles used for safety
properties: they derive a property of all states from an inductive invariant, or
characterize exactly the runs in which the property holds.
-/

namespace EventSystem

variable {σ ε : Type*}

/-- The state after the events `es`, or `none` when one of them cannot
happen. -/
def run (step : σ → ε → Option σ) : σ → List ε → Option σ
  | s, [] => some s
  | s, e :: es => (step s e).bind fun s' => run step s' es

/-- `Q` holds of every state of the run, the first one included. -/
def EachState (step : σ → ε → Option σ) (Q : σ → Prop) : σ → List ε → Prop
  | s, [] => Q s
  | s, e :: es => Q s ∧ ∀ s', step s e = some s' → EachState step Q s' es

/-- `P` holds of every step of the run: of the event and the state before
it. -/
def EachStep (step : σ → ε → Option σ) (P : σ → ε → Prop) : σ → List ε → Prop
  | _, [] => True
  | s, e :: es => ∀ s', step s e = some s' → P s e ∧ EachStep step P s' es

/-- `H` holds of every event of the run when its turn comes, and of the state
then, whether the event can happen or not. -/
def EachTurn (step : σ → ε → Option σ) (H : σ → ε → Prop) : σ → List ε → Prop
  | _, [] => True
  | s, e :: es => H s e ∧ ∀ s', step s e = some s' → EachTurn step H s' es

section Runs

variable {step : σ → ε → Option σ}

@[simp] theorem run_nil (s : σ) : run step s [] = some s := rfl

theorem run_cons (s : σ) (e : ε) (es : List ε) :
    run step s (e :: es) = (step s e).bind fun s' => run step s' es := rfl

theorem run_append (s : σ) (es fs : List ε) :
    run step s (es ++ fs) = (run step s es).bind fun s' => run step s' fs := by
  induction es generalizing s with
  | nil => simp
  | cons e es ih =>
      simp only [List.cons_append, run_cons, Option.bind_assoc]
      congr 1
      funext s'
      exact ih s'

end Runs

section Decidable

variable {step : σ → ε → Option σ}

instance decidableEachState {Q : σ → Prop} [DecidablePred Q] :
    ∀ s es, Decidable (EachState step Q s es)
  | s, [] => inferInstanceAs (Decidable (Q s))
  | s, e :: es =>
      match h : step s e with
      | none => decidable_of_iff (Q s) (by simp [EachState, h])
      | some t =>
          have := decidableEachState (Q := Q) t es
          decidable_of_iff (Q s ∧ EachState step Q t es)
            (by simp [EachState, h])

instance decidableEachStep {P : σ → ε → Prop} [∀ s e, Decidable (P s e)] :
    ∀ s es, Decidable (EachStep step P s es)
  | _, [] => isTrue trivial
  | s, e :: es =>
      match h : step s e with
      | none => isTrue (by simp [EachStep, h])
      | some t =>
          have := decidableEachStep (P := P) t es
          decidable_of_iff (P s e ∧ EachStep step P t es)
            (by simp [EachStep, h])

end Decidable

section EachState

variable {step : σ → ε → Option σ} {Q R : σ → Prop}

theorem EachState.here {s : σ} {es : List ε} (h : EachState step Q s es) :
    Q s := by
  cases es with
  | nil => exact h
  | cons e es => exact h.1

theorem EachState.mono (hQR : ∀ s, Q s → R s) {s : σ} {es : List ε}
    (h : EachState step Q s es) : EachState step R s es := by
  induction es generalizing s with
  | nil => exact hQR s h
  | cons e es ih =>
      exact ⟨hQR s h.1, fun s' hs' => ih (h.2 s' hs')⟩

/-- The states of a run are the states its prefixes lead to. -/
theorem eachState_iff_prefix {s : σ} {es : List ε} :
    EachState step Q s es ↔
      ∀ pre, pre <+: es → ∀ s', run step s pre = some s' → Q s' := by
  induction es generalizing s with
  | nil =>
      constructor
      · intro h pre hpre s' hrun
        rw [List.prefix_nil.mp hpre, run_nil, Option.some.injEq] at hrun
        exact hrun ▸ h
      · intro h
        exact h [] List.nil_prefix s rfl
  | cons e es ih =>
      constructor
      · rintro ⟨hs, hrest⟩ pre hpre s' hrun
        cases pre with
        | nil =>
            rw [run_nil, Option.some.injEq] at hrun
            exact hrun ▸ hs
        | cons f pre =>
            obtain ⟨rfl, htail⟩ := List.cons_prefix_cons.mp hpre
            rw [run_cons, Option.bind_eq_some_iff] at hrun
            obtain ⟨t, ht, hrun⟩ := hrun
            exact ih.mp (hrest t ht) pre htail s' hrun
      · intro h
        refine ⟨h [] List.nil_prefix s rfl, fun t ht => ih.mpr ?_⟩
        intro pre hpre s' hrun
        refine h (e :: pre) (List.cons_prefix_cons.mpr ⟨rfl, hpre⟩) s' ?_
        rw [run_cons, ht]
        exact hrun

theorem EachState.last {s s' : σ} {es : List ε} (h : EachState step Q s es)
    (hrun : run step s es = some s') : Q s' :=
  eachState_iff_prefix.mp h es (List.prefix_refl es) s' hrun

end EachState

section Rules

variable {step : σ → ε → Option σ} {I Q : σ → Prop} {A P : σ → ε → Prop}

theorem EachStep.and {s : σ} {es : List ε} (hA : EachStep step A s es)
    (hP : EachStep step P s es) :
    EachStep step (fun t e => A t e ∧ P t e) s es := by
  induction es generalizing s with
  | nil => trivial
  | cons e es ih =>
      intro s' hs'
      exact ⟨⟨(hA s' hs').1, (hP s' hs').1⟩, ih (hA s' hs').2 (hP s' hs').2⟩

theorem EachStep.of_forall_mem {es : List ε} (h : ∀ s, ∀ e ∈ es, P s e)
    (s : σ) : EachStep step P s es := by
  induction es generalizing s with
  | nil => trivial
  | cons e es ih =>
      exact fun s' _ => ⟨h s e List.mem_cons_self,
        ih (fun t f hf => h t f (List.mem_cons_of_mem e hf)) s'⟩

/-- An assumption that holds of every step holds of every step of every
run. -/
theorem EachStep.of_forall (h : ∀ s e, P s e) (s : σ) (es : List ε) :
    EachStep step P s es :=
  EachStep.of_forall_mem (fun s e _ => h s e) s

theorem EachStep.append {s : σ} {es fs : List ε} (hes : EachStep step P s es)
    (hfs : ∀ s', run step s es = some s' → EachStep step P s' fs) :
    EachStep step P s (es ++ fs) := by
  induction es generalizing s with
  | nil => exact hfs s rfl
  | cons e es ih =>
      intro t ht
      obtain ⟨hPe, hrest⟩ := hes t ht
      refine ⟨hPe, ih hrest fun s' hrun => hfs s' ?_⟩
      rw [run_cons, ht]
      exact hrun

/-- The invariant rule.  A property that holds at the start and is kept by
every step that meets `P` holds in all states of a run whose steps all meet
`P`. -/
theorem eachState_of_eachStep
    (hstep : ∀ s e s', I s → P s e → step s e = some s' → I s')
    {s : σ} {es : List ε} (hs : I s) (hP : EachStep step P s es) :
    EachState step I s es := by
  induction es generalizing s with
  | nil => exact hs
  | cons e es ih =>
      refine ⟨hs, fun s' hs' => ?_⟩
      obtain ⟨hPe, hrest⟩ := hP s' hs'
      exact ih (hstep s e s' hs hPe hs') hrest

/-- The converse direction.  When a step that fails `P` leads from the
invariant to a state without `Q`, a run through states with `Q` has no such
step. -/
theorem eachStep_of_eachState
    (hstep : ∀ s e s', I s → step s e = some s' → I s')
    (hbreak : ∀ s e s', I s → ¬ P s e → step s e = some s' → ¬ Q s')
    {s : σ} {es : List ε} (hs : I s) (hQ : EachState step Q s es) :
    EachStep step P s es := by
  induction es generalizing s with
  | nil => trivial
  | cons e es ih =>
      intro s' hs'
      have hrest := hQ.2 s' hs'
      refine ⟨?_, ih (hstep s e s' hs hs') hrest⟩
      by_contra hPe
      exact hbreak s e s' hs hPe hs' hrest.here

/-- The exact rule.  `I` is an invariant of the steps that meet `P` and
implies `Q`, and a step that fails `P` leads to a state without `Q`.  Then `Q`
holds throughout a run exactly when all its steps meet `P`.  The steps may be
assumed to meet `A`. -/
theorem eachState_iff_eachStep (hIQ : ∀ s, I s → Q s)
    (hkeep : ∀ s e s', I s → A s e → P s e → step s e = some s' → I s')
    (hbreak : ∀ s e s', I s → A s e → ¬ P s e → step s e = some s' → ¬ Q s')
    {s : σ} {es : List ε} (hs : I s) (hA : EachStep step A s es) :
    EachState step Q s es ↔ EachStep step P s es := by
  induction es generalizing s with
  | nil => exact ⟨fun _ => trivial, fun _ => hIQ s hs⟩
  | cons e es ih =>
      constructor
      · rintro ⟨-, hrest⟩ s' hs'
        obtain ⟨hAe, hA'⟩ := hA s' hs'
        by_cases hPe : P s e
        · have hI' : I s' := hkeep s e s' hs hAe hPe hs'
          exact ⟨hPe, (ih hI' hA').mp (hrest s' hs')⟩
        · exact absurd (hrest s' hs').here (hbreak s e s' hs hAe hPe hs')
      · intro hP
        refine ⟨hIQ s hs, fun s' hs' => ?_⟩
        obtain ⟨hPe, hrest⟩ := hP s' hs'
        obtain ⟨hAe, hA'⟩ := hA s' hs'
        exact (ih (hkeep s e s' hs hAe hPe hs') hA').mpr hrest

/-- Events for which `H` makes the step possible all happen. -/
theorem EachTurn.exists_run {H : σ → ε → Prop}
    (hstep : ∀ s e, H s e → ∃ s', step s e = some s') {s : σ} {es : List ε}
    (h : EachTurn step H s es) : ∃ s', run step s es = some s' := by
  induction es generalizing s with
  | nil => exact ⟨s, rfl⟩
  | cons e es ih =>
      obtain ⟨hHe, hrest⟩ := h
      obtain ⟨s', hs'⟩ := hstep s e hHe
      rw [run_cons, hs']
      exact ih (hrest s' hs')

/-- Properties of the events that agree whenever the invariant holds. -/
theorem eachTurn_congr {H G : σ → ε → Prop}
    (hiff : ∀ s e, I s → (H s e ↔ G s e))
    (hstep : ∀ s e s', I s → step s e = some s' → I s')
    {s : σ} {es : List ε} (hs : I s) :
    EachTurn step H s es ↔ EachTurn step G s es := by
  induction es generalizing s with
  | nil => exact Iff.rfl
  | cons e es ih =>
      refine and_congr (hiff s e hs) (forall_congr' fun s' => ?_)
      exact forall_congr' fun hs' => ih (hstep s e s' hs hs')

/-- When `H` depends on the event only, and the events of which it holds can
happen and keep the invariant, no event fails it exactly when all events are
such.  The events may be assumed to meet `B`. -/
theorem eachTurn_iff_forall {H : σ → ε → Prop} {B G : ε → Prop}
    (hiff : ∀ s e, I s → B e → (H s e ↔ G e))
    (hstep : ∀ s e, I s → B e → G e → ∃ s', step s e = some s' ∧ I s')
    {s : σ} {es : List ε} (hs : I s) (hB : ∀ e ∈ es, B e) :
    EachTurn step H s es ↔ ∀ e ∈ es, G e := by
  induction es generalizing s with
  | nil => exact ⟨fun _ _ h => absurd h List.not_mem_nil, fun _ => trivial⟩
  | cons e es ih =>
      obtain ⟨hBe, hB'⟩ := List.forall_mem_cons.mp hB
      rw [List.forall_mem_cons]
      constructor
      · rintro ⟨hHe, hrest⟩
        have hGe := (hiff s e hs hBe).mp hHe
        obtain ⟨s', hs', hI⟩ := hstep s e hs hBe hGe
        exact ⟨hGe, (ih hI hB').mp (hrest s' hs')⟩
      · rintro ⟨hGe, hall⟩
        obtain ⟨s', hs', hI⟩ := hstep s e hs hBe hGe
        refine ⟨(hiff s e hs hBe).mpr hGe, fun t ht => ?_⟩
        obtain rfl := Option.some.inj (hs'.symm.trans ht)
        exact (ih hI hB').mpr hall

end Rules

end EventSystem
