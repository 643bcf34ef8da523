import Mathlib.Data.List.Basic

/-!
# Runs of a Labelled System

A system is a partial function `step : L → S → Option S`: a label names who
moves and with what arguments, and `none` says that the move is not open in
that state. Everything nondeterministic sits in the choice of labels, so one
definition serves both the proofs, which quantify over all runs, and the
concrete schedules, which the kernel evaluates.

A run keeps its history: every state it left together with the label taken
there, the most recent first. The order is the one the properties recurse in.
"Since the last reset" or "after its own test" are questions about the near
end of a run, and with the near end at the head of the list they are plain
structural recursions.

`EveryStep` and `EveryState` quantify along one run, so that a law about a
run can be compared with a condition on the steps of that same run.

## Main definitions

* `History`: The states left and the labels taken, most recent first.
* `Run`: A system gets from its initial state to a state along a history.
* `EveryStep`: A condition on every step of a run, with the history before it.
* `EveryState`: A condition on every state a run passes through.
* `EveryPoint`: The same, with the history up to the state.
* `exec`: Executing a list of labels, history included.

## Theorems

* `Run.invariant`: What holds initially and is kept by steps holds of runs.
* `Run.historyInvariant`: The same for a relation with the history.
* `Run.everyState_iff`: Two laws on the states of the same run.
* `Run.everyState_iff_last`: A law that no step mends.
* `Run.init_of_everyState`: The state a run starts in is one of its states.
* `Run.everyState_iff_everyStep_of_before`, `Run.everyState_iff_everyStep`: A
  law on the states of a run and a condition on its steps.
* `Run.everyPoint_iff_everyStep`: The same for a law that looks at the history.
* `Run.everyStep_iff_of_before`, `Run.everyStep_iff`: Two conditions on the
  steps of the same run.
* `Run.everyStep_of`: A condition that every step of a run meets.
* `Run.invariantUnder`: An invariant of the runs that meet a condition.
* `Run.everyState_iff_under`, `Run.everyStep_iff_under`: The same two rules
  with an invariant of the runs that meet the condition.
* `Run.everyPoint_iff_under`: The same for a law that looks at the history.
* `Run.append`: Two runs, one after the other.
* `Run.simulate`: A run of one system seen as a run of another.
* `Run.expand`: A run whose steps are runs of another system.
* `exists_run_of_exec`: A schedule that evaluates gives a run.
-/

namespace KernelModules

namespace Lib

variable {S L : Type*}

/-- The states a run has left, each with the label taken there, the most
    recent first. -/
abbrev History (S L : Type*) := List (S × L)

/-- The system gets from `init` to the last state along the history. -/
inductive Run (step : L → S → Option S) (init : S) : History S L → S → Prop
  | start : Run step init [] init
  | next {h : History S L} {s s' : S} (l : L) :
      Run step init h s → step l s = some s' → Run step init ((s, l) :: h) s'

/-- Every step of a run meets the condition `C`, which may look at the history
    before the step, the state it is taken in and its label. -/
def EveryStep (C : History S L → S → L → Prop) : History S L → Prop
  | [] => True
  | (s, l) :: h => C h s l ∧ EveryStep C h

/-- Every state of a run, the last one included, meets `P`. -/
def EveryState (P : S → Prop) (h : History S L) (s : S) : Prop :=
  P s ∧ ∀ p ∈ h, P p.1

/-- Every state of a run meets `P`, which may look at the history up to it. -/
def EveryPoint (P : History S L → S → Prop) : History S L → S → Prop
  | [], s => P [] s
  | (t, l) :: h, s => P ((t, l) :: h) s ∧ EveryPoint P h t

instance (P : S → Prop) [DecidablePred P] (h : History S L) (s : S) :
    Decidable (EveryState P h s) :=
  inferInstanceAs (Decidable (P s ∧ ∀ p ∈ h, P p.1))

instance decidableEveryStep (C : History S L → S → L → Prop) [∀ h s l, Decidable (C h s l)] :
    (h : History S L) → Decidable (EveryStep C h)
  | [] => .isTrue trivial
  | (s, l) :: h => @instDecidableAnd _ _ (inferInstanceAs (Decidable (C h s l)))
      (decidableEveryStep C h)

/-- Execute the labels in order, or `none` where a label is not open. -/
def exec (step : L → S → Option S) : List L → History S L × S → Option (History S L × S)
  | [], r => some r
  | l :: ls, (h, s) => match step l s with
    | none => none
    | some s' => exec step ls ((s, l) :: h, s')

@[simp] theorem everyStep_nil (C : History S L → S → L → Prop) : EveryStep C [] := trivial

@[simp] theorem everyStep_cons (C : History S L → S → L → Prop) (h : History S L) (s : S) (l : L) :
    EveryStep C ((s, l) :: h) ↔ C h s l ∧ EveryStep C h := Iff.rfl

@[simp] theorem everyState_nil (P : S → Prop) (s : S) :
    EveryState P ([] : History S L) s ↔ P s := by
  simp only [EveryState, List.not_mem_nil, false_implies, implies_true, and_true]

/-- The last point is one of them. -/
theorem EveryPoint.last {P : History S L → S → Prop} {h : History S L} {s : S}
    (hall : EveryPoint P h s) : P h s := by
  cases h with
  | nil => exact hall
  | cons p h => exact hall.1

theorem everyState_cons (P : S → Prop) (h : History S L) (s s' : S) (l : L) :
    EveryState P ((s, l) :: h) s' ↔ P s' ∧ EveryState P h s := by
  simp only [EveryState, List.mem_cons, forall_eq_or_imp]

theorem everyStep_and (C D : History S L → S → L → Prop) (h : History S L) :
    EveryStep (fun h s l => C h s l ∧ D h s l) h ↔ EveryStep C h ∧ EveryStep D h := by
  induction h with
  | nil => simp only [everyStep_nil, and_self]
  | cons p h ih =>
      rcases p with ⟨s, l⟩
      simp only [everyStep_cons, ih]
      exact and_and_and_comm

theorem everyState_and (P Q : S → Prop) (h : History S L) (s : S) :
    EveryState (fun s => P s ∧ Q s) h s ↔ EveryState P h s ∧ EveryState Q h s := by
  simp only [EveryState, forall_and]
  exact and_and_and_comm

namespace Run

variable {step : L → S → Option S} {init : S} {h : History S L} {s s' : S} {l : L}

/-- What holds initially and is kept by every step holds at the end of every
    run. -/
theorem invariant (I : S → Prop) (hinit : I init)
    (hstep : ∀ s l s', I s → step l s = some s' → I s') (hr : Run step init h s) : I s := by
  induction hr with
  | start => exact hinit
  | next l _ hs ih => exact hstep _ l _ ih hs

/-- The same for a relation between the history and the state. The step case
    is handed the run so far, so that invariants already proved can be used. -/
theorem historyInvariant (I : History S L → S → Prop) (hinit : I [] init)
    (hstep : ∀ h s l s', Run step init h s → I h s → step l s = some s' → I ((s, l) :: h) s')
    (hr : Run step init h s) : I h s := by
  induction hr with
  | start => exact hinit
  | next l hr hs ih => exact hstep _ _ l _ hr ih hs

/-- A law on the states of a run is a condition on its states, when the two
    agree at the end of every run. -/
theorem everyState_iff {P Q : S → Prop} (hPQ : ∀ h s, Run step init h s → (P s ↔ Q s))
    (hr : Run step init h s) : EveryState P h s ↔ EveryState Q h s := by
  induction hr with
  | start => simp only [everyState_nil, hPQ _ _ .start]
  | next l hr hs ih => rw [everyState_cons, everyState_cons, hPQ _ _ (.next l hr hs), ih]

/-- A law that no step mends holds in every state of a run if it does in the
    last one. -/
theorem everyState_iff_last {P : S → Prop} (hback : ∀ s l s', step l s = some s' → P s' → P s)
    (hr : Run step init h s) : EveryState P h s ↔ P s := by
  induction hr with
  | start => exact everyState_nil P init
  | next l _ hs ih =>
      rw [everyState_cons, ih]
      exact and_iff_left_of_imp (hback _ l _ hs)

/-- A law on every state of a run is one on the state it starts in. -/
theorem init_of_everyState {P : S → Prop} (hr : Run step init h s) (hP : EveryState P h s) :
    P init := by
  induction hr with
  | start => exact hP.1
  | next l _ _ ih =>
      rw [everyState_cons] at hP
      exact ih hP.2

/-- A law on the states of a run is a condition on its steps, when the law
    holds initially and a step leads to a state that meets it exactly under
    the condition, provided the law and the condition have held so far. -/
theorem everyState_iff_everyStep_of_before {P : S → Prop} {C : History S L → S → L → Prop}
    (hinit : P init)
    (hPC : ∀ h s l s', Run step init h s → EveryStep C h → P s → step l s = some s' →
      (P s' ↔ C h s l))
    (hr : Run step init h s) : EveryState P h s ↔ EveryStep C h := by
  induction hr with
  | start => simp only [everyState_nil, everyStep_nil, hinit]
  | next l hr hs ih =>
      rw [everyState_cons, everyStep_cons, ← ih]
      exact and_congr_left fun hbefore => hPC _ _ l _ hr (ih.mp hbefore) hbefore.1 hs

/-- The same for a step from any state of a run that meets the law. -/
theorem everyState_iff_everyStep {P : S → Prop} {C : History S L → S → L → Prop} (hinit : P init)
    (hPC : ∀ h s l s', Run step init h s → P s → step l s = some s' → (P s' ↔ C h s l))
    (hr : Run step init h s) : EveryState P h s ↔ EveryStep C h :=
  hr.everyState_iff_everyStep_of_before hinit
    fun h s l s' hr _ hbefore hs => hPC h s l s' hr hbefore hs

/-- The same for a law that looks at the history. -/
theorem everyPoint_iff_everyStep {P : History S L → S → Prop} {C : History S L → S → L → Prop}
    (hinit : P [] init)
    (hPC : ∀ h s l s', Run step init h s → P h s → step l s = some s' →
      (P ((s, l) :: h) s' ↔ C h s l))
    (hr : Run step init h s) : EveryPoint P h s ↔ EveryStep C h := by
  induction hr with
  | start => exact iff_of_true hinit trivial
  | next l hr hs ih =>
      rw [EveryPoint, everyStep_cons, ← ih]
      refine and_congr_left fun hbefore => hPC _ _ l _ hr ?_ hs
      exact hbefore.last

/-- Two conditions on the steps of a run stand or fall together when they
    agree at every step before which the first one has held. -/
theorem everyStep_iff_of_before {C D : History S L → S → L → Prop}
    (hCD : ∀ h s l s', Run step init h s → EveryStep C h → step l s = some s' →
      (C h s l ↔ D h s l))
    (hr : Run step init h s) : EveryStep C h ↔ EveryStep D h := by
  induction hr with
  | start => exact Iff.rfl
  | next l hr hs ih =>
      rw [everyStep_cons, everyStep_cons, ← ih]
      exact and_congr_left fun hbefore => hCD _ _ l _ hr hbefore hs

/-- A condition on the steps of a run may be replaced by one that agrees with
    it at every step a run can take. -/
theorem everyStep_iff {C D : History S L → S → L → Prop}
    (hCD : ∀ h s l s', Run step init h s → step l s = some s' → (C h s l ↔ D h s l))
    (hr : Run step init h s) : EveryStep C h ↔ EveryStep D h :=
  hr.everyStep_iff_of_before fun h s l s' hr _ hs => hCD h s l s' hr hs

/-- A condition that every step meets at the end of every run. -/
theorem everyStep_of {C : History S L → S → L → Prop}
    (hC : ∀ h s l s', Run step init h s → step l s = some s' → C h s l)
    (hr : Run step init h s) : EveryStep C h := by
  induction hr with
  | start => exact everyStep_nil C
  | next l hr hs ih => exact ⟨hC _ _ l _ hr hs, ih⟩

/-- What holds initially and is kept by the steps that meet a condition holds
    of the runs all of whose steps meet it. -/
theorem invariantUnder {C : History S L → S → L → Prop} (I : History S L → S → Prop)
    (hinit : I [] init)
    (hstep : ∀ h s l s', Run step init h s → C h s l → I h s → step l s = some s' →
      I ((s, l) :: h) s')
    (hr : Run step init h s) (hC : EveryStep C h) : I h s := by
  induction hr with
  | start => exact hinit
  | next l hr hs ih => exact hstep _ _ l _ hr hC.1 (ih hC.2) hs

/-- A law on the states of a run is a condition on its steps, when from the
    states of an invariant a step keeps the law exactly under the condition,
    and under it keeps the invariant too. -/
theorem everyState_iff_under {P : S → Prop} {C : History S L → S → L → Prop}
    (I : History S L → S → Prop) (hinit : I [] init) (hP : P init)
    (hstep : ∀ h s l s', Run step init h s → I h s → step l s = some s' →
      (P s → (P s' ↔ C h s l)) ∧ (C h s l → I ((s, l) :: h) s'))
    (hr : Run step init h s) : EveryState P h s ↔ EveryStep C h := by
  refine hr.everyState_iff_everyStep_of_before hP ?_
  intro h s l s' hr hbefore hs hnext
  have hI : I h s := by
    refine hr.invariantUnder I hinit ?_ hbefore
    intro h s l s' hr hC hI hnext
    exact (hstep h s l s' hr hI hnext).2 hC
  exact (hstep h s l s' hr hI hnext).1 hs

/-- The same for two conditions on the steps of a run. -/
theorem everyStep_iff_under {C D : History S L → S → L → Prop} (I : History S L → S → Prop)
    (hinit : I [] init)
    (hstep : ∀ h s l s', Run step init h s → I h s → step l s = some s' →
      (C h s l ↔ D h s l) ∧ (C h s l → I ((s, l) :: h) s'))
    (hr : Run step init h s) : EveryStep C h ↔ EveryStep D h := by
  refine hr.everyStep_iff_of_before ?_
  intro h s l s' hr hbefore hnext
  have hI : I h s := by
    refine hr.invariantUnder I hinit ?_ hbefore
    intro h s l s' hr hC hI hnext
    exact (hstep h s l s' hr hI hnext).2 hC
  exact (hstep h s l s' hr hI hnext).1

/-- The same for a law that looks at the history, and that the invariant has
    for a consequence: a step keeps the invariant under the condition, and the
    law, where it still holds, tells the condition. -/
theorem everyPoint_iff_under {P : History S L → S → Prop} {C : History S L → S → L → Prop}
    (I : History S L → S → Prop) (hinit : I [] init) (hIP : ∀ h s, I h s → P h s)
    (hstep : ∀ h s l s', Run step init h s → I h s → step l s = some s' →
      (C h s l → I ((s, l) :: h) s') ∧ (P ((s, l) :: h) s' → C h s l))
    (hr : Run step init h s) : EveryPoint P h s ↔ EveryStep C h := by
  induction hr with
  | start => exact iff_of_true (hIP [] _ hinit) trivial
  | next l hr hs ih =>
      have hinv : EveryStep C _ → I _ _ := fun hC => hr.invariantUnder I hinit
        (fun h s l s' hr hC hI hnext => (hstep h s l s' hr hI hnext).1 hC) hC
      rw [EveryPoint, everyStep_cons, ih]
      refine and_congr_left fun hbefore => ?_
      rcases hstep _ _ l _ hr (hinv hbefore) hs with ⟨hkeep, htell⟩
      exact ⟨htell, fun hC => hIP _ _ (hkeep hC)⟩

/-- A run goes on where another one ended. -/
theorem append {h' : History S L} (hr : Run step init h s) (hr' : Run step s h' s') :
    Run step init (h' ++ h) s' := by
  induction hr' with
  | start => exact hr
  | next l _ hs ih => exact .next l ih hs

/-- A run of one system seen as a run of another. A step emits an event of the
    other system or none; `f` maps the states, and takes a silent step to no
    step and any other to the step its event names. The runs emit the same
    events. -/
theorem simulate {S' L' : Type*} {step' : L' → S' → Option S'} (f : S → S')
    (ev : S × L → Option L')
    (hstep : ∀ h s l s', Run step init h s → step l s = some s' →
      (ev (s, l) = none ∧ f s' = f s) ∨ ∃ l', ev (s, l) = some l' ∧ step' l' (f s) = some (f s'))
    (hr : Run step init h s) :
    ∃ h', Run step' (f init) h' (f s) ∧ h'.map Prod.snd = h.filterMap ev := by
  -- The image grows by one step for every step with an event and by none
  -- otherwise, so its labels are the events of the history in order.
  induction hr with
  | start => exact ⟨[], .start, rfl⟩
  | next l hr hs ih =>
      rcases ih with ⟨h', hr', hev⟩
      rcases hstep _ _ l _ hr hs with ⟨hnone, heq⟩ | ⟨l', hsome, hl'⟩
      · exact ⟨h', by rw [heq]; exact hr', by rw [List.filterMap_cons_none hnone, hev]⟩
      · exact ⟨_, .next l' hr' hl', by rw [List.map_cons, List.filterMap_cons_some hsome, hev]⟩

/-- The other way round: a run that meets a condition, each of its steps spelled
    out as a run of another system. A step emits a list of events and a step of
    the other system one or none, and the runs emit the same. -/
theorem expand {S' L' E : Type*} {step' : L' → S' → Option S'} {C : History S L → S → L → Prop}
    (f : S → S') (ev : S × L → List E) (ev' : S' × L' → Option E)
    (hstep : ∀ h s l s', Run step init h s → C h s l → step l s = some s' →
      ∃ h', Run step' (f s) h' (f s') ∧ h'.filterMap ev' = ev (s, l))
    (hr : Run step init h s) (hC : EveryStep C h) :
    ∃ h', Run step' (f init) h' (f s) ∧ h'.filterMap ev' = h.flatMap ev := by
  induction hr with
  | start => exact ⟨[], .start, rfl⟩
  | next l hr hs ih =>
      rcases ih hC.2 with ⟨h₁, hr₁, hev₁⟩
      rcases hstep _ _ l _ hr hC.1 hs with ⟨h₂, hr₂, hev₂⟩
      refine ⟨h₂ ++ h₁, hr₁.append hr₂, ?_⟩
      rw [List.filterMap_append, hev₁, hev₂, List.flatMap_cons]

end Run

/-- Executing labels from the end of a run extends the run. -/
theorem run_of_exec {step : L → S → Option S} {init : S} :
    ∀ (ls : List L) (h : History S L) (s : S) (h' : History S L) (s' : S),
      Run step init h s → exec step ls (h, s) = some (h', s') → Run step init h' s' := by
  intro ls
  -- The labels are taken from the front while the history grows, so the run so
  -- far has to stay general.
  induction ls with
  | nil =>
      intro h s h' s' hr he
      simp only [exec, Option.some.injEq, Prod.mk.injEq] at he
      rcases he with ⟨rfl, rfl⟩
      exact hr
  | cons l ls ih =>
      intro h s h' s' hr he
      simp only [exec] at he
      cases hs : step l s with
      | none =>
          rw [hs] at he
          simp only [reduceCtorEq] at he
      | some t =>
          rw [hs] at he
          exact ih _ t _ _ (.next l hr hs) he

/-- A schedule that evaluates to a state passing the test `p` gives a run
    ending in such a state. -/
theorem exists_run_of_exec (step : L → S → Option S) (init : S) (ls : List L)
    (p : History S L → S → Bool) (he : (exec step ls ([], init)).any (fun r => p r.1 r.2) = true) :
    ∃ h s, Run step init h s ∧ p h s = true := by
  cases hx : exec step ls ([], init) with
  | none =>
      rw [hx] at he
      simp only [Option.any_none, Bool.false_eq_true] at he
  | some r =>
      rw [hx] at he
      exact ⟨r.1, r.2, run_of_exec ls _ _ _ _ .start hx, he⟩

end Lib

end KernelModules
