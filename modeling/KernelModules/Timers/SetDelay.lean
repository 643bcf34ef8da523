import KernelModules.Lib.Run
import KernelModules.Timers.Callback

/-!
# Callers of SET_DELAY

`hello_ioctl(SET_DELAY)` of `helloplus.c`, statement by statement, for any
number of callers against the timer and its callback. A caller copies the new
delay into `secs2hello`, deletes the timer with `del_timer_sync`, which waits
for the callback, sets the timer up and adds it. The statement that sets the
expiry loads the jiffies and the delay and stores their sum, all in one step.

Alone a caller is safe: after `del_timer_sync` the timer is neither pending
nor on its way to be, and stays so until somebody adds it. But two callers may
delete first and add afterwards, and then the second adds a timer that is
pending, or that the callback is about to add. What keeps the timer safe is a
deletion between any two additions by callers, the first addition being the
one of the module's init.

## Main definitions

* `Pc`, `Caller`, `Sys`, `Step`, `step`: Callers against the callback.
* `SingleAdd`: No `add_timer` has found the timer pending, and the one of a
  running callback will not.
* `Deleted`: Since the last addition by a caller the timer was deleted.
* `AddsDeleted`: The condition on the additions.

## Theorems

* `run_phase`: The timer is gone exactly when it was deleted since.
* `addTimer_under_callback`, `singleAdd_of_step`: An addition under a callback
  ends in the `BUG_ON`.
* `run_singleAdd_iff`: When no `add_timer` finds the timer pending.
* `run_double_add`: Two callers that do.
-/

namespace KernelModules

namespace Timers

namespace SetDelay

open Kernel Lib

/-- The statements of `hello_ioctl(SET_DELAY)`. `returned` is back in the
    VFS, with the value. -/
inductive Pc where
  | argTest
  | copy
  | delTimerSync
  | setFunction
  | setExpires
  | addTimer
  | returned (v : Int)
  deriving DecidableEq

/-- A caller, with the pointer it passed, or `none` for NULL. -/
structure Caller where
  pc : Pc
  arg : Option UserMem

/-- The timer, the delay and the callers. -/
structure Sys (ι : Type*) where
  core : Core
  secs2hello : BitVec 64
  callers : ι → Option Caller

/-- The module loaded, with its timer armed. -/
def Sys.loaded {ι : Type*} (jiffies initialSecs : BitVec 64) : Sys ι :=
  { core := Core.armed jiffies initialSecs, secs2hello := initialSecs, callers := fun _ => none }

inductive Step (ι : Type*) where
  | tick
  | expire
  | callback
  | call (t : ι) (arg : Option UserMem)
  | run (t : ι)

variable {ι : Type*} [DecidableEq ι]

def Sys.goto (s : Sys ι) (t : ι) (c : Caller) (pc : Pc) : Sys ι :=
  { s with callers := Function.update s.callers t (some { c with pc := pc }) }

/-- One statement of a caller. -/
def stmt (t : ι) (c : Caller) (s : Sys ι) : Option (Sys ι) :=
  match c.pc with
  | .argTest => some (s.goto t c (if c.arg.isNone then .returned (-EINVAL) else .copy))
  | .copy =>
    -- On a fault `secs2hello` is left with what was copied so far, and zeros.
    let r := copyFromUser (c.arg.getD fun _ => none) 8
    some { s.goto t c (if r.1 ≠ 0 then .returned (-EFAULT) else .delTimerSync) with
      secs2hello := toLong r.2 }
  | .delTimerSync =>
    (delTimerSync s.core).map fun core => { s.goto t c .setFunction with core := core }
  -- The function and its argument are the ones the timer has had from the start.
  | .setFunction => some (s.goto t c .setExpires)
  | .setExpires =>
    some { s.goto t c .addTimer with
      core := { s.core with
        timer := { s.core.timer with expires := s.core.jiffies + s.secs2hello } } }
  | .addTimer => some { s.goto t c (.returned 0) with core := addTimer s.core }
  | .returned _ => some { s with callers := Function.update s.callers t none }

/-- Nothing runs any more once a `BUG_ON` was hit. -/
def step : Step ι → Sys ι → Option (Sys ι)
  | l, s =>
    if s.core.bug then none
    else
      match l with
      | .tick => some { s with core := tick s.core }
      | .expire => (expire s.core).map fun core => { s with core := core }
      | .callback => (myTimerFunc s.secs2hello s.core).map fun core => { s with core := core }
      | .call t arg =>
        if (s.callers t).isSome then none
        else
          some { s with
            callers := Function.update s.callers t (some { pc := .argTest, arg := arg }) }
      | .run t => (s.callers t).bind fun c => stmt t c s

omit [DecidableEq ι] in
/-- No `add_timer` has found the timer pending, and the one that a running
    callback has still to execute will not. -/
structure SingleAdd (s : Sys ι) : Prop where
  now : s.core.bug = false
  next : s.core.Rearming → s.core.timer.pending = false

omit [DecidableEq ι] in
instance (s : Sys ι) : Decidable (SingleAdd s) :=
  decidable_of_iff (s.core.bug = false ∧ (s.core.Rearming → s.core.timer.pending = false))
    ⟨fun h => ⟨h.1, h.2⟩, fun h => ⟨h.now, h.next⟩⟩

/-- The timer was deleted since a caller last added it. The addition of the
    module's init stands at the start of every run. -/
def Deleted : History (Sys ι) (Step ι) → Prop
  | [] => False
  | (s, .run t) :: h =>
    match (s.callers t).map Caller.pc with
    | some .delTimerSync => True
    | some .addTimer => False
    | _ => Deleted h
  | (_, .tick) :: h | (_, .expire) :: h | (_, .callback) :: h | (_, .call _ _) :: h => Deleted h

/-- If the step is the addition of a caller, the timer was deleted since the
    last one. -/
def AddsDeleted (h : History (Sys ι) (Step ι)) (s : Sys ι) : Step ι → Prop
  | .run t => (s.callers t).map Caller.pc = some .addTimer → Deleted h
  | .tick | .expire | .callback | .call _ _ => True

/-- Since it was deleted the timer is gone; before, it is active. -/
def Phase (h : History (Sys ι) (Step ι)) (s : Sys ι) : Prop :=
  (Deleted h ∧ s.core.Gone) ∨ (¬ Deleted h ∧ s.core.Active)

variable {t : ι} {c : Caller} {s s' : Sys ι} {h : History (Sys ι) (Step ι)} {l : Step ι}
  {j secs : BitVec 64}

/-- A statement of a caller deletes the timer, adds it, or leaves it and the
    callback as they are. -/
theorem stmt_core (h : stmt t c s = some s') :
    (c.pc = .delTimerSync ∧ s.core.callback = .idle ∧ s'.core = delTimer s.core) ∨
      (c.pc = .addTimer ∧ s'.core = addTimer s.core) ∨
      (c.pc ≠ .delTimerSync ∧ c.pc ≠ .addTimer ∧
        s'.core.timer.pending = s.core.timer.pending ∧ s'.core.callback = s.core.callback ∧
        s'.core.bug = s.core.bug) := by
  cases hpc : c.pc with
  | delTimerSync =>
      simp only [stmt, hpc, Option.map_eq_some_iff, delTimerSync, Option.ite_none_right_eq_some,
        Option.some.injEq] at h
      rcases h with ⟨core, ⟨hidle, rfl⟩, rfl⟩
      exact Or.inl ⟨rfl, hidle, rfl⟩
  | addTimer =>
      simp only [stmt, hpc, Option.some.injEq] at h
      rw [← h]
      exact Or.inr (Or.inl ⟨rfl, rfl⟩)
  | _ =>
      simp only [stmt, hpc, Option.some.injEq] at h
      rw [← h]
      refine Or.inr (Or.inr ⟨?_, ?_, rfl, rfl, rfl⟩)
      · simp only [ne_eq, reduceCtorEq, not_false_eq_true]
      · simp only [ne_eq, reduceCtorEq, not_false_eq_true]

/-- A step of a caller is a statement of its call. -/
theorem step_run (hstep : step (.run t) s = some s') :
    ∃ c, s.callers t = some c ∧ stmt t c s = some s' := by
  simp only [step, Option.ite_none_left_eq_some, Option.bind_eq_some_iff] at hstep
  exact hstep.2

theorem step_tick (hstep : step .tick s = some s') : s' = { s with core := tick s.core } := by
  simp only [step, Option.ite_none_left_eq_some, Option.some.injEq] at hstep
  exact hstep.2.symm

theorem step_call {arg : Option UserMem} (hstep : step (.call t arg) s = some s') :
    s' = { s with
      callers := Function.update s.callers t (some { pc := .argTest, arg := arg }) } := by
  simp only [step, Option.ite_none_left_eq_some, Option.some.injEq] at hstep
  exact hstep.2.2.symm

theorem step_expire (hstep : step .expire s = some s') :
    ∃ core, expire s.core = some core ∧ s' = { s with core := core } := by
  simp only [step, Option.ite_none_left_eq_some, Option.map_eq_some_iff] at hstep
  rcases hstep with ⟨-, core, hcore, rfl⟩
  exact ⟨core, hcore, rfl⟩

theorem step_callback (hstep : step .callback s = some s') :
    ∃ core, myTimerFunc s.secs2hello s.core = some core ∧ s' = { s with core := core } := by
  simp only [step, Option.ite_none_left_eq_some, Option.map_eq_some_iff] at hstep
  rcases hstep with ⟨-, core, hcore, rfl⟩
  exact ⟨core, hcore, rfl⟩

omit [DecidableEq ι] in
/-- What the history says after a statement of a caller. -/
theorem deleted_run (hc : s.callers t = some c) :
    Deleted ((s, .run t) :: h) ↔
      c.pc = .delTimerSync ∨ (c.pc ≠ .addTimer ∧ Deleted h) := by
  rw [Deleted, hc, Option.map_some]
  cases hpc : c.pc with
  | delTimerSync => exact iff_of_true trivial (Or.inl rfl)
  | addTimer =>
      simp only [reduceCtorEq, ne_eq, not_true_eq_false, false_and, or_self]
  | _ => simp only [reduceCtorEq, ne_eq, not_false_eq_true, true_and, false_or]

omit [DecidableEq ι] in
/-- A core that agrees on the timer's queue and the callback is as active and
    as gone. -/
theorem phase_congr {c c' : Core} (hp : c'.timer.pending = c.timer.pending)
    (hcb : c'.callback = c.callback) :
    (c'.Active ↔ c.Active) ∧ (c'.Gone ↔ c.Gone) ∧ (c'.Rearming ↔ c.Rearming) := by
  unfold Core.Active Core.Gone Core.Rearming
  rw [hp, hcb]
  exact ⟨Iff.rfl, Iff.rfl, Iff.rfl⟩

/-- A statement of a caller keeps the phase. -/
theorem run_step_phase (hI : Phase h s) (hstep : step (.run t) s = some s') :
    Phase ((s, .run t) :: h) s' := by
  rcases step_run hstep with ⟨c, hc, hstmt⟩
  unfold Phase
  rw [deleted_run hc]
  rcases stmt_core hstmt with ⟨hpc, hidle, hcore⟩ | ⟨hpc, hcore⟩ | ⟨hdel, hadd, hp, hcb, -⟩
  · -- `del_timer_sync` found the callback idle and dequeued the timer.
    refine Or.inl ⟨Or.inl hpc, ?_⟩
    rw [hcore]
    exact ⟨rfl, hidle⟩
  · -- Whoever adds the timer, it is active from here on.
    refine Or.inr ⟨?_, Or.inl ?_⟩
    · simp only [hpc, reduceCtorEq, ne_eq, not_true_eq_false, false_and, or_self,
        not_false_eq_true]
    · rw [hcore]
      exact addTimer_pending s.core
  · rcases phase_congr hp hcb with ⟨hactive, hgone, -⟩
    simp only [hdel, hadd, false_or, ne_eq, not_false_eq_true, true_and, hactive, hgone]
    exact hI

/-- Every step keeps the phase. -/
theorem step_phase (hI : Phase h s) (hstep : step l s = some s') : Phase ((s, l) :: h) s' := by
  cases l with
  | run t => exact run_step_phase hI hstep
  | tick =>
      rw [step_tick hstep]
      exact hI
  | call t arg =>
      rw [step_call hstep]
      exact hI
  | expire =>
      rcases step_expire hstep with ⟨core, hcore, rfl⟩
      -- A timer that expires was pending, so it was not deleted.
      rcases hI with ⟨hdel, hgone⟩ | ⟨hdel, hactive⟩
      · rw [expire_gone hgone] at hcore
        simp only [reduceCtorEq] at hcore
      · exact Or.inr ⟨hdel, expire_active hcore⟩
  | callback =>
      rcases step_callback hstep with ⟨core, hcore, rfl⟩
      rcases hI with ⟨hdel, hgone⟩ | ⟨hdel, hactive⟩
      · rw [myTimerFunc_gone hgone] at hcore
        simp only [reduceCtorEq] at hcore
      · exact Or.inr ⟨hdel, (myTimerFunc_active hcore).mpr hactive⟩

theorem run_phase (hr : Run step (Sys.loaded j secs : Sys ι) h s) : Phase h s :=
  hr.historyInvariant Phase (Or.inr ⟨id, Or.inl rfl⟩)
    (fun _ _ _ _ _ hI hstep => step_phase hI hstep)

/-- A caller may add the timer exactly when it was deleted since. -/
theorem run_step_singleAdd_iff (hI : Phase h s) (hbefore : SingleAdd s)
    (hstep : step (.run t) s = some s') : SingleAdd s' ↔ AddsDeleted h s (.run t) := by
  rcases step_run hstep with ⟨c, hc, hstmt⟩
  rw [AddsDeleted, hc, Option.map_some, Option.some.injEq]
  rcases stmt_core hstmt with ⟨hpc, hidle, hcore⟩ | ⟨hpc, hcore⟩ | ⟨hdel, hadd, hp, hcb, hbug⟩
  · refine iff_of_true ⟨?_, ?_⟩ ?_
    · rw [hcore]
      exact hbefore.now
    · intro _
      rw [hcore]
      rfl
    · intro hadd
      rw [hpc] at hadd
      exact Pc.noConfusion hadd
  · constructor
    · -- The addition found the timer neither pending nor under a callback.
      intro hafter _
      rcases hI with ⟨hdel, -⟩ | ⟨-, hactive⟩
      · exact hdel
      · exfalso
        rcases hactive with hp | hre
        · have hnow := hafter.now
          rw [hcore, addTimer_bug, hp, Bool.true_or] at hnow
          exact Bool.noConfusion hnow
        · have hnext := hafter.next
          rw [hcore, addTimer_pending] at hnext
          refine Bool.noConfusion (hnext ?_)
          unfold Core.Rearming
          rw [addTimer_callback]
          exact hre
    · intro hdeleted
      rcases hI with ⟨-, hgone⟩ | ⟨hdel, -⟩
      · constructor
        · rw [hcore, addTimer_bug, hgone.1, hbefore.now, Bool.false_or]
        · intro hre
          unfold Core.Rearming at hre
          rw [hcore, addTimer_callback, hgone.2] at hre
          rcases hre with h | h <;> exact CallbackPc.noConfusion h
      · exact absurd (hdeleted hpc) hdel
  · refine iff_of_true ⟨by rw [hbug]; exact hbefore.now, fun hre => ?_⟩
      (fun h => absurd h hadd)
    rw [hp]
    exact hbefore.next ((phase_congr hp hcb).2.2.mp hre)

/-- After a step no addition is a double one, provided none was before,
    exactly when the step is no addition without a deletion. -/
theorem step_singleAdd_iff (hI : Phase h s) (hbefore : SingleAdd s)
    (hstep : step l s = some s') : SingleAdd s' ↔ AddsDeleted h s l := by
  cases l with
  | run t => exact run_step_singleAdd_iff hI hbefore hstep
  | tick =>
      rw [step_tick hstep]
      exact iff_of_true ⟨hbefore.now, hbefore.next⟩ trivial
  | call t arg =>
      rw [step_call hstep]
      exact iff_of_true ⟨hbefore.now, hbefore.next⟩ trivial
  | expire =>
      rcases step_expire hstep with ⟨core, hcore, rfl⟩
      rcases expire_spec hcore with ⟨-, -, hp, -, hbug⟩
      exact iff_of_true ⟨by rw [hbug]; exact hbefore.now, fun _ => hp⟩ trivial
  | callback =>
      rcases step_callback hstep with ⟨core, hcore, rfl⟩
      refine iff_of_true ?_ trivial
      rcases myTimerFunc_spec hcore with ⟨hpc, hpc', hp, hbug⟩ | ⟨hpc, hpc', hp, hbug⟩ |
        ⟨hpc, hpc', hp, hbug⟩
      · refine ⟨by rw [hbug]; exact hbefore.now, fun _ => ?_⟩
        rw [hp]
        exact hbefore.next (Or.inl hpc)
      · -- The callback's own addition, of a timer that is not pending.
        constructor
        · rw [hbug, hbefore.next (Or.inr hpc), hbefore.now, Bool.false_or]
        · intro hre
          rcases hre with h | h <;> rw [hpc'] at h <;> exact CallbackPc.noConfusion h
      · refine ⟨by rw [hbug]; exact hbefore.now, fun hre => ?_⟩
        rcases hre with h | h <;> rw [hpc'] at h <;> exact CallbackPc.noConfusion h

omit [DecidableEq ι] in
/-- A callback that has still to add a pending timer hits the `BUG_ON` in its
    next step or in the one after it. -/
theorem addTimer_under_callback {core core' : Core} {delay : BitVec 64} (hre : core.Rearming)
    (hp : core.timer.pending = true) (hstep : myTimerFunc delay core = some core') :
    core'.bug = true ∨ (core'.callback = .expiresSet ∧ core'.timer.pending = true) := by
  rcases myTimerFunc_spec hstep with ⟨-, hpc', hp', -⟩ | ⟨-, -, -, hbug⟩ | ⟨hpc, -⟩
  · rw [hp] at hp'
    exact Or.inr ⟨hpc', hp'⟩
  · rw [hbug, hp, Bool.true_or]
    exact Or.inl rfl
  · rcases hre with h | h <;> rw [hpc] at h <;> exact CallbackPc.noConfusion h

/-- An addition under the callback is not made good again: whatever the next
    step is, the timer stays pending under the callback until the `BUG_ON`. -/
theorem singleAdd_of_step (hstep : step l s = some s') (hafter : SingleAdd s') : SingleAdd s := by
  have hnow : s.core.bug = false := by
    unfold step at hstep
    rw [Option.ite_none_left_eq_some, Bool.not_eq_true] at hstep
    exact hstep.1
  refine ⟨hnow, fun hre => Bool.eq_false_iff.mpr fun hp => ?_⟩
  cases l with
  | tick =>
      have hnext := hafter.next
      rw [step_tick hstep] at hnext
      exact absurd (hnext hre) (by simp only [tick, hp, Bool.true_eq_false, not_false_eq_true])
  | call t arg =>
      have hnext := hafter.next
      rw [step_call hstep] at hnext
      exact absurd (hnext hre) (by simp only [hp, Bool.true_eq_false, not_false_eq_true])
  | expire =>
      -- The timer core waits for the callback.
      rcases step_expire hstep with ⟨core, hcore, rfl⟩
      have hidle := (expire_spec hcore).2.1
      rcases hre with h | h <;> rw [hidle] at h <;> exact CallbackPc.noConfusion h
  | callback =>
      rcases step_callback hstep with ⟨core, hcore, rfl⟩
      rcases addTimer_under_callback hre hp hcore with hbug | ⟨hpc', hp'⟩
      · rw [hafter.now] at hbug
        exact Bool.noConfusion hbug
      · rw [hafter.next (Or.inr hpc')] at hp'
        exact Bool.noConfusion hp'
  | run t =>
      rcases step_run hstep with ⟨c, -, hstmt⟩
      rcases stmt_core hstmt with ⟨-, hidle, -⟩ | ⟨-, hcore⟩ | ⟨-, -, hp', hcb, -⟩
      · -- And so does `del_timer_sync`.
        rcases hre with h | h <;> rw [hidle] at h <;> exact CallbackPc.noConfusion h
      · have hbug := hafter.now
        rw [hcore, addTimer_bug, hp, Bool.true_or] at hbug
        exact Bool.noConfusion hbug
      · have hnext := hafter.next ((phase_congr hp' hcb).2.2.mpr hre)
        rw [hp', hp] at hnext
        exact Bool.noConfusion hnext

/-- In a run no `add_timer` finds the timer pending, or is bound to, exactly
    when every addition by a caller comes after a deletion that is younger
    than the addition before it. -/
theorem run_singleAdd_iff (hr : Run step (Sys.loaded j secs : Sys ι) h s) :
    EveryState SingleAdd h s ↔ EveryStep AddsDeleted h :=
  hr.everyState_iff_everyStep
    ⟨rfl, fun hre => by rcases hre with h | h <;> exact CallbackPc.noConfusion h⟩
    (fun _ _ _ _ hr hbefore hstep => step_singleAdd_iff (run_phase hr) hbefore hstep)

/-- Two callers one after the other, with a callback in between. -/
theorem run_singleAdd_turns : ∃ (h : History (Sys Nat) (Step Nat)) (s : Sys Nat),
    EveryStep AddsDeleted h ∧ ∃ c ∈ s.callers 1, c.pc = .returned 0 := by
  rcases exists_run_of_exec step (Sys.loaded 0 1 : Sys Nat)
    (List.flatten [
      [.call 0 (some fun k => some (if k = 0 then 2 else 0))], List.replicate 6 (.run 0),
      [.tick, .tick, .expire, .callback, .callback, .callback],
      [.call 1 (some fun k => some (if k = 0 then 3 else 0))], List.replicate 6 (.run 1)])
    (fun h s => EveryState SingleAdd h s ∧ ∃ c ∈ s.callers 1, c.pc = .returned 0)
    (by decide) with ⟨h, s, hr, hp⟩
  rcases of_decide_eq_true hp with ⟨hsingle, hdone⟩
  exact ⟨h, s, (run_singleAdd_iff hr).mp hsingle, hdone⟩

/-- Two callers delete the timer before either adds it: the second finds it
    pending. -/
theorem run_double_add : ∃ (h : History (Sys Nat) (Step Nat)) (s : Sys Nat),
    Run step (Sys.loaded 0 1) h s ∧ (∃ c ∈ s.callers 1, c.pc = .addTimer) ∧
      s.core.timer.pending = true ∧ ((step (.run 1) s).any fun s' => s'.core.bug) = true := by
  rcases exists_run_of_exec step (Sys.loaded 0 1 : Sys Nat)
    (List.flatten [
      [.call 0 (some fun k => some (if k = 0 then 2 else 0)),
        .call 1 (some fun k => some (if k = 0 then 3 else 0))],
      List.replicate 3 (.run 0), List.replicate 5 (.run 1), List.replicate 3 (.run 0)])
    (fun _ s => (∃ c ∈ s.callers 1, c.pc = .addTimer) ∧ s.core.timer.pending = true ∧
      ((step (.run 1) s).any fun s' => s'.core.bug) = true) (by decide) with ⟨h, s, hr, hp⟩
  exact ⟨h, s, hr, of_decide_eq_true hp⟩

end SetDelay

end Timers

end KernelModules
