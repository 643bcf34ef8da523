import KernelModules.Lib.Run
import KernelModules.Timers.Callback

/-!
# Unloading a Module with a Timer

The exit functions of `blinkplus.c` and `helloplus.c`, statement by statement,
on one processor, against the timer and its callback on another. No ioctl is
on its way any more, since a module is not unloaded while its device is open.

Both exit functions delete the timer first, with `del_timer`, and go on to
take down the device. That is enough when the callback is not running, and
when it runs but has added the timer already and returns in time. A callback
that is on its way to `add_timer` is missed: it adds the timer after the
deletion, and nothing deletes it again.

`run_unload_iff` says that these are all the cases: a run leaves nothing
behind exactly when its deletion missed no callback and the callback was not
running at the last statement of the exit function.

## Main definitions

* `ExitStmt`, `Module`, `cleanup`: The two exit functions.
* `Sys`, `Step`, `step`: The exit function against the callback.
* `AfterUnload`: Nothing is left behind.
* `Missed`: The deletion fell between the start of the callback and its
  `add_timer`.
* `EndsClean`: The condition on the last statement.

## Theorems

* `missed_iff_active`: After the deletion the timer is active exactly when the
  callback was missed.
* `run_unload_iff`: When nothing is left behind.
* `run_left_behind`: A run of each module that leaves its timer pending.
-/

namespace KernelModules

namespace Timers

namespace Unload

open Lib

/-- The statements of the exit functions. -/
inductive ExitStmt where
  | delTimer
  | restoreLeds
  | cdevDel
  | deviceDestroy
  | classDestroy
  | unregisterChrdevRegion
  deriving DecidableEq

inductive Module where
  | blinkplus
  | helloplus

def kbledsCleanup : List ExitStmt :=
  [.delTimer, .restoreLeds, .cdevDel, .unregisterChrdevRegion]

def helloplusCleanup : List ExitStmt :=
  [.delTimer, .cdevDel, .deviceDestroy, .classDestroy, .unregisterChrdevRegion]

def cleanup : Module → List ExitStmt
  | .blinkplus => kbledsCleanup
  | .helloplus => helloplusCleanup

/-- What a statement of an exit function does to the timer. -/
def exitStmt : ExitStmt → Core → Core
  | .delTimer => delTimer
  | .restoreLeds | .cdevDel | .deviceDestroy | .classDestroy | .unregisterChrdevRegion => id

/-- The timer, and the statements the exit function has still to execute. It
    has returned when there are none. -/
structure Sys where
  core : Core
  exit : List ExitStmt

/-- The module loaded, with its timer armed. -/
def Sys.loaded (m : Module) (jiffies delay : BitVec 64) : Sys :=
  { core := Core.armed jiffies delay, exit := cleanup m }

inductive Step where
  | tick
  | expire
  | callback
  | exit

def step (delay : BitVec 64) : Step → Sys → Option Sys
  | .tick, s => some { s with core := tick s.core }
  | .expire, s => (expire s.core).map fun c => { s with core := c }
  | .callback, s => (myTimerFunc delay s.core).map fun c => { s with core := c }
  | .exit, s =>
    match s.exit with
    | [] => none
    | stmt :: rest => some { core := exitStmt stmt s.core, exit := rest }

/-- Once the exit function has returned, the timer is not pending and its
    callback does not run. -/
def AfterUnload (s : Sys) : Prop := s.exit = [] → s.core.Gone

/-- The deletion of the run fell between the start of the callback and its
    `add_timer`. -/
def Missed : History Sys Step → Prop
  | [] => False
  | (s, .exit) :: h =>
    if s.exit.head? = some .delTimer then s.core.Rearming else Missed h
  | (_, .tick) :: h | (_, .expire) :: h | (_, .callback) :: h => Missed h

/-- If the step is the last statement of the exit function, the deletion has
    missed no callback and none is running. -/
def EndsClean (h : History Sys Step) (s : Sys) : Step → Prop
  | .exit => s.exit.tail = [] → ¬ Missed h ∧ s.core.callback = .idle
  | .tick | .expire | .callback => True

variable {delay j : BitVec 64} {m : Module} {s s' : Sys} {h : History Sys Step} {l : Step}

/-- An exit function deletes the timer first and only once, and does more. -/
theorem cleanup_eq (m : Module) :
    ∃ stmt rest, cleanup m = .delTimer :: stmt :: rest ∧ .delTimer ∉ stmt :: rest := by
  cases m with
  | blinkplus => exact ⟨_, _, rfl, by decide⟩
  | helloplus => exact ⟨_, _, rfl, by decide⟩

/-- The exit function has not begun, or the deletion is behind it and the
    timer is active exactly when it missed the callback. -/
def Phase (m : Module) (h : History Sys Step) (s : Sys) : Prop :=
  s.exit = cleanup m ∨ (.delTimer ∉ s.exit ∧ (Missed h ↔ s.core.Active))

/-- The steps other than those of the exit function. -/
theorem step_core (hl : l ≠ .exit) (hstep : step delay l s = some s') :
    s'.exit = s.exit ∧ (s'.core.Active ↔ s.core.Active) ∧ (s.core.Gone → s'.core.Gone) ∧
      (Missed ((s, l) :: h) ↔ Missed h) := by
  cases l with
  | tick =>
      rw [step, Option.some.injEq] at hstep
      rw [← hstep]
      exact ⟨rfl, Iff.rfl, id, Iff.rfl⟩
  | expire =>
      rcases Option.map_eq_some_iff.mp hstep with ⟨c, hc, rfl⟩
      refine ⟨rfl, iff_of_true (expire_active hc) (Or.inl (expire_spec hc).1), fun hgone => ?_,
        Iff.rfl⟩
      rw [expire_gone hgone] at hc
      simp only [reduceCtorEq] at hc
  | callback =>
      -- A callback that is not running takes no step, so a timer that is gone
      -- stays gone.
      rcases Option.map_eq_some_iff.mp hstep with ⟨c, hc, rfl⟩
      refine ⟨rfl, myTimerFunc_active hc, fun hgone => ?_, Iff.rfl⟩
      rw [myTimerFunc_gone hgone] at hc
      simp only [reduceCtorEq] at hc
  | exit => exact absurd rfl hl

theorem exitStmt_of_ne {stmt : ExitStmt} (hne : stmt ≠ .delTimer) (c : Core) :
    exitStmt stmt c = c := by
  cases stmt with
  | delTimer => exact absurd rfl hne
  | _ => rfl

/-- A statement of the exit function behind the deletion. -/
theorem step_exit_after (hnot : .delTimer ∉ s.exit) (hstep : step delay .exit s = some s') :
    s'.exit = s.exit.tail ∧ s'.core = s.core ∧ (Missed ((s, .exit) :: h) ↔ Missed h) := by
  cases he : s.exit with
  | nil => simp only [step, he, reduceCtorEq] at hstep
  | cons stmt rest =>
      rw [he] at hnot
      have hne : stmt ≠ .delTimer := fun h => hnot (h ▸ List.mem_cons_self)
      simp only [step, he, exitStmt_of_ne hne, Option.some.injEq] at hstep
      rw [← hstep]
      refine ⟨rfl, rfl, ?_⟩
      rw [Missed, he, List.head?_cons, if_neg (fun h => hne (Option.some.inj h))]

/-- Every step keeps the phase. -/
theorem step_phase (hI : Phase m h s) (hstep : step delay l s = some s') :
    Phase m ((s, l) :: h) s' := by
  by_cases hl : l = .exit
  · rw [hl] at hstep ⊢
    rcases hI with hall | ⟨hnot, hactive⟩
    · -- The deletion itself: what it leaves active is a callback that is about
      -- to add the timer, which is what it misses.
      rcases cleanup_eq m with ⟨stmt, rest, heq, hrest⟩
      rw [heq] at hall
      simp only [step, hall, Option.some.injEq] at hstep
      rw [← hstep]
      refine Or.inr ⟨hrest, ?_⟩
      rw [Missed, hall, List.head?_cons, if_pos rfl]
      exact (delTimer_active s.core).symm
    · rcases step_exit_after (h := h) hnot hstep with ⟨hexit, hcore, hmissed⟩
      refine Or.inr ⟨fun hmem => hnot ?_, ?_⟩
      · rw [hexit] at hmem
        exact List.mem_of_mem_tail hmem
      · rw [hmissed, hcore, hactive]
  · rcases step_core (h := h) hl hstep with ⟨hexit, hact, -, hmissed⟩
    unfold Phase
    rw [hexit, hact, hmissed]
    exact hI

theorem missed_iff_active (hr : Run (step delay) (Sys.loaded m j delay) h s) : Phase m h s :=
  hr.historyInvariant (Phase m) (Or.inl rfl) (fun _ _ _ _ _ hI hstep => step_phase hI hstep)

/-- After a step nothing is left behind, provided nothing was before, exactly
    when the step ends the exit function cleanly or does not end it. -/
theorem step_unload_iff (hI : Phase m h s) (hbefore : AfterUnload s)
    (hstep : step delay l s = some s') : AfterUnload s' ↔ EndsClean h s l := by
  by_cases hl : l = .exit
  · rw [hl] at hstep ⊢
    rcases hI with hall | ⟨hnot, hactive⟩
    · -- The deletion is not the last statement.
      rcases cleanup_eq m with ⟨stmt, rest, heq, -⟩
      rw [heq] at hall
      simp only [step, hall, Option.some.injEq] at hstep
      refine iff_of_true (fun hend => ?_) (fun hend => ?_)
      · rw [← hstep] at hend
        exact absurd hend (List.cons_ne_nil stmt rest)
      · rw [hall] at hend
        exact absurd hend (List.cons_ne_nil stmt rest)
    · rcases step_exit_after (h := h) hnot hstep with ⟨hexit, hcore, -⟩
      unfold AfterUnload EndsClean
      rw [hexit, hcore, hactive]
      refine imp_congr_right fun _ => ⟨fun hgone => ⟨gone_not_active hgone, hgone.2⟩, ?_⟩
      exact fun ⟨hquiet, hidle⟩ => gone_of_not_active hquiet hidle
  · -- Behind the exit function nothing starts up again.
    rcases step_core (h := h) hl hstep with ⟨hexit, -, hgone, -⟩
    refine iff_of_true (fun hend => hgone (hbefore (by rw [← hexit]; exact hend))) ?_
    cases l with
    | exit => exact absurd rfl hl
    | _ => trivial

/-- In a run of either module nothing is left behind in any state after the
    exit function has returned, exactly when the run ends it cleanly. -/
theorem run_unload_iff (m : Module) (hr : Run (step delay) (Sys.loaded m j delay) h s) :
    EveryState AfterUnload h s ↔ EveryStep EndsClean h := by
  refine hr.everyState_iff_everyStep (fun hend => ?_)
    (fun _ _ _ _ hr hbefore hstep => step_unload_iff (missed_iff_active hr) hbefore hstep)
  rcases cleanup_eq m with ⟨stmt, rest, heq, -⟩
  rw [Sys.loaded, heq] at hend
  exact absurd hend (List.cons_ne_nil _ _)

instance (s : Sys) : Decidable (AfterUnload s) := inferInstanceAs (Decidable (_ → _))

/-- The deletion comes after the callback has added the timer, and the
    callback returns before the exit function does. -/
theorem run_unload_returned : ∃ (h : History Sys Step) (s : Sys),
    EveryStep EndsClean h ∧ s.exit = [] := by
  rcases exists_run_of_exec (step 1) (Sys.loaded .helloplus 0 1)
    [.tick, .expire, .callback, .callback, .exit, .exit, .callback, .exit, .exit, .exit]
    (fun h s => EveryState AfterUnload h s ∧ s.exit = []) (by decide) with ⟨h, s, hr, hp⟩
  rcases of_decide_eq_true hp with ⟨hafter, hend⟩
  exact ⟨h, s, (run_unload_iff .helloplus hr).mp hafter, hend⟩

/-- Runs of both modules whose timer is pending after the exit function has
    returned: the deletion comes when the callback has just started. -/
theorem run_left_behind :
    (∃ (h : History Sys Step) (s : Sys), Run (step 1) (Sys.loaded .blinkplus 0 1) h s ∧
      s.exit = [] ∧ s.core.timer.pending = true) ∧
    (∃ (h : History Sys Step) (s : Sys), Run (step 1) (Sys.loaded .helloplus 0 1) h s ∧
      s.exit = [] ∧ s.core.timer.pending = true) := by
  constructor
  · rcases exists_run_of_exec (step 1) (Sys.loaded .blinkplus 0 1)
      [.tick, .expire, .exit, .callback, .callback, .callback, .exit, .exit, .exit]
      (fun _ s => s.exit = [] ∧ s.core.timer.pending = true) (by decide) with ⟨h, s, hr, hp⟩
    exact ⟨h, s, hr, of_decide_eq_true hp⟩
  · rcases exists_run_of_exec (step 1) (Sys.loaded .helloplus 0 1)
      [.tick, .expire, .exit, .callback, .callback, .callback, .exit, .exit, .exit, .exit]
      (fun _ s => s.exit = [] ∧ s.core.timer.pending = true) (by decide) with ⟨h, s, hr, hp⟩
    exact ⟨h, s, hr, of_decide_eq_true hp⟩

end Unload

end Timers

end KernelModules
