import KernelModules.Kernel.User
import Mathlib.Data.List.Basic

/-!
# A Timer that Re-arms Itself

`my_timer` and `my_timer_func` as `blinkplus.c` and `helloplus.c` have them,
with the kernel's timer operations. The callback sets a new expiry and adds
its own timer again, and other code may run between these steps.

The timer core dequeues a timer that is due and starts its callback. It never
runs the callback of one timer twice at the same time, so an expiry waits for
the callback to return. `add_timer` has a `BUG_ON` for a timer that is pending
already, and the kernel stops there. `del_timer` dequeues a pending timer and
looks at nothing else; `del_timer_sync` waits for a running callback.

Jiffies are a word that wraps, and comparisons of times are the signed ones of
`time_after_eq`.

## Main definitions

* `Timer`, `CallbackPc`, `Core`: The timer, its callback and the clock.
* `addTimer`, `delTimer`, `delTimerSync`: The kernel's operations.
* `expire`: The timer core starts the callback.
* `myTimerFunc`: One step of the callback.
* `Core.Rearming`, `Core.Active`: The callback is going to add the timer; the
  timer is pending or will be.

## Theorems

* `expire_spec`, `myTimerFunc_spec`: What an expiry and the callback do.
* `expire_active`, `myTimerFunc_active`: An active timer stays active.
* `expire_gone`, `myTimerFunc_gone`: A timer that is gone has nothing to do.
* `delTimer_active`: When a deletion leaves the timer active.
-/

namespace KernelModules

namespace Timers

/-- `struct timer_list`, as far as it changes. -/
structure Timer where
  pending : Bool
  expires : BitVec 64

/-- Where `my_timer_func` is: not running, just started, with the new expiry
    set, or with the timer added and about to return. -/
inductive CallbackPc where
  | idle
  | dequeued
  | expiresSet
  | added
  deriving DecidableEq

/-- `my_timer`, the clock, the callback, and whether `add_timer` has hit its
    `BUG_ON`. -/
structure Core where
  timer : Timer
  jiffies : BitVec 64
  callback : CallbackPc
  bug : Bool

/-- The timer as the module's init leaves it, after its first `add_timer`. -/
def Core.armed (jiffies delay : BitVec 64) : Core :=
  { timer := { pending := true, expires := jiffies + delay }, jiffies := jiffies,
    callback := .idle, bug := false }

def timeAfterEq (a b : BitVec 64) : Bool := 0 ≤ (a - b).toInt

def tick (c : Core) : Core := { c with jiffies := c.jiffies + 1 }

def addTimer (c : Core) : Core :=
  -- `BUG_ON(timer_pending(timer));`
  if c.timer.pending then { c with bug := true }
  else { c with timer := { c.timer with pending := true } }

def delTimer (c : Core) : Core := { c with timer := { c.timer with pending := false } }

/-- `none` while it waits for the callback. -/
def delTimerSync (c : Core) : Option Core :=
  if c.callback = .idle then some (delTimer c) else none

/-- The timer core dequeues the timer and calls its function. -/
def expire (c : Core) : Option Core :=
  if c.timer.pending ∧ c.callback = .idle ∧ timeAfterEq c.jiffies c.timer.expires then
    some { c with timer := { c.timer with pending := false }, callback := .dequeued }
  else none

/-- The next step of `my_timer_func`, with the delay as it is by now. -/
def myTimerFunc (delay : BitVec 64) (c : Core) : Option Core :=
  match c.callback with
  | .idle => none
  | .dequeued =>
    -- `my_timer.expires = jiffies + secs2hello;`
    some { c with
      timer := { c.timer with expires := c.jiffies + delay }, callback := .expiresSet }
  | .expiresSet => some { addTimer c with callback := .added }
  | .added => some { c with callback := .idle }

/-- The callback is running and has not added the timer yet. -/
def Core.Rearming (c : Core) : Prop := c.callback = .dequeued ∨ c.callback = .expiresSet

/-- The timer is pending, or the callback is about to add it. -/
def Core.Active (c : Core) : Prop := c.timer.pending = true ∨ c.Rearming

/-- The timer is not pending and its callback does not run. -/
def Core.Gone (c : Core) : Prop := c.timer.pending = false ∧ c.callback = .idle

instance (c : Core) : Decidable c.Rearming := inferInstanceAs (Decidable (_ ∨ _))

instance (c : Core) : Decidable c.Gone := inferInstanceAs (Decidable (_ ∧ _))

section Steps

variable {c c' : Core} {delay : BitVec 64}

/-- An idle callback of a timer that is not pending is all there is. -/
theorem gone_of_not_active (h : ¬ c.Active) (hidle : c.callback = .idle) : c.Gone :=
  ⟨Bool.eq_false_iff.mpr fun hp => h (Or.inl hp), hidle⟩

theorem gone_not_active (h : c.Gone) : ¬ c.Active := by
  rintro (hp | hr | hr)
  · rw [h.1] at hp
    exact Bool.noConfusion hp
  · rw [h.2] at hr
    exact CallbackPc.noConfusion hr
  · rw [h.2] at hr
    exact CallbackPc.noConfusion hr

theorem addTimer_pending (c : Core) : (addTimer c).timer.pending = true := by
  unfold addTimer
  split
  · assumption
  · rfl

theorem addTimer_callback (c : Core) : (addTimer c).callback = c.callback := by
  unfold addTimer
  split <;> rfl

/-- The `BUG_ON` is hit by adding a pending timer. -/
theorem addTimer_bug (c : Core) : (addTimer c).bug = (c.timer.pending || c.bug) := by
  unfold addTimer
  cases hp : c.timer.pending with
  | true => rw [if_pos rfl, Bool.true_or]
  | false => rw [if_neg Bool.false_ne_true, Bool.false_or]

/-- An expiry finds the timer pending and its callback idle. -/
theorem expire_spec (h : expire c = some c') :
    c.timer.pending = true ∧ c.callback = .idle ∧ c'.timer.pending = false ∧
      c'.callback = .dequeued ∧ c'.bug = c.bug := by
  simp only [expire, Option.ite_none_right_eq_some, Option.some.injEq] at h
  rcases h with ⟨⟨hp, hidle, -⟩, rfl⟩
  exact ⟨hp, hidle, rfl, rfl, rfl⟩

/-- A timer that is gone does not expire. -/
theorem expire_gone (h : c.Gone) : expire c = none := by
  unfold expire
  rw [if_neg]
  rintro ⟨hp, -, -⟩
  rw [h.1] at hp
  exact Bool.noConfusion hp

theorem myTimerFunc_gone (h : c.Gone) : myTimerFunc delay c = none := by
  rw [myTimerFunc, h.2]

/-- The steps of the callback: it adds the timer once on its way. -/
theorem myTimerFunc_spec (h : myTimerFunc delay c = some c') :
    (c.callback = .dequeued ∧ c'.callback = .expiresSet ∧
        c'.timer.pending = c.timer.pending ∧ c'.bug = c.bug) ∨
      (c.callback = .expiresSet ∧ c'.callback = .added ∧ c'.timer.pending = true ∧
        c'.bug = (c.timer.pending || c.bug)) ∨
      (c.callback = .added ∧ c'.callback = .idle ∧ c'.timer.pending = c.timer.pending ∧
        c'.bug = c.bug) := by
  unfold myTimerFunc at h
  cases hpc : c.callback with
  | idle => simp only [hpc, reduceCtorEq] at h
  | dequeued =>
      simp only [hpc, Option.some.injEq] at h
      rw [← h]
      exact Or.inl ⟨rfl, rfl, rfl, rfl⟩
  | expiresSet =>
      simp only [hpc, Option.some.injEq] at h
      rw [← h]
      exact Or.inr (Or.inl ⟨rfl, rfl, addTimer_pending c, addTimer_bug c⟩)
  | added =>
      simp only [hpc, Option.some.injEq] at h
      rw [← h]
      exact Or.inr (Or.inr ⟨rfl, rfl, rfl, rfl⟩)

/-- An active timer is active after an expiry. -/
theorem expire_active (h : expire c = some c') : c'.Active :=
  Or.inr (Or.inl (expire_spec h).2.2.2.1)

/-- A step of the callback keeps an active timer active, and does not make
    another one so. -/
theorem myTimerFunc_active (h : myTimerFunc delay c = some c') : c'.Active ↔ c.Active := by
  unfold Core.Active Core.Rearming
  rcases myTimerFunc_spec h with ⟨hpc, hpc', hp, -⟩ | ⟨hpc, hpc', hp, -⟩ | ⟨hpc, hpc', hp, -⟩
  · rw [hpc, hpc']
    exact iff_of_true (Or.inr (Or.inr rfl)) (Or.inr (Or.inl rfl))
  · -- The promise to add the timer is kept here.
    rw [hpc, hp]
    exact iff_of_true (Or.inl rfl) (Or.inr (Or.inr rfl))
  · simp only [hpc, hpc', hp, reduceCtorEq, or_self, or_false]

/-- `del_timer` leaves an active timer exactly when the callback is about to
    add it again. -/
theorem delTimer_active (c : Core) : (delTimer c).Active ↔ c.Rearming := by
  unfold Core.Active Core.Rearming
  simp only [delTimer, Bool.false_eq_true, false_or]

end Steps

end Timers

end KernelModules
