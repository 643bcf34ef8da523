import KernelModules.Timers.Rearm

/-!
# The Delay after a Failed SET_DELAY

`hello_ioctl` copies the delay of a `SET_DELAY` from user space straight into
`secs2hello`, the variable that the timer re-arms with and that `GET_DELAY`
returns. When the copy faults the call returns `-EFAULT`, and the variable has
the bytes before the fault and zeros behind them.

So the delay is not the one of the last `SET_DELAY` that returned 0, unless
what a failed copy leaves happens to be that very number
(`run_lastSet_iff`). From then on every expiry and every `GET_DELAY` shows it.

## Main definitions

* `lastSet`: The delay of the last `SET_DELAY` that returned 0, by the history.
* `KeepsDelay`: A failed call changes nothing, and the timer and `GET_DELAY` go
  by that delay.
* `HarmlessFault`: The condition on a call.

## Theorems

* `setDelay_fault`, `setDelay_done`: What a `SET_DELAY` does.
* `ioctl_lastSet`, `step_lastSet`: What a step does to the delay.
* `run_lastSet_iff`: When failed calls change nothing.
* `run_delay_lost`: A failed call after which the timer does not wait at all.
-/

namespace KernelModules

namespace Timers

namespace Rearm

open Kernel Lib

/-- The command and the pointer of an ioctl, `none` for NULL. -/
abbrev HelloCall := BitVec 32 × Option UserMem

/-- The delay that a call sets when it returns 0, or the one before. -/
def acceptedDelay (before : BitVec 64) : HelloCall → BitVec 64
  | (cmd, some u) => if cmd = SET_DELAY ∧ NoFault u 8 then toLong (bytes u 0 8) else before
  | (_, none) => before

/-- The delay of the last `SET_DELAY` that returned 0, or the initial one. -/
def lastSet (hz : BitVec 32) : History (Loaded (BitVec 64)) (Step HelloCall) → BitVec 64
  | [] => INITIAL_SECS hz
  | (_, .ioctl a) :: h => acceptedDelay (lastSet hz h) a
  | (_, .tick) :: h | (_, .expire) :: h => lastSet hz h

/-- A `SET_DELAY` that returns an error leaves the delay as it was, the callback
    re-arms with the delay last set, and a `GET_DELAY` copies it to its
    caller. -/
def KeepsDelay (hz : BitVec 32) (h : History (Loaded (BitVec 64)) (Step HelloCall))
    (m : Loaded (BitVec 64)) : Step HelloCall → Prop
  | .tick => True
  | .expire => ∀ m' ∈ helloplus.expire m,
    m'.added = (m.core.jiffies, m.core.jiffies + lastSet hz h) :: m.added
  | .ioctl a =>
    (a.1 = SET_DELAY → (helloIoctl a.1 a.2 m).1 = -EFAULT ∨ (helloIoctl a.1 a.2 m).1 = -EINVAL →
      (helloIoctl a.1 a.2 m).2.2.vars = m.vars) ∧
    (a.1 = GET_DELAY → ∀ u ∈ a.2,
      (helloIoctl a.1 a.2 m).2.1 = some (copyToUser u (ofLong (lastSet hz h))).2)

/-- What a `SET_DELAY` that faults has copied, with zeros for the rest, is the
    delay last set. -/
def HarmlessFault (hz : BitVec 32) (h : History (Loaded (BitVec 64)) (Step HelloCall))
    (_ : Loaded (BitVec 64)) : Step HelloCall → Prop
  | .ioctl a => a.1 = SET_DELAY → ∀ u ∈ a.2, ¬ NoFault u 8 →
    toLong (copyFromUser u 8).2 = lastSet hz h
  | .tick | .expire => True

instance (hz : BitVec 32) (h : History (Loaded (BitVec 64)) (Step HelloCall))
    (m : Loaded (BitVec 64)) : (l : Step HelloCall) → Decidable (HarmlessFault hz h m l)
  | .ioctl a =>
    haveI := Option.decidableForallMem
      (p := fun u : UserMem => ¬ NoFault u 8 → toLong (copyFromUser u 8).2 = lastSet hz h) a.2
    inferInstanceAs (Decidable (a.1 = SET_DELAY → _))
  | .tick | .expire => .isTrue trivial

section Calls

variable {m : Loaded (BitVec 64)} {u : UserMem}

/-- A `SET_DELAY` that faults returns `-EFAULT` with the delay changed. -/
theorem setDelay_fault (hfault : ¬ NoFault u 8) :
    (helloIoctl SET_DELAY (some u) m).1 = -EFAULT ∧
      (helloIoctl SET_DELAY (some u) m).2.2.vars = toLong (copyFromUser u 8).2 := by
  have hne : SET_DELAY ≠ GET_DELAY := by decide
  have hret : (copyFromUser u 8).1 ≠ 0 := mt copyFromUser_eq_zero_iff.mp hfault
  simp only [helloIoctl, if_neg hne, if_true, if_pos hret, and_self]

/-- One that does not returns 0 and has set the delay. -/
theorem setDelay_done (hu : NoFault u 8) :
    (helloIoctl SET_DELAY (some u) m).1 = 0 ∧
      (helloIoctl SET_DELAY (some u) m).2.2.vars = toLong (bytes u 0 8) := by
  have hne : SET_DELAY ≠ GET_DELAY := by decide
  simp only [helloIoctl, if_neg hne, if_true, copyFromUser_of_noFault hu, ne_eq, not_true_eq_false,
    if_false, Loaded.arm, and_self]

/-- No other call changes the delay. -/
theorem ioctl_vars_same {a : HelloCall} (ha : a.1 = SET_DELAY → a.2 = none) :
    (helloIoctl a.1 a.2 m).2.2.vars = m.vars := by
  rcases helloIoctl_spec a.1 a.2 m with ⟨-, hsame⟩ | ⟨u, hset, hu, -, -⟩
  · rw [hsame]
  · rw [ha hset] at hu
    exact nomatch hu

end Calls

section Runs

variable {hz : BitVec 32} {j : BitVec 64} {h : History (Loaded (BitVec 64)) (Step HelloCall)}
  {m m' : Loaded (BitVec 64)} {l : Step HelloCall}

/-- A `GET_DELAY` copies the delay to its caller. -/
theorem getDelay_copies {u : UserMem} (hm : m.vars = lastSet hz h) :
    (helloIoctl GET_DELAY (some u) m).2.1 = some (copyToUser u (ofLong (lastSet hz h))).2 := by
  rw [← hm]
  rfl

/-- An ioctl keeps the delay in touch with the calls exactly if it does not
    fault, or without harm. -/
theorem ioctl_lastSet (a : HelloCall) (hm : m.vars = lastSet hz h) :
    (KeepsDelay hz h m (.ioctl a) ↔ HarmlessFault hz h m (.ioctl a)) ∧
      (KeepsDelay hz h m (.ioctl a) →
        (helloIoctl a.1 a.2 m).2.2.vars = acceptedDelay (lastSet hz h) a) := by
  rcases a with ⟨cmd, arg⟩
  have hget : cmd = GET_DELAY → ∀ u ∈ arg,
      (helloIoctl cmd arg m).2.1 = some (copyToUser u (ofLong (lastSet hz h))).2 := by
    rintro rfl u hu
    rw [Option.mem_def.mp hu]
    exact getDelay_copies hm
  -- Only a `SET_DELAY` that faults can go wrong.
  by_cases hset : cmd = SET_DELAY
  · subst hset
    cases arg with
    | none =>
        have hsame := ioctl_vars_same (a := (SET_DELAY, none)) (m := m) fun _ => rfl
        refine ⟨iff_of_true ⟨fun _ _ => hsame, hget⟩ ?_, fun _ => ?_⟩
        · exact fun _ u hu => nomatch hu
        · rw [hsame, hm]
          rfl
    | some u =>
        by_cases hu : NoFault u 8
        · -- The call returns 0, and the delay is the one it has set.
          have hdone := setDelay_done (m := m) hu
          refine ⟨iff_of_true ⟨fun _ hret => ?_, hget⟩ ?_, fun _ => ?_⟩
          · rw [hdone.1] at hret
            exact absurd hret (by decide)
          · intro _ u' hu' hfault
            rw [Option.mem_some_iff] at hu'
            exact absurd hu (hu' ▸ hfault)
          · rw [hdone.2, acceptedDelay, if_pos ⟨rfl, hu⟩]
        -- The call returns `-EFAULT` with the copied bytes in the delay.
        · have hfault := setDelay_fault (m := m) hu
          have hkeeps : KeepsDelay hz h m (.ioctl (SET_DELAY, some u)) ↔
              toLong (copyFromUser u 8).2 = lastSet hz h := by
            rw [← hfault.2, ← hm]
            exact ⟨fun hk => hk.1 rfl (.inl hfault.1), fun hk => ⟨fun _ _ => hk, hget⟩⟩
          refine ⟨hkeeps.trans ?_, fun hk => ?_⟩
          · simp only [HarmlessFault, Option.mem_def, Option.some.injEq, forall_eq', true_implies,
              hu, not_false_eq_true]
          · rw [hfault.2, acceptedDelay, if_neg fun hand => hu hand.2]
            exact hkeeps.mp hk
  · have hsame := ioctl_vars_same (a := (cmd, arg)) (m := m) fun h => absurd h hset
    refine ⟨iff_of_true ⟨fun h => absurd h hset, hget⟩ fun h => absurd h hset, fun _ => ?_⟩
    rw [hsame, hm]
    cases arg with
    | none => rfl
    | some u => rw [acceptedDelay, if_neg fun hand => hset hand.1]

/-- The same for every step. -/
theorem step_lastSet (hm : m.vars = lastSet hz h) (hstep : helloplus.step l m = some m') :
    (KeepsDelay hz h m l ↔ HarmlessFault hz h m l) ∧
      (KeepsDelay hz h m l → m'.vars = lastSet hz ((m, l) :: h)) := by
  cases l with
  | tick =>
      cases hstep
      exact ⟨Iff.rfl, fun _ => hm⟩
  | expire =>
      -- The callback re-arms with the delay in the state.
      have hspec := fun m' (h : helloplus.expire m = some m') => Periodic.expire_spec h
      refine ⟨iff_of_true ?_ trivial, fun _ => (hspec m' hstep).1.trans hm⟩
      intro m'' hm''
      rw [← hm]
      exact (hspec m'' hm'').2.1
  | ioctl a =>
      cases hstep
      exact ioctl_lastSet a hm

/-- Failed calls change nothing, and the timer and `GET_DELAY` go by the last
    `SET_DELAY` that returned 0, in the runs in which every faulting copy
    leaves that delay, and in no others. -/
theorem run_lastSet_iff (hr : Run helloplus.step (helloplus.init j (INITIAL_SECS hz)) h m) :
    EveryStep (KeepsDelay hz) h ↔ EveryStep (HarmlessFault hz) h := by
  refine hr.everyStep_iff_under (fun h m => m.vars = lastSet hz h) rfl ?_
  intro h m l m' _ hm hstep
  exact step_lastSet hm hstep

/-- A buffer in which the first byte is nine, the others are zero, and `n` of
    them can be read. -/
def nineUpTo (n : Nat) : UserMem := fun k => if k < n then some (if k = 0 then 9 else 0) else none

/-- A delay of nine jiffies is set, and then once more with a copy that faults
    behind its first byte. -/
theorem run_lastSet_again : ∃ h m,
    Run helloplus.step (helloplus.init 0 (INITIAL_SECS 250)) h m ∧ m.vars = 9 ∧
      ¬ NoFault (nineUpTo 1) 8 ∧ EveryStep (KeepsDelay 250) h := by
  rcases exists_run_of_exec helloplus.step (helloplus.init 0 (INITIAL_SECS 250))
    [.ioctl (SET_DELAY, some (nineUpTo 8)), .tick, .ioctl (SET_DELAY, some (nineUpTo 1)),
      .ioctl (GET_DELAY, some (nineUpTo 8))]
    (fun h m => EveryStep (HarmlessFault 250) h ∧ m.vars = 9) (by decide +kernel)
    with ⟨h, m, hr, hp⟩
  rcases of_decide_eq_true hp with ⟨hharmless, hvars⟩
  exact ⟨h, m, hr, hvars, by decide, (run_lastSet_iff hr).mpr hharmless⟩

/-- A `SET_DELAY` from memory that cannot be read at all: it returns `-EFAULT`,
    the delay is zero afterwards, and the callback adds its timer for the
    present. -/
theorem run_delay_lost : ∃ h m m',
    Run helloplus.step (helloplus.init 0 (INITIAL_SECS 2)) h m ∧ lastSet 2 h = 1 ∧ m.vars = 0 ∧
      (helloIoctl SET_DELAY (some fun _ => none) (helloplus.init 0 (INITIAL_SECS 2))).1 = -EFAULT ∧
      helloplus.expire m = some m' ∧ m'.added.head? = some (1, 1) ∧
      ¬ EveryStep (KeepsDelay 2) h := by
  rcases exists_run_of_exec helloplus.step (helloplus.init 0 (INITIAL_SECS 2))
    [.ioctl (SET_DELAY, some fun _ => none), .tick]
    (fun h m => (lastSet 2 h = 1 ∧ m.vars = 0) ∧
      ((helloplus.expire m).map fun m' => m'.added.head?) = some (some (1, 1)))
    (by decide +kernel) with ⟨h, m, hr, hp⟩
  rcases of_decide_eq_true hp with ⟨⟨hlast, hvars⟩, hexpire⟩
  rcases Option.map_eq_some_iff.mp hexpire with ⟨m', hm', hadded⟩
  refine ⟨h, m, m', hr, hlast, hvars, by decide +kernel, hm', hadded, fun hall => ?_⟩
  have hkept : m.vars = lastSet 2 h := by
    refine hr.invariantUnder (fun h m => m.vars = lastSet 2 h) rfl ?_ hall
    intro h m l m' _ hkeeps hm hstep
    exact (step_lastSet hm hstep).2 hkeeps
  rw [hvars, hlast] at hkept
  exact absurd hkept (by decide)

end Runs

end Rearm

end Timers

end KernelModules
