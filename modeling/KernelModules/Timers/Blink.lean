import KernelModules.Kernel.User
import KernelModules.Lib.Run

/-!
# The LEDs of blinkplus.c

What `my_timer_func` does before it arms its timer again, and the ioctls that
change what it works with. The status word is an `int` of its own. The
callback sends it to the keyboard driver with `KDSETLED`, and what has been
sent is recorded, the latest first.

The LEDs should be lit by a pattern and given back to the keyboard by
`RESTORE_LEDS` in turn. The callback tells which of the two was last by
comparing the status with the pattern selected now. So they blink as long as
a pattern that is lit stays selected, or `RESTORE_LEDS` itself is selected in
its place, and as long as `RESTORE_LEDS` is not selected when a pattern is
due. The very first comparison is with a status that was never sent.

## Main definitions

* `Leds`: The driver's variables, and what was sent.
* `myTimerFunc`, `blinkIoctl`: The callback and the ioctls.
* `Step`, `step`: Ticks and ioctls.
* `Alternates`: A pattern and `RESTORE_LEDS` in turn.
* `Lit`, `selectedLast`: Whether a pattern is lit, and what was selected when
  the callback last ran, by the history.
* `FitsTurn`: The condition on a step.

## Theorems

* `step_tracked`: The history tells what was sent last.
* `run_alternates_iff`: When the LEDs blink.
* `run_two_patterns`: A pattern sent after another.
-/

namespace KernelModules

namespace Timers

namespace Blink

open Kernel Lib

def ALL_LEDS_ON : BitVec 32 := 0x07
def RESTORE_LEDS : BitVec 32 := 0xFF

def MAGIC : BitVec 32 := 0x7A
def GETINV : BitVec 32 := ior MAGIC 1 8
def SETLED : BitVec 32 := iow MAGIC 2 8
def SETINV : BitVec 32 := iow MAGIC 3 8

/-- The variables of the driver, all of them `int`, and the arguments that
    `KDSETLED` was called with, the latest first. -/
structure Leds where
  status : BitVec 32
  selectedLed : BitVec 32
  curExpireJiffies : BitVec 32
  sent : List (BitVec 32)

def Leds.init (hz : BitVec 32) : Leds :=
  { status := 0, selectedLed := ALL_LEDS_ON, curExpireJiffies := hz.sdiv 5, sent := [] }

/-- `my_timer_func` up to the ioctl of the keyboard driver. -/
def myTimerFunc (s : Leds) : Leds :=
  let status := if s.status = s.selectedLed then RESTORE_LEDS else s.selectedLed
  { s with status := status, sent := status :: s.sent }

/-- `blink_ioctl` with the `int` that its argument points to: what it returns,
    and the variables. -/
def blinkIoctl (hz cmd arg : BitVec 32) (s : Leds) : Int × Leds :=
  if cmd = SETINV then (0, { s with curExpireJiffies := hz * arg })
  else if cmd = GETINV then ((s.curExpireJiffies.sdiv hz).toInt, s)
  else if cmd = SETLED then
    (0, { s with selectedLed := (s.selectedLed &&& ~~~ALL_LEDS_ON) ||| arg })
  else (-ENOTTY, s)

inductive Step where
  | tick
  | ioctl (cmd arg : BitVec 32)
  deriving DecidableEq

def step (hz : BitVec 32) : Step → Leds → Option Leds
  | .tick, s => some (myTimerFunc s)
  | .ioctl cmd arg, s => some (blinkIoctl hz cmd arg s).2

/-- Of any two consecutive values exactly one is `RESTORE_LEDS`. -/
def Alternates : List (BitVec 32) → Prop
  | v :: w :: vs => (v = RESTORE_LEDS ↔ w ≠ RESTORE_LEDS) ∧ Alternates (w :: vs)
  | _ => True

/-- What was selected when the callback last ran. -/
def selectedLast : History Leds Step → Option (BitVec 32)
  | [] => none
  | (s, .tick) :: _ => some s.selectedLed
  | (_, .ioctl _ _) :: h => selectedLast h

/-- A pattern is lit, if the LEDs have blinked so far: the first tick lights
    what is selected unless that is the initial status, and every other tick
    turns on or off. -/
def Lit : History Leds Step → Prop
  | [] => False
  | (s, .tick) :: h =>
    if selectedLast h = none then s.selectedLed ≠ 0 ∧ s.selectedLed ≠ RESTORE_LEDS else ¬ Lit h
  | (_, .ioctl _ _) :: h => Lit h

instance decidableLit : (h : History Leds Step) → Decidable (Lit h)
  | [] => .isFalse fun h => h
  | (_, .tick) :: h =>
    haveI := decidableLit h
    inferInstanceAs (Decidable (if selectedLast h = none then _ ∧ _ else ¬ Lit h))
  | (_, .ioctl _ _) :: h => decidableLit h

/-- When the callback runs again, a pattern that is lit is still selected, or
    `RESTORE_LEDS` is; and a pattern is selected if none is lit. -/
def FitsTurn (h : History Leds Step) (s : Leds) : Step → Prop
  | .tick => ∀ last ∈ selectedLast h,
    if Lit h then s.selectedLed = last ∨ s.selectedLed = RESTORE_LEDS
    else s.selectedLed ≠ RESTORE_LEDS
  | .ioctl _ _ => True

instance (h : History Leds Step) (s : Leds) : (l : Step) → Decidable (FitsTurn h s l)
  | .tick => Option.decidableForallMem (selectedLast h)
  | .ioctl _ _ => .isTrue trivial

section Alternation

variable {hz : BitVec 32} {h : History Leds Step} {s s' : Leds} {l : Step}

/-- What the history says of the state: whether the callback has run, what it
    sent last, and that this was a pattern exactly if one is lit. A pattern
    that was sent is the one that was selected then. -/
def Tracked (h : History Leds Step) (s : Leds) : Prop :=
  match selectedLast h with
  | none => s.sent = [] ∧ s.status = 0
  | some last => s.sent.head? = some s.status ∧ (s.status = RESTORE_LEDS ∨ s.status = last) ∧
      (Lit h ↔ s.status ≠ RESTORE_LEDS)

theorem alternates_cons {v w : BitVec 32} {vs : List (BitVec 32)} (hvs : vs.head? = some w) :
    Alternates (v :: vs) ↔ (v = RESTORE_LEDS ↔ w ≠ RESTORE_LEDS) ∧ Alternates vs := by
  cases vs with
  | nil => simp only [List.head?_nil, reduceCtorEq] at hvs
  | cons w' vs =>
      rw [List.head?_cons, Option.some.injEq] at hvs
      rw [Alternates, hvs]

theorem alternates_tail {v : BitVec 32} {vs : List (BitVec 32)} (h : Alternates (v :: vs)) :
    Alternates vs := by
  cases vs with
  | nil => trivial
  | cons w vs => exact h.2

/-- What is sent next turns over what was sent last exactly if the selection
    fits the turn. -/
theorem turns_iff {status selected last : BitVec 32}
    (hstatus : status = RESTORE_LEDS ∨ status = last) :
    ((if status = selected then RESTORE_LEDS else selected) = RESTORE_LEDS ↔
        status ≠ RESTORE_LEDS) ↔
      if status ≠ RESTORE_LEDS then selected = last ∨ selected = RESTORE_LEDS
      else selected ≠ RESTORE_LEDS := by
  by_cases hrestore : status = RESTORE_LEDS
  · rw [if_neg (not_not.mpr hrestore)]
    simp only [hrestore, ne_eq, not_true_eq_false, iff_false]
    by_cases hsel : RESTORE_LEDS = selected
    · rw [if_pos hsel, hsel]
    · rw [if_neg hsel]
  · -- A pattern is lit, which is the one selected when it was sent.
    rw [if_pos hrestore, ← hstatus.resolve_left hrestore]
    simp only [ne_eq, hrestore, not_false_eq_true, iff_true]
    by_cases hsel : status = selected
    · rw [if_pos hsel]
      exact iff_of_true rfl (.inl hsel.symm)
    · simp only [if_neg hsel, Ne.symm hsel, false_or]

/-- No ioctl touches the status or what was sent. -/
theorem blinkIoctl_same (cmd arg : BitVec 32) (s : Leds) :
    (blinkIoctl hz cmd arg s).2.sent = s.sent ∧ (blinkIoctl hz cmd arg s).2.status = s.status := by
  unfold blinkIoctl
  split
  · exact ⟨rfl, rfl⟩
  · split
    · exact ⟨rfl, rfl⟩
    · split <;> exact ⟨rfl, rfl⟩

/-- Only `SETINV` touches the interval. -/
theorem blinkIoctl_interval (cmd arg : BitVec 32) (s : Leds) (hset : cmd ≠ SETINV) :
    (blinkIoctl hz cmd arg s).2.curExpireJiffies = s.curExpireJiffies := by
  unfold blinkIoctl
  rw [if_neg hset]
  split
  · rfl
  · split <;> rfl

/-- A step keeps the history in touch with the state as long as the LEDs have
    blinked, and they go on blinking exactly if the step fits the turn. -/
theorem step_tracked (ht : Tracked h s) (hstep : step hz l s = some s') :
    (Alternates s.sent → (Alternates s'.sent ↔ FitsTurn h s l)) ∧
      (FitsTurn h s l → Tracked ((s, l) :: h) s') := by
  cases l with
  | ioctl cmd arg =>
      have hsame : s'.sent = s.sent ∧ s'.status = s.status := by
        cases hstep
        exact blinkIoctl_same cmd arg s
      refine ⟨fun hs => ?_, fun _ => ?_⟩
      · rw [hsame.1]
        exact iff_of_true hs trivial
      · simp only [Tracked, selectedLast, Lit, hsame.1, hsame.2]
        exact ht
  | tick =>
      cases hstep
      cases hlast : selectedLast h with
      | none =>
          -- The first tick, which compares with the initial status.
          simp only [Tracked, hlast] at ht
          simp only [FitsTurn, hlast, Option.mem_def, reduceCtorEq, false_implies, implies_true,
            myTimerFunc, ht.1, ht.2, Alternates, true_implies, Tracked, selectedLast,
            List.head?_cons, true_and, Lit]
          by_cases hzero : 0 = s.selectedLed
          · rw [if_pos hzero]
            exact ⟨.inl rfl, iff_of_false (fun hlit => hlit.1 hzero.symm) (fun hne => hne rfl)⟩
          · rw [if_neg hzero]
            exact ⟨.inr rfl, and_iff_right (Ne.symm hzero)⟩
      | some last =>
          simp only [Tracked, hlast] at ht
          rcases ht with ⟨hhead, hstatus, hlit⟩
          have hfits : FitsTurn h s .tick ↔ ((myTimerFunc s).status = RESTORE_LEDS ↔
              s.status ≠ RESTORE_LEDS) := by
            simp only [FitsTurn, hlast, Option.mem_def, Option.some.injEq, forall_eq', hlit]
            exact (turns_iff hstatus).symm
          refine ⟨fun hs => ?_, fun hfit => ?_⟩
          · rw [hfits, show (myTimerFunc s).sent = (myTimerFunc s).status :: s.sent from rfl,
              alternates_cons hhead]
            exact and_iff_left hs
          · have hturn := hfits.mp hfit
            simp only [Tracked, selectedLast, Lit, hlast]
            refine ⟨rfl, ?_, ?_⟩
            · unfold myTimerFunc
              simp only
              split
              · exact .inl rfl
              · exact .inr rfl
            · rw [if_neg (Option.some_ne_none last), hlit, ne_eq (myTimerFunc s).status, hturn]

/-- Nothing sent later mends what was sent. -/
theorem alternates_of_step (hstep : step hz l s = some s') (hs' : Alternates s'.sent) :
    Alternates s.sent := by
  cases l with
  | tick =>
      cases hstep
      exact alternates_tail hs'
  | ioctl cmd arg =>
      cases hstep
      rw [(blinkIoctl_same cmd arg s).1] at hs'
      exact hs'

/-- The LEDs blink in the runs in which each tick finds a selection that fits
    its turn, and in no others. -/
theorem run_alternates_iff (hr : Run (step hz) (Leds.init hz) h s) :
    Alternates s.sent ↔ EveryStep FitsTurn h := by
  rw [← hr.everyState_iff_last fun _ _ _ => alternates_of_step]
  refine hr.everyState_iff_under Tracked ⟨rfl, rfl⟩ ?_ ?_
  · exact trivial
  · intro h s l s' _ ht hstep
    exact step_tracked ht hstep

/-- With `HZ` 250: the pattern is changed while none is lit. -/
theorem run_alternates_changed : ∃ h s, Run (step 250) (Leds.init 250) h s ∧
    s.sent = [0xFF, 0xFA, 0xFF, 7] ∧ Alternates s.sent := by
  rcases exists_run_of_exec (step 250) (Leds.init 250)
    [.tick, .tick, .ioctl SETLED 0xFA, .tick, .tick]
    (fun h s => EveryStep FitsTurn h ∧ s.sent = [0xFF, 0xFA, 0xFF, 7])
    (by decide) with ⟨h, s, hr, hp⟩
  rcases of_decide_eq_true hp with ⟨hfits, hsent⟩
  exact ⟨h, s, hr, hsent, (run_alternates_iff hr).mpr hfits⟩

/-- The pattern is changed while the old one is lit, and is sent after it. -/
theorem run_two_patterns : ∃ h s, Run (step 250) (Leds.init 250) h s ∧
    s.sent = [2, 7] ∧ ¬ Alternates s.sent := by
  rcases exists_run_of_exec (step 250) (Leds.init 250) [.tick, .ioctl SETLED 2, .tick]
    (fun _ s => s.sent = [2, 7]) (by decide) with ⟨h, s, hr, hp⟩
  have hsent : s.sent = [2, 7] := of_decide_eq_true hp
  refine ⟨h, s, hr, hsent, fun halt => ?_⟩
  rw [hsent] at halt
  exact absurd (halt.1.mpr (by decide)) (by decide)

end Alternation

end Blink

end Timers

end KernelModules
