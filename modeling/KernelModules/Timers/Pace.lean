import KernelModules.Timers.Rearm
import KernelModules.Timers.SetDelay

/-!
# How Often the Callbacks Run

The callbacks of `helloplus.c` and `blinkplus.c` statement by statement, against
everybody who may set their timers or their delays: any number of callers of
`SET_DELAY` in `helloplus.c`, and `SETINV` in `blinkplus.c`, which only changes
what the callback reads.

Whoever sets the expiry adds a delay to the jiffies he finds. A caller may do so
to a timer that another one has added already, or under a callback, and the
callback may set it again before anybody has added it. Still a callback is never
started earlier than the smallest delay after its last start. It waits for its
last run to return, and by then the expiry has been set at least once since that
run began.

`my_timer.expires = jiffies + secs2hello` is one step here, as in `SetDelay`. A
caller that is preempted between the load of the jiffies and the store would
store an expiry of an earlier time, and the callback could come too early.

So the callback is started at most once for every such delay that has passed,
and the LEDs are set at most as often. For this a delay has to be one that the
signed comparison of times can tell from a time that has passed.

## Main definitions

* `Clock`: The ticks of a system, and the starts of its callback.
* `elapsed`, `starts`, `sinceStart`: The jiffies that have passed, the starts of
  the callback, and the jiffies since the last one, by the history.
* `Paced`: The law.
* `AtLeast`: The delays in question.
* `Waits`: The invariant of a timer.
* `Blinking`, `blinkStep`: `blinkplus.c`, statement by statement.
* `AsksDelay`, `AsksInterval`: The conditions on the ioctls.

## Theorems

* `starts_mul_le`: Starts that are apart are few.
* `le_of_due`: A timer that is due has waited.
* `step_delay`, `step_interval`: Steps of the two modules keep the invariant.
* `run_paced`: The law holds at the end of every run of the two modules.
-/

namespace KernelModules

namespace Timers

namespace Pace

open Kernel Lib

section Clocks

variable {S L : Type*}

/-- Which steps of a system are a jiffy, and which start the callback. -/
structure Clock (L : Type*) where
  isTick : L → Bool
  isStart : L → Bool

def elapsed (k : Clock L) (h : History S L) : Nat := h.countP fun p => k.isTick p.2

def starts (k : Clock L) (h : History S L) : Nat := h.countP fun p => k.isStart p.2

/-- The jiffies since the last start of the callback, after a step. -/
def Clock.next (k : Clock L) (l : L) (n : Nat) : Nat :=
  if k.isStart l then 0 else if k.isTick l then n + 1 else n

/-- The same from the start of a run on, which counts as one. -/
def sinceStart (k : Clock L) : History S L → Nat
  | [] => 0
  | (_, l) :: h => k.next l (sinceStart k h)

/-- The callback is started when `D` jiffies have passed since its last start. -/
def StartsApart (k : Clock L) (D : Nat) (h : History S L) (_ : S) (l : L) : Prop :=
  k.isStart l = true → D ≤ sinceStart k h

/-- The law: the starts are `D` jiffies apart, and so there is at most one for
    every `D` of them. -/
structure Paced (k : Clock L) (D : Nat) (h : History S L) : Prop where
  apart : EveryStep (StartsApart k D) h
  rate : starts k h * D ≤ elapsed k h

/-- Starts that are apart are few. -/
theorem starts_mul_le {k : Clock L} {D : Nat} {h : History S L}
    (hapart : EveryStep (StartsApart k D) h) :
    starts k h * D + sinceStart k h ≤ elapsed k h := by
  induction h with
  | nil => simp only [starts, elapsed, sinceStart, List.countP_nil, Nat.zero_mul, Nat.le_refl]
  | cons p h ih =>
      have ih := ih hapart.2
      have hnow := hapart.1
      unfold starts elapsed at ih ⊢
      rw [List.countP_cons, List.countP_cons, sinceStart, Clock.next]
      by_cases hstart : k.isStart p.2 = true
      · -- The jiffies since the start before pay for this one.
        have hlong := hnow hstart
        rw [if_pos hstart, if_pos hstart, Nat.succ_mul]
        omega
      · rw [if_neg hstart, if_neg hstart, Nat.add_zero]
        by_cases htick : k.isTick p.2 = true
        · rw [if_pos htick, if_pos htick]
          omega
        · rw [if_neg htick, if_neg htick]
          omega

theorem Paced.of_apart {k : Clock L} {D : Nat} {h : History S L}
    (hapart : EveryStep (StartsApart k D) h) : Paced k D h :=
  ⟨hapart, Nat.le_trans (Nat.le_add_right _ _) (starts_mul_le hapart)⟩

end Clocks

section Timer

/-- A delay of `D` jiffies or more, and less than half of what a word counts. -/
def AtLeast (D : Nat) (d : BitVec 64) : Prop := D ≤ d.toNat ∧ d.toNat < 2 ^ 63

instance (D : Nat) : DecidablePred (AtLeast D) := fun _ => inferInstanceAs (Decidable (_ ∧ _))

/-- Since its callback was last started, `n` jiffies ago, the timer was set with
    such a delay, unless the callback is still to do so. -/
def Waits (D n : Nat) (c : Core) : Prop :=
  c.callback ≠ .dequeued → ∃ (w : Nat) (d : BitVec 64), w ≤ n ∧ AtLeast D d ∧
    c.timer.expires + BitVec.ofNat 64 w = c.jiffies + d

variable {D n : Nat} {c c' : Core} {d : BitVec 64}

/-- A timer that was set `w` jiffies ago is not due before its delay is over. -/
theorem le_of_due {e j : BitVec 64} {w : Nat} (hd : AtLeast D d)
    (hset : e + BitVec.ofNat 64 w = j + d) (hdue : timeAfterEq j e = true) : D ≤ w := by
  by_contra hlt
  have hle := hd.1
  have hlong := hd.2
  have hsub : j - e = BitVec.ofNat 64 w - d := by bv_omega
  -- Else the difference is a little less than zero, and wraps.
  have hwrap : (BitVec.ofNat 64 w - d).toNat = 2 ^ 64 - d.toNat + w := by
    rw [BitVec.toNat_sub, BitVec.toNat_ofNat]
    omega
  unfold timeAfterEq at hdue
  rw [hsub, decide_eq_true_eq, BitVec.toInt_eq_toNat_cond, hwrap] at hdue
  split at hdue <;> omega

theorem Waits.congr (hw : Waits D n c)
    (hcallback : c'.callback ≠ .dequeued → c.callback ≠ .dequeued)
    (hexpires : c'.timer.expires = c.timer.expires) (hjiffies : c'.jiffies = c.jiffies) :
    Waits D n c' := by
  intro hidle
  rw [hexpires, hjiffies]
  exact hw (hcallback hidle)

theorem tick_waits (hw : Waits D n c) : Waits D (n + 1) (tick c) := by
  intro hidle
  rcases hw hidle with ⟨w, d, hwn, hd, hset⟩
  refine ⟨w + 1, d, Nat.succ_le_succ hwn, hd, ?_⟩
  simp only [tick]
  bv_omega

/-- Whoever sets the timer starts to wait. -/
theorem setExpires_waits (hd : AtLeast D d) :
    Waits D n { c with timer := { c.timer with expires := c.jiffies + d } } := by
  intro _
  exact ⟨0, d, Nat.zero_le n, hd, BitVec.add_zero _⟩

/-- Adding a timer does not set it. -/
theorem addTimer_expires (c : Core) :
    (addTimer c).timer.expires = c.timer.expires ∧ (addTimer c).jiffies = c.jiffies := by
  unfold addTimer
  split <;> exact ⟨rfl, rfl⟩

theorem addTimer_waits (hw : Waits D n c) : Waits D n (addTimer c) := by
  refine hw.congr ?_ (addTimer_expires c).1 (addTimer_expires c).2
  rw [addTimer_callback]
  exact id

theorem delTimer_waits (hw : Waits D n c) : Waits D n (delTimer c) := hw.congr id rfl rfl

/-- The callback is not started before. -/
theorem expire_waits (hw : Waits D n c) (h : expire c = some c') : D ≤ n ∧ Waits D 0 c' := by
  simp only [expire, Option.ite_none_right_eq_some, Option.some.injEq] at h
  rcases h with ⟨⟨-, hidle, hdue⟩, rfl⟩
  refine ⟨?_, fun hne => absurd rfl hne⟩
  have hne : c.callback ≠ .dequeued := by
    rw [hidle]
    exact CallbackPc.noConfusion
  rcases hw hne with ⟨w, d, hwn, hd, hset⟩
  exact Nat.le_trans (le_of_due hd hset hdue) hwn

theorem myTimerFunc_waits (hd : AtLeast D d) (hw : Waits D n c) (h : myTimerFunc d c = some c') :
    Waits D n c' := by
  unfold myTimerFunc at h
  cases hpc : c.callback with
  | idle => simp only [hpc, reduceCtorEq] at h
  | dequeued =>
      simp only [hpc, Option.some.injEq] at h
      rw [← h]
      exact fun _ => ⟨0, d, Nat.zero_le n, hd, BitVec.add_zero _⟩
  | expiresSet =>
      simp only [hpc, Option.some.injEq] at h
      rw [← h]
      have hadded := addTimer_waits hw
      refine hadded.congr (fun _ => ?_) rfl rfl
      rw [addTimer_callback, hpc]
      exact CallbackPc.noConfusion
  | added =>
      simp only [hpc, Option.some.injEq] at h
      rw [← h]
      refine hw.congr (fun _ => ?_) rfl rfl
      rw [hpc]
      exact CallbackPc.noConfusion

end Timer

section Hello

variable {ι : Type*}

def helloClock : Clock (SetDelay.Step ι) where
  isTick
    | .tick => true
    | .expire | .callback | .call _ _ | .run _ => false
  isStart
    | .expire => true
    | .tick | .callback | .call _ _ | .run _ => false

/-- A caller's delay, with zeros for the bytes behind a fault, is one of these. -/
def AsksDelay (D : Nat) : SetDelay.Step ι → Prop
  | .call _ arg => ∀ u ∈ arg, AtLeast D (toLong (copyFromUser u 8).2)
  | .tick | .expire | .callback | .run _ => True

instance (D : Nat) : DecidablePred (AsksDelay (ι := ι) D)
  | .call _ arg => Option.decidableForallMem arg
  | .tick | .expire | .callback | .run _ => .isTrue trivial

/-- A caller that will change the delay to one of these, if it gets there. -/
structure Asking (D : Nat) (c : SetDelay.Caller) : Prop where
  delay : ∀ u ∈ c.arg, AtLeast D (toLong (copyFromUser u 8).2)
  copies : c.pc = .copy → c.arg ≠ none

/-- The invariant of `helloplus.c`: the timer waits, and the delay it will be
    set with next is one of these. -/
structure HelloWaits (D n : Nat) (s : SetDelay.Sys ι) : Prop where
  core : Waits D n s.core
  delay : AtLeast D s.secs2hello
  callers : ∀ t c, s.callers t = some c → Asking D c

variable [DecidableEq ι] {D n : Nat} {s s' : SetDelay.Sys ι} {t : ι} {c : SetDelay.Caller}
  {l : SetDelay.Step ι}

/-- A caller on its way to a statement behind the copy, or out of the call. -/
theorem callers_goto {pc : SetDelay.Pc} (hs : ∀ t c, s.callers t = some c → Asking D c)
    (hc : Asking D c) (hpc : pc = .copy → c.arg ≠ none) :
    ∀ t' c', (s.goto t c pc).callers t' = some c' → Asking D c' := by
  intro t' c' hc'
  by_cases ht : t' = t
  · simp only [SetDelay.Sys.goto, ht, Function.update_self, Option.some.injEq] at hc'
    rw [← hc']
    exact ⟨hc.delay, hpc⟩
  · simp only [SetDelay.Sys.goto, Function.update_of_ne ht] at hc'
    exact hs t' c' hc'

/-- A statement of a caller keeps the invariant. -/
theorem stmt_delay (hs : HelloWaits D n s) (hc : s.callers t = some c)
    (hstmt : SetDelay.stmt t c s = some s') : HelloWaits D n s' := by
  have hask := hs.callers t c hc
  unfold SetDelay.stmt at hstmt
  cases hpc : c.pc with
  | argTest =>
      simp only [hpc, Option.some.injEq] at hstmt
      rw [← hstmt]
      refine ⟨hs.core, hs.delay, callers_goto hs.callers hask ?_⟩
      cases harg : c.arg with
      | none =>
          rw [Option.isNone_none, if_pos rfl]
          exact fun h => SetDelay.Pc.noConfusion h
      | some u => exact fun _ => Option.some_ne_none u
  | copy =>
      simp only [hpc, Option.some.injEq] at hstmt
      rw [← hstmt]
      rcases Option.ne_none_iff_exists'.mp (hask.copies hpc) with ⟨u, hu⟩
      refine ⟨hs.core, ?_, callers_goto hs.callers hask ?_⟩
      · show AtLeast D (toLong (copyFromUser (c.arg.getD fun _ => none) 8).2)
        rw [hu]
        exact hask.delay u hu
      · split <;> exact fun h => SetDelay.Pc.noConfusion h
  | delTimerSync =>
      simp only [hpc, Option.map_eq_some_iff, delTimerSync, Option.ite_none_right_eq_some,
        Option.some.injEq] at hstmt
      rcases hstmt with ⟨core, ⟨-, rfl⟩, rfl⟩
      exact ⟨delTimer_waits hs.core, hs.delay,
        callers_goto hs.callers hask fun h => SetDelay.Pc.noConfusion h⟩
  | setFunction =>
      simp only [hpc, Option.some.injEq] at hstmt
      rw [← hstmt]
      exact ⟨hs.core, hs.delay,
        callers_goto hs.callers hask fun h => SetDelay.Pc.noConfusion h⟩
  | setExpires =>
      -- The timer may be anybody's by now.
      simp only [hpc, Option.some.injEq] at hstmt
      rw [← hstmt]
      exact ⟨setExpires_waits hs.delay, hs.delay,
        callers_goto hs.callers hask fun h => SetDelay.Pc.noConfusion h⟩
  | addTimer =>
      simp only [hpc, Option.some.injEq] at hstmt
      rw [← hstmt]
      exact ⟨addTimer_waits hs.core, hs.delay,
        callers_goto hs.callers hask fun h => SetDelay.Pc.noConfusion h⟩
  | returned v =>
      simp only [hpc, Option.some.injEq] at hstmt
      rw [← hstmt]
      refine ⟨hs.core, hs.delay, fun t' c' hc' => ?_⟩
      by_cases ht : t' = t
      · simp only [ht, Function.update_self, reduceCtorEq] at hc'
      · simp only [Function.update_of_ne ht] at hc'
        exact hs.callers t' c' hc'

/-- Steps of `helloplus.c` keep the invariant, and the callback is not started
    too early. -/
theorem step_delay (hs : HelloWaits D n s) (hl : AsksDelay D l)
    (hstep : SetDelay.step l s = some s') : (helloClock.isStart l = true → D ≤ n) ∧
      HelloWaits D (helloClock.next l n) s' := by
  cases l with
  | tick =>
      rw [SetDelay.step_tick hstep]
      exact ⟨fun h => Bool.noConfusion h, tick_waits hs.core, hs.delay, hs.callers⟩
  | expire =>
      rcases SetDelay.step_expire hstep with ⟨core, hcore, rfl⟩
      rcases expire_waits hs.core hcore with ⟨hlong, hcore'⟩
      exact ⟨fun _ => hlong, hcore', hs.delay, hs.callers⟩
  | callback =>
      rcases SetDelay.step_callback hstep with ⟨core, hcore, rfl⟩
      exact ⟨fun h => Bool.noConfusion h, myTimerFunc_waits hs.delay hs.core hcore, hs.delay,
        hs.callers⟩
  | call t arg =>
      rw [SetDelay.step_call hstep]
      refine ⟨fun h => Bool.noConfusion h, hs.core, hs.delay, fun t' c' hc' => ?_⟩
      by_cases ht : t' = t
      · simp only [ht, Function.update_self, Option.some.injEq] at hc'
        rw [← hc']
        exact ⟨hl, fun h => SetDelay.Pc.noConfusion h⟩
      · simp only [Function.update_of_ne ht] at hc'
        exact hs.callers t' c' hc'
  | run t =>
      rcases SetDelay.step_run hstep with ⟨c, hc, hstmt⟩
      exact ⟨fun h => Bool.noConfusion h, stmt_delay hs hc hstmt⟩

end Hello

section Blink

/-- The timer of `blinkplus.c` and the variables. -/
structure Blinking where
  core : Core
  leds : Blink.Leds

def Blinking.loaded (jiffies : BitVec 64) (hz : BitVec 32) : Blinking :=
  { core := Core.armed jiffies ((Blink.Leds.init hz).curExpireJiffies.signExtend 64)
    leds := Blink.Leds.init hz }

inductive BlinkStep where
  | tick
  | expire
  | callback
  | ioctl (cmd arg : BitVec 32)

/-- Nothing runs any more once a `BUG_ON` was hit. The callback sets the LEDs
    before it sets the timer. -/
def blinkStep (hz : BitVec 32) : BlinkStep → Blinking → Option Blinking
  | l, s =>
    if s.core.bug then none
    else
      match l with
      | .tick => some { s with core := tick s.core }
      | .expire => (expire s.core).map fun core => { s with core := core }
      | .callback =>
        let leds := if s.core.callback = .dequeued then Blink.myTimerFunc s.leds else s.leds
        (myTimerFunc (leds.curExpireJiffies.signExtend 64) s.core).map fun core =>
          { core := core, leds := leds }
      | .ioctl cmd arg => some { s with leds := (Blink.blinkIoctl hz cmd arg s.leds).2 }

def blinkClock : Clock BlinkStep where
  isTick
    | .tick => true
    | .expire | .callback | .ioctl _ _ => false
  isStart
    | .expire => true
    | .tick | .callback | .ioctl _ _ => false

/-- The product with `HZ`, as far as an `int` holds it, is one of these. -/
def AsksInterval (hz : BitVec 32) (D : Nat) : BlinkStep → Prop
  | .ioctl cmd arg => cmd = Blink.SETINV → AtLeast D ((hz * arg).signExtend 64)
  | .tick | .expire | .callback => True

instance (hz : BitVec 32) (D : Nat) : DecidablePred (AsksInterval hz D)
  | .ioctl _ _ => inferInstanceAs (Decidable (_ → _))
  | .tick | .expire | .callback => .isTrue trivial

/-- The invariant of `blinkplus.c`: the LEDs are set once for each start of the
    callback, but for one that is still to do so. -/
structure BlinkWaits (D : Nat) (h : History Blinking BlinkStep) (s : Blinking) : Prop where
  core : Waits D (sinceStart blinkClock h) s.core
  delay : AtLeast D (s.leds.curExpireJiffies.signExtend 64)
  sent : s.leds.sent.length + (if s.core.callback = .dequeued then 1 else 0) = starts blinkClock h

variable {hz : BitVec 32} {D : Nat} {h : History Blinking BlinkStep} {s s' : Blinking}
  {l : BlinkStep}

/-- What the callback does to the LEDs. -/
theorem callback_sent {core : Core} {d : BitVec 64} (hcore : myTimerFunc d s.core = some core) :
    (if s.core.callback = .dequeued then Blink.myTimerFunc s.leds else s.leds).sent.length +
        (if core.callback = .dequeued then 1 else 0) =
      s.leds.sent.length + (if s.core.callback = .dequeued then 1 else 0) := by
  rcases myTimerFunc_spec hcore with ⟨hpc, hpc', -⟩ | ⟨hpc, hpc', -⟩ | ⟨hpc, hpc', -⟩
  · simp only [hpc, hpc', if_true, reduceCtorEq, if_false, Blink.myTimerFunc, List.length_cons,
      Nat.add_zero]
  · simp only [hpc, hpc', reduceCtorEq, if_false]
  · simp only [hpc, hpc', reduceCtorEq, if_false]

/-- Steps of `blinkplus.c` keep the invariant, and the callback is not started
    too early. -/
theorem step_interval (hs : BlinkWaits D h s) (hl : AsksInterval hz D l)
    (hstep : blinkStep hz l s = some s') :
    StartsApart blinkClock D h s l ∧ BlinkWaits D ((s, l) :: h) s' := by
  unfold blinkStep at hstep
  rw [Option.ite_none_left_eq_some] at hstep
  rcases hstep with ⟨-, hstep⟩
  have hstarts : ∀ l, starts blinkClock ((s, l) :: h) =
      starts blinkClock h + if blinkClock.isStart l = true then 1 else 0 := by
    intro l
    exact List.countP_cons
  cases l with
  | tick =>
      rw [Option.some.injEq] at hstep
      rw [← hstep]
      refine ⟨fun h => Bool.noConfusion h, tick_waits hs.core, hs.delay, ?_⟩
      rw [hstarts]
      exact hs.sent
  | expire =>
      rcases Option.map_eq_some_iff.mp hstep with ⟨core, hcore, rfl⟩
      rcases expire_waits hs.core hcore with ⟨hlong, hcore'⟩
      rcases expire_spec hcore with ⟨-, hidle, -, hstarted, -⟩
      refine ⟨fun _ => hlong, hcore', hs.delay, ?_⟩
      have hsent := hs.sent
      rw [hidle, if_neg CallbackPc.noConfusion] at hsent
      rw [hstarts, hstarted, if_pos rfl, ← hsent]
      rfl
  | callback =>
      rcases Option.map_eq_some_iff.mp hstep with ⟨core, hcore, rfl⟩
      have hdelay : AtLeast D ((if s.core.callback = .dequeued then Blink.myTimerFunc s.leds
          else s.leds).curExpireJiffies.signExtend 64) := by
        split <;> exact hs.delay
      refine ⟨fun h => Bool.noConfusion h, myTimerFunc_waits hdelay hs.core hcore, hdelay, ?_⟩
      rw [hstarts]
      exact (callback_sent hcore).trans hs.sent
  | ioctl cmd arg =>
      rw [Option.some.injEq] at hstep
      rw [← hstep]
      refine ⟨fun h => Bool.noConfusion h, hs.core, ?_, ?_⟩
      · by_cases hset : cmd = Blink.SETINV
        · simp only [Blink.blinkIoctl, if_pos hset]
          exact hl hset
        · simp only [Blink.blinkIoctl_interval _ _ _ hset]
          exact hs.delay
      · have hsame : (Blink.blinkIoctl hz cmd arg s.leds).2.sent = s.leds.sent :=
          (Blink.blinkIoctl_same cmd arg s.leds).1
        rw [hstarts]
        simp only [hsame]
        exact hs.sent

end Blink

section Runs

variable {ι : Type*} [DecidableEq ι] {hz : BitVec 32} {jh jb : BitVec 64} {D E : Nat}
  {hh : History (SetDelay.Sys ι) (SetDelay.Step ι)} {sh : SetDelay.Sys ι}
  {hb : History Blinking BlinkStep} {sb : Blinking}

/-- A timer as the module's init leaves it. -/
theorem armed_waits {j d : BitVec 64} (hd : AtLeast D d) : Waits D 0 (Core.armed j d) := by
  intro _
  exact ⟨0, d, Nat.le_refl 0, hd, BitVec.add_zero _⟩

theorem run_delay {secs : BitVec 64}
    (hr : Run SetDelay.step (SetDelay.Sys.loaded jh secs) hh sh) (hinit : AtLeast D secs)
    (hasks : EveryStep (fun _ _ l => AsksDelay D l) hh) :
    EveryStep (StartsApart helloClock D) hh ∧ HelloWaits D (sinceStart helloClock hh) sh := by
  refine hr.invariantUnder (fun h s => EveryStep (StartsApart helloClock D) h ∧
    HelloWaits D (sinceStart helloClock h) s) ?_ ?_ hasks
  · exact ⟨trivial, armed_waits hinit, hinit, fun t c hc => absurd hc.symm (Option.some_ne_none c)⟩
  · intro h s l s' _ hl hs hstep
    have hnext := step_delay hs.2 hl hstep
    exact ⟨⟨hnext.1, hs.1⟩, hnext.2⟩

theorem run_interval (hr : Run (blinkStep hz) (Blinking.loaded jb hz) hb sb)
    (hinit : AtLeast E ((Blink.Leds.init hz).curExpireJiffies.signExtend 64))
    (hasks : EveryStep (fun _ _ l => AsksInterval hz E l) hb) :
    EveryStep (StartsApart blinkClock E) hb ∧ BlinkWaits E hb sb := by
  refine hr.invariantUnder (fun h s => EveryStep (StartsApart blinkClock E) h ∧
    BlinkWaits E h s) ?_ ?_ hasks
  · exact ⟨trivial, armed_waits hinit, hinit, rfl⟩
  · intro h s l s' _ hl hs hstep
    have hnext := step_interval hs.2 hl hstep
    exact ⟨⟨hnext.1, hs.1⟩, hnext.2⟩

/-- In every run of either module whose delays are `D` or `E` jiffies at least,
    whoever set them and when, the callback is started that many jiffies after
    its last start, and no more often than that many pass; and neither are the
    LEDs set more often. -/
theorem run_paced
    (hrh : Run SetDelay.step (SetDelay.Sys.loaded jh (Rearm.INITIAL_SECS hz)) hh sh)
    (hrb : Run (blinkStep hz) (Blinking.loaded jb hz) hb sb)
    (hinith : AtLeast D (Rearm.INITIAL_SECS hz))
    (hasksh : EveryStep (fun _ _ l => AsksDelay D l) hh)
    (hinitb : AtLeast E ((Blink.Leds.init hz).curExpireJiffies.signExtend 64))
    (hasksb : EveryStep (fun _ _ l => AsksInterval hz E l) hb) :
    Paced helloClock D hh ∧ Paced blinkClock E hb ∧
      sb.leds.sent.length * E ≤ elapsed blinkClock hb := by
  rcases run_delay hrh hinith hasksh with ⟨hhello, -⟩
  rcases run_interval hrb hinitb hasksb with ⟨hblink, hwaits⟩
  have hpaced := Paced.of_apart hblink
  refine ⟨Paced.of_apart hhello, hpaced, Nat.le_trans (Nat.mul_le_mul_right E ?_) hpaced.rate⟩
  rw [← hwaits.sent]
  exact Nat.le_add_right _ _

/-- With `HZ` 10: two callers that set the timer under one another, around the
    wrap of the clock, and a `SETINV` of a second between two blinks. -/
theorem run_paced_twoCallers :
    ∃ (hh : History (SetDelay.Sys Nat) (SetDelay.Step Nat)) (hb : History Blinking BlinkStep)
      (sb : Blinking), Paced helloClock 3 hh ∧ Paced blinkClock 2 hb ∧
        starts helloClock hh = 2 ∧ elapsed helloClock hh = 9 ∧ sb.leds.sent.length = 2 := by
  rcases exists_run_of_exec SetDelay.step
    (SetDelay.Sys.loaded (-2) (Rearm.INITIAL_SECS 10) : SetDelay.Sys Nat)
    (List.flatten [
      [.call 0 (some fun k => some (if k = 0 then 4 else 0)),
        .call 1 (some fun k => some (if k = 0 then 3 else 0))],
      List.replicate 5 .tick, [.expire, .callback, .callback, .callback],
      List.replicate 3 (.run 0), List.replicate 4 (.run 1), List.replicate 3 (.run 0), [.tick],
      [.run 1], List.replicate 3 .tick, [.expire]])
    (fun h _ => EveryStep (fun _ _ l => AsksDelay 3 l) h ∧ starts helloClock h = 2 ∧
      elapsed helloClock h = 9)
    (by decide) with ⟨hh, sh, hrh, hph⟩
  rcases exists_run_of_exec (blinkStep 10) (Blinking.loaded (-1) 10)
    (List.flatten [[.tick, .tick, .expire, .callback, .ioctl Blink.SETINV 1, .callback, .callback],
      [.tick, .tick, .expire, .callback]])
    (fun h s => EveryStep (fun _ _ l => AsksInterval 10 2 l) h ∧ s.leds.sent.length = 2)
    (by decide) with ⟨hb, sb, hrb, hpb⟩
  rcases of_decide_eq_true hph with ⟨hasksh, hstarts, helapsed⟩
  rcases of_decide_eq_true hpb with ⟨hasksb, hsent⟩
  have hpaced := run_paced hrh hrb (by decide) hasksh (by decide) hasksb
  exact ⟨hh, hb, sb, hpaced.1, hpaced.2.1, hstarts, helapsed, hsent⟩

end Runs

end Pace

end Timers

end KernelModules
