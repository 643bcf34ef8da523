import KernelModules.Timers.Blink
import KernelModules.Timers.Callback
import Mathlib.Algebra.Group.Int.Defs
import Mathlib.Algebra.Group.Nat.Defs

/-!
# The Expiries of the Re-armed Timers

The timers of `blinkplus.c` and `helloplus.c` as their users see them: the
callback and the ioctls run from beginning to end, and every `add_timer` is
recorded with the jiffies it was executed at and the expiry it was given.

Both modules add a delay that user space has chosen to the jiffies, and
neither looks at it. `blinkplus.c` takes an `int`, multiplies it with `HZ` in
an `unsigned long` and keeps the low 32 bits of the product as an `int`;
`helloplus.c` takes an `unsigned long` as it is, or what was copied of it
before a fault. A delay that is not positive gives an expiry that is already
due, and the callback runs again without a pause.

What the two have in common is in `Periodic`: a delay kept in the module's
variables, a callback that leaves it alone, and an ioctl that either adds no
timer or adds it with the delay it leaves behind.

## Main definitions

* `Loaded`: A loaded module and its additions of the timer.
* `Periodic`, `Periodic.step`: A module with a timer that re-arms itself.
* `Periodic.Ahead`: The delay is positive, and every expiry was in the future.
* `helloIoctl`: The ioctls of `helloplus.c`.
* `blinkplus`, `helloplus`: The two modules.
* `PositiveInterval`, `PositiveDelay`: What their ioctls have to be given.

## Theorems

* `timeAfter_add`: A positive delay is ahead of any jiffies.
* `Periodic.expire_again`: After a delay that is not positive the callback is
  due at once.
* `Periodic.addsAhead_iff`: When a timer is always added ahead.
* `run_ahead_iff`: The same for the two modules and the arguments of their
  ioctls.
* `run_behind`: Delays of zero.
-/

namespace KernelModules

namespace Timers

namespace Rearm

open Kernel Lib

variable {V A : Type*}

def timeAfter (a b : BitVec 64) : Bool := (b - a).toInt < 0

/-- A loaded module: the clock and the timer, the module's variables, and for
    every `add_timer` the jiffies at that time and the expiry, the latest
    first. -/
structure Loaded (V : Type*) where
  core : Core
  vars : V
  added : List (BitVec 64 × BitVec 64)

/-- `my_timer.expires = jiffies + delay; add_timer(&my_timer);` -/
def Loaded.arm (delay : BitVec 64) (m : Loaded V) : Loaded V :=
  let timer := { m.core.timer with expires := m.core.jiffies + delay }
  { m with
    core := addTimer { m.core with timer := timer }
    added := (m.core.jiffies, timer.expires) :: m.added }

/-- A module whose timer re-arms itself. `delay` reads the delay from the
    variables, and `callback` is what the callback does to them. -/
structure Periodic (V A : Type*) where
  delay : V → BitVec 64
  callback : V → V
  ioctl : A → Loaded V → Loaded V
  delay_callback : ∀ v, delay (callback v) = delay v
  ioctl_added : ∀ a m, (ioctl a m).added = m.added ∨
    (ioctl a m).added = (m.core.jiffies, m.core.jiffies + delay (ioctl a m).vars) :: m.added

/-- The module's init sets the timer up the first time. -/
def Periodic.init (p : Periodic V A) (jiffies : BitVec 64) (v : V) : Loaded V :=
  let timer := { pending := false, expires := 0 }
  Loaded.arm (p.delay v)
    { core := { timer := timer, jiffies := jiffies, callback := .idle, bug := false }
      vars := v
      added := [] }

inductive Step (A : Type*) where
  | tick
  | expire
  | ioctl (a : A)

/-- The callback of a timer that is due. -/
def Periodic.expire (p : Periodic V A) (m : Loaded V) : Option (Loaded V) :=
  (Timers.expire m.core).map fun core =>
    let v := p.callback m.vars
    let m := Loaded.arm (p.delay v) { m with core := core, vars := v }
    { m with core := { m.core with callback := .idle } }

def Periodic.step (p : Periodic V A) : Step A → Loaded V → Option (Loaded V)
  | .tick, m => some { m with core := tick m.core }
  | .expire, m => p.expire m
  | .ioctl a, m => some (p.ioctl a m)

/-- Every `add_timer` was given an expiry after the jiffies it found. -/
def AddsAhead (m : Loaded V) : Prop := ∀ r ∈ m.added, timeAfter r.2 r.1 = true

/-- So it was, and the delay is positive, so that the next one will. -/
def Periodic.Ahead (p : Periodic V A) (m : Loaded V) : Prop :=
  0 < (p.delay m.vars).toInt ∧ AddsAhead m

/-- A condition on the arguments of the ioctls. -/
def Asks (C : A → Prop) (_ : History (Loaded V) (Step A)) (_ : Loaded V) : Step A → Prop
  | .ioctl a => C a
  | .tick | .expire => True

instance (m : Loaded V) : Decidable (AddsAhead m) := List.decidableBAll _ m.added

instance (C : A → Prop) [DecidablePred C] (h : History (Loaded V) (Step A)) (m : Loaded V) :
    (l : Step A) → Decidable (Asks C h m l)
  | .ioctl a => inferInstanceAs (Decidable (C a))
  | .tick | .expire => .isTrue trivial

section Periodic

variable {p : Periodic V A} {m m' : Loaded V} {h : History (Loaded V) (Step A)} {v : V}
  {j d : BitVec 64}

theorem sub_add_self (j d : BitVec 64) : j - (j + d) = -d := by
  rw [BitVec.sub_eq_add_neg, BitVec.neg_add, BitVec.sub_eq_add_neg, ← BitVec.add_assoc,
    BitVec.add_right_neg, BitVec.zero_add]

/-- A delay that is positive as a signed number is ahead of any jiffies, also
    where the sum wraps. -/
theorem timeAfter_add (hd : 0 < d.toInt) : timeAfter (j + d) j = true := by
  have hneg : (-d).toInt = -d.toInt := by
    refine BitVec.toInt_neg_of_ne_intMin ?_
    rintro rfl
    exact absurd hd (by decide)
  unfold timeAfter
  rw [sub_add_self, hneg, decide_eq_true_eq]
  omega

theorem addsAhead_cons {e : BitVec 64} (ha : AddsAhead m)
    (hadd : m'.added = (j, e) :: m.added) (he : timeAfter e j = true) : AddsAhead m' := by
  intro r hr
  rw [hadd, List.mem_cons] at hr
  rcases hr with rfl | hr
  · exact he
  · exact ha r hr

/-- The callback keeps the delay and adds the timer with it. -/
theorem Periodic.expire_spec (hstep : p.expire m = some m') :
    p.delay m'.vars = p.delay m.vars ∧
      m'.added = (m.core.jiffies, m.core.jiffies + p.delay m.vars) :: m.added ∧
      m'.core.jiffies = m.core.jiffies := by
  simp only [Periodic.expire, Option.map_eq_some_iff, Timers.expire,
    Option.ite_none_right_eq_some, Option.some.injEq] at hstep
  rcases hstep with ⟨core, ⟨-, rfl⟩, rfl⟩
  simp only [Loaded.arm, addTimer, p.delay_callback, Bool.false_eq_true, if_false, and_self]

/-- After a callback with a delay that is not positive the timer is due. -/
theorem Periodic.expire_again (hstep : p.expire m = some m')
    (hd : (p.delay m.vars).toInt ≤ 0) (hmin : p.delay m.vars ≠ BitVec.intMin 64) :
    (p.expire m').isSome = true := by
  simp only [Periodic.expire, Option.map_eq_some_iff, Timers.expire,
    Option.ite_none_right_eq_some, Option.some.injEq] at hstep
  rcases hstep with ⟨core, ⟨-, rfl⟩, rfl⟩
  have hneg : (-(p.delay m.vars)).toInt = -(p.delay m.vars).toInt :=
    BitVec.toInt_neg_of_ne_intMin hmin
  have hdue : timeAfterEq m.core.jiffies (m.core.jiffies + p.delay m.vars) = true := by
    rw [timeAfterEq, sub_add_self, hneg, decide_eq_true_eq]
    omega
  simp only [Periodic.expire, Option.isSome_map, Timers.expire, Loaded.arm, addTimer,
    p.delay_callback, Bool.false_eq_true, if_false, true_and, hdue, if_true, Option.isSome_some]

theorem Periodic.init_ahead (hd : 0 < (p.delay v).toInt) : p.Ahead (p.init j v) := by
  refine ⟨hd, ?_⟩
  intro r hr
  simp only [Periodic.init, Loaded.arm, List.mem_singleton] at hr
  rw [hr]
  exact timeAfter_add hd

/-- Where timers were added ahead so far they still are after a step exactly
    if the step leaves a positive delay behind. -/
theorem Periodic.step_ahead {C : A → Prop}
    (hC : ∀ a m, 0 < (p.delay m.vars).toInt → (0 < (p.delay (p.ioctl a m).vars).toInt ↔ C a))
    {l : Step A} (ha : p.Ahead m) (hstep : p.step l m = some m') :
    p.Ahead m' ↔ Asks C h m l := by
  cases l with
  | tick =>
      cases hstep
      exact iff_of_true ha trivial
  | expire =>
      rcases Periodic.expire_spec hstep with ⟨hdelay, hadd, -⟩
      refine iff_of_true ⟨?_, addsAhead_cons ha.2 hadd (timeAfter_add ha.1)⟩ trivial
      rw [hdelay]
      exact ha.1
  | ioctl a =>
      cases hstep
      refine Iff.trans ⟨fun h => h.1, fun hd => ⟨hd, ?_⟩⟩ (hC a m ha.1)
      rcases p.ioctl_added a m with hsame | hadd
      · unfold AddsAhead
        rw [hsame]
        exact ha.2
      · exact addsAhead_cons ha.2 hadd (timeAfter_add hd)

/-- A timer is always added ahead if the initial delay is positive and every
    ioctl keeps it so. -/
theorem Periodic.addsAhead_iff {C : A → Prop}
    (hC : ∀ a m, 0 < (p.delay m.vars).toInt → (0 < (p.delay (p.ioctl a m).vars).toInt ↔ C a))
    (hr : Run p.step (p.init j v) h m) :
    EveryState p.Ahead h m ↔ 0 < (p.delay v).toInt ∧ EveryStep (Asks C) h := by
  by_cases hd : 0 < (p.delay v).toInt
  · rw [and_iff_right hd]
    refine hr.everyState_iff_everyStep (Periodic.init_ahead hd) ?_
    intro h m l m' _ ha hstep
    exact Periodic.step_ahead hC ha hstep
  · exact iff_of_false (fun hall => hd (hr.init_of_everyState hall).1) (fun h => hd h.1)

end Periodic

/-- `blinkplus.c`, with the LEDs and ioctls of its own. The interval is an
    `int`, which the sum with the jiffies extends. -/
def blinkplus (hz : BitVec 32) : Periodic Blink.Leds (BitVec 32 × BitVec 32) where
  delay v := v.curExpireJiffies.signExtend 64
  callback := Blink.myTimerFunc
  ioctl a m := { m with vars := (Blink.blinkIoctl hz a.1 a.2 m.vars).2 }
  delay_callback _ := rfl
  ioctl_added _ _ := .inl rfl

def MAGIC : BitVec 32 := 0x7A
def GET_DELAY : BitVec 32 := ior MAGIC 1 8
def SET_DELAY : BitVec 32 := iow MAGIC 2 8

/-- `INITIAL_SECS`. -/
def INITIAL_SECS (hz : BitVec 32) : BitVec 64 := (hz.sdiv 2).signExtend 64

/-- `hello_ioctl` with the pointer it was passed, `none` for NULL: what it
    returns, the user's memory and the module. The one variable of the module
    is `secs2hello`. -/
def helloIoctl (cmd : BitVec 32) (arg : Option UserMem) (m : Loaded (BitVec 64)) :
    Int × Option UserMem × Loaded (BitVec 64) :=
  if cmd = GET_DELAY then
    match arg with
    | none => (-EINVAL, none, m)
    | some u =>
      let r := copyToUser u (ofLong m.vars)
      (if r.1 ≠ 0 then -EFAULT else 0, some r.2, m)
  else if cmd = SET_DELAY then
    match arg with
    | none => (-EINVAL, none, m)
    | some u =>
      let r := copyFromUser u 8
      let m := { m with vars := toLong r.2 }
      if r.1 ≠ 0 then (-EFAULT, some u, m)
      -- No callback is running that `del_timer_sync` would have to wait for.
      else (0, some u, Loaded.arm m.vars { m with core := delTimer m.core })
  else (-ENOTTY, arg, m)

/-- Only a `SET_DELAY` changes anything: the delay, also where the copy faults,
    and otherwise it adds the timer with it. -/
theorem helloIoctl_spec (cmd : BitVec 32) (arg : Option UserMem) (m : Loaded (BitVec 64)) :
    ((cmd = SET_DELAY → arg = none) ∧ (helloIoctl cmd arg m).2.2 = m) ∨
      ∃ u, cmd = SET_DELAY ∧ arg = some u ∧
        (helloIoctl cmd arg m).2.2.vars = toLong (copyFromUser u 8).2 ∧
        ((helloIoctl cmd arg m).2.2.added = m.added ∨ (helloIoctl cmd arg m).2.2.added =
          (m.core.jiffies, m.core.jiffies + (helloIoctl cmd arg m).2.2.vars) :: m.added) := by
  unfold helloIoctl
  by_cases hget : cmd = GET_DELAY
  · rw [if_pos hget]
    have hset : cmd ≠ SET_DELAY := by
      rw [hget]
      decide
    refine .inl ⟨fun h => absurd h hset, ?_⟩
    cases arg <;> rfl
  · rw [if_neg hget]
    by_cases hset : cmd = SET_DELAY
    · rw [if_pos hset]
      cases arg with
      | none => exact .inl ⟨fun _ => rfl, rfl⟩
      | some u =>
          refine .inr ⟨u, hset, rfl, ?_⟩
          by_cases hfault : (copyFromUser u 8).1 = 0
          · simp only [hfault, ne_eq, not_true_eq_false, if_false]
            exact ⟨rfl, .inr rfl⟩
          · simp only [ne_eq, hfault, not_false_eq_true, if_true, true_or, and_self]
    · rw [if_neg hset]
      exact .inl ⟨fun h => absurd h hset, rfl⟩

theorem helloIoctl_added (a : BitVec 32 × Option UserMem) (m : Loaded (BitVec 64)) :
    (helloIoctl a.1 a.2 m).2.2.added = m.added ∨
      (helloIoctl a.1 a.2 m).2.2.added =
        (m.core.jiffies, m.core.jiffies + (helloIoctl a.1 a.2 m).2.2.vars) :: m.added := by
  rcases helloIoctl_spec a.1 a.2 m with ⟨-, hsame⟩ | ⟨u, -, -, -, hadded⟩
  · rw [hsame]
    exact .inl rfl
  · exact hadded

/-- `helloplus.c`, whose callback does nothing else. -/
def helloplus : Periodic (BitVec 64) (BitVec 32 × Option UserMem) where
  delay v := v
  callback v := v
  ioctl a m := (helloIoctl a.1 a.2 m).2.2
  delay_callback _ := rfl
  ioctl_added := helloIoctl_added

/-- The laws of the two modules, with their delays in their own types: an `int`
    and an `unsigned long`. -/
def BlinkAhead (m : Loaded Blink.Leds) : Prop :=
  0 < m.vars.curExpireJiffies.toInt ∧ AddsAhead m
def HelloAhead (m : Loaded (BitVec 64)) : Prop :=
  (0 < m.vars.toNat ∧ m.vars.toNat < 2 ^ 63) ∧ AddsAhead m

/-- A `SETINV` whose product with `HZ`, cut to 32 bits, is a positive `int`. -/
def PositiveInterval (hz : BitVec 32) (a : BitVec 32 × BitVec 32) : Prop :=
  a.1 = Blink.SETINV →
    0 < hz.toInt * a.2.toInt % 2 ^ 32 ∧ hz.toInt * a.2.toInt % 2 ^ 32 < 2 ^ 31

/-- A `SET_DELAY` whose `long` is positive, with zeros for the bytes behind a
    fault. -/
def PositiveDelay (a : BitVec 32 × Option UserMem) : Prop :=
  a.1 = SET_DELAY → ∀ u ∈ a.2, 0 < (toLong (copyFromUser u 8).2).toInt

instance (hz : BitVec 32) : DecidablePred (PositiveInterval hz) := fun a =>
  inferInstanceAs (Decidable (a.1 = Blink.SETINV → _ ∧ _))

instance : DecidablePred PositiveDelay := fun a =>
  haveI := Option.decidableForallMem
    (p := fun u : UserMem => 0 < (toLong (copyFromUser u 8).2).toInt) a.2
  inferInstanceAs (Decidable (a.1 = SET_DELAY → _))

section Modules

variable {hz j : BitVec 32} {jb jh : BitVec 64}

/-- The product of two numbers cut to 32 bits is a positive `int`. -/
theorem toInt_mul_pos (a b : BitVec 32) : 0 < (a * b).toInt ↔
    0 < a.toInt * b.toInt % 2 ^ 32 ∧ a.toInt * b.toInt % 2 ^ 32 < 2 ^ 31 := by
  rw [BitVec.toInt_mul, Int.bmod_def]
  split <;> omega

/-- After a `SETINV` the interval is positive exactly as its argument says. -/
theorem blinkplus_positive (a : BitVec 32 × BitVec 32) (m : Loaded Blink.Leds)
    (hm : 0 < ((blinkplus hz).delay m.vars).toInt) :
    0 < ((blinkplus hz).delay ((blinkplus hz).ioctl a m).vars).toInt ↔ PositiveInterval hz a := by
  simp only [blinkplus, BitVec.toInt_signExtend_of_le (show 32 ≤ 64 by omega)] at hm ⊢
  unfold PositiveInterval
  by_cases hset : a.1 = Blink.SETINV
  · rw [← toInt_mul_pos, Blink.blinkIoctl, if_pos hset]
    exact ⟨fun h _ => h, fun h => h hset⟩
  · refine iff_of_true ?_ (fun h => absurd h hset)
    rw [Blink.blinkIoctl_interval _ _ _ hset]
    exact hm

theorem helloplus_positive (a : BitVec 32 × Option UserMem) (m : Loaded (BitVec 64))
    (hm : 0 < (helloplus.delay m.vars).toInt) :
    0 < (helloplus.delay (helloplus.ioctl a m).vars).toInt ↔ PositiveDelay a := by
  unfold PositiveDelay
  rcases helloIoctl_spec a.1 a.2 m with ⟨hnone, hsame⟩ | ⟨u, hcmd, harg, hvars, -⟩
  · refine iff_of_true ?_ ?_
    · simp only [helloplus, hsame]
      exact hm
    · intro hset u hu
      rw [hnone hset] at hu
      exact absurd hu (Option.not_mem_none u)
  · unfold helloplus
    rw [hvars, harg, hcmd]
    simp only [Option.mem_def, Option.some.injEq, forall_eq', true_implies]

/-- A fraction of `HZ` is positive if `HZ` is at least the divisor. -/
theorem sdiv_pos {k : BitVec 32} (hk : 1 < k.toInt) :
    0 < (hz.sdiv k).toInt ↔ k.toInt ≤ hz.toInt := by
  have hne : k ≠ -1 := by
    rintro rfl
    exact absurd hk (by decide)
  rw [BitVec.toInt_sdiv_of_ne_or_ne hz k (.inr hne)]
  constructor
  · intro hpos
    by_contra hlt
    by_cases hneg : 0 ≤ hz.toInt
    · rw [Int.tdiv_eq_zero_of_lt hneg (by omega)] at hpos
      omega
    · have hneg := Int.tdiv_nonneg (show 0 ≤ -hz.toInt by omega) (show 0 ≤ k.toInt by omega)
      rw [Int.neg_tdiv] at hneg
      omega
  · intro hle
    have := Int.le_tdiv_of_mul_le (show 0 < k.toInt by omega)
      (show 1 * k.toInt ≤ hz.toInt by omega)
    omega

theorem blinkplus_init_positive :
    0 < ((blinkplus hz).delay (Blink.Leds.init hz)).toInt ↔ 5 ≤ hz.toInt := by
  unfold blinkplus Blink.Leds.init
  rw [BitVec.toInt_signExtend_of_le (by omega)]
  exact sdiv_pos (by decide)

theorem helloplus_init_positive :
    0 < (helloplus.delay (INITIAL_SECS hz)).toInt ↔ 2 ≤ hz.toInt := by
  unfold helloplus INITIAL_SECS
  rw [BitVec.toInt_signExtend_of_le (by omega)]
  exact sdiv_pos (by decide)

/-- Both modules always add their timers ahead of the jiffies, with delays
    that are positive in their own types, exactly if `HZ` leaves the initial
    ones positive and every `SETINV` and `SET_DELAY` asks for such a delay. -/
theorem run_ahead_iff {hb : History (Loaded Blink.Leds) (Step (BitVec 32 × BitVec 32))}
    {mb : Loaded Blink.Leds} {hh : History (Loaded (BitVec 64)) (Step (BitVec 32 × Option UserMem))}
    {mh : Loaded (BitVec 64)}
    (hrb : Run (blinkplus hz).step ((blinkplus hz).init jb (Blink.Leds.init hz)) hb mb)
    (hrh : Run helloplus.step (helloplus.init jh (INITIAL_SECS hz)) hh mh) :
    EveryState BlinkAhead hb mb ∧ EveryState HelloAhead hh mh ↔
      5 ≤ hz.toInt ∧ EveryStep (Asks (PositiveInterval hz)) hb ∧
        EveryStep (Asks PositiveDelay) hh := by
  have hblink := Periodic.addsAhead_iff blinkplus_positive hrb
  have hhello := Periodic.addsAhead_iff helloplus_positive hrh
  rw [blinkplus_init_positive] at hblink
  rw [helloplus_init_positive] at hhello
  -- The laws of the two drivers are the general one, in their own types.
  have hint : ∀ m, BlinkAhead m ↔ (blinkplus hz).Ahead m := by
    intro m
    unfold BlinkAhead Periodic.Ahead blinkplus
    rw [BitVec.toInt_signExtend_of_le (by omega)]
  have hlong : ∀ m, HelloAhead m ↔ helloplus.Ahead m := by
    intro m
    refine and_congr_left fun _ => ?_
    rw [show (helloplus.delay m.vars).toInt = m.vars.toInt from rfl, BitVec.toInt_eq_toNat_cond]
    have := m.vars.isLt
    split <;> omega
  rw [hrb.everyState_iff fun _ m _ => hint m, hrh.everyState_iff fun _ m _ => hlong m, hblink,
    hhello]
  constructor
  · rintro ⟨⟨hhz, hb⟩, -, hh⟩
    exact ⟨hhz, hb, hh⟩
  · rintro ⟨hhz, hb, hh⟩
    exact ⟨⟨hhz, hb⟩, by omega, hh⟩

/-- Delays of some jiffies for both, around the wrap of the clock. -/
theorem run_ahead_wrapped : ∃ hb mb hh mh,
    Run (blinkplus 5).step ((blinkplus 5).init (-2) (Blink.Leds.init 5)) hb mb ∧
      Run helloplus.step (helloplus.init (-1) (INITIAL_SECS 5)) hh mh ∧
      EveryState BlinkAhead hb mb ∧ EveryState HelloAhead hh mh ∧
      mb.added.length = 3 ∧ mh.added.length = 3 := by
  rcases exists_run_of_exec (blinkplus 5).step ((blinkplus 5).init (-2) (Blink.Leds.init 5))
    ([.tick, .expire, .ioctl (Blink.SETINV, 2), .tick, .expire])
    (fun h m => EveryStep (Asks (PositiveInterval 5)) h ∧ m.added.length = 3)
    (by decide) with ⟨hb, mb, hrb, hpb⟩
  rcases exists_run_of_exec helloplus.step (helloplus.init (-1) (INITIAL_SECS 5))
    [.tick, .tick, .expire, .ioctl (SET_DELAY, some fun k => some (if k = 0 then 9 else 0))]
    (fun h m => EveryStep (Asks PositiveDelay) h ∧ m.added.length = 3)
    (by decide) with ⟨hh, mh, hrh, hph⟩
  rcases of_decide_eq_true hpb with ⟨hasksb, hlenb⟩
  rcases of_decide_eq_true hph with ⟨hasksh, hlenh⟩
  have hahead := (run_ahead_iff hrb hrh).mpr ⟨by decide, hasksb, hasksh⟩
  exact ⟨hb, mb, hh, mh, hrb, hrh, hahead.1, hahead.2, hlenb, hlenh⟩

/-- With `HZ` 250, `SETINV` and `SET_DELAY` of zero: both add their timers for
    the present. -/
theorem run_behind :
    (∃ h m, Run (blinkplus 250).step ((blinkplus 250).init 0 (Blink.Leds.init 250)) h m ∧
      ¬ EveryState BlinkAhead h m) ∧
    ∃ h m, Run helloplus.step (helloplus.init 0 (INITIAL_SECS 250)) h m ∧
      ¬ EveryState HelloAhead h m ∧ ¬ AddsAhead m := by
  rcases exists_run_of_exec (blinkplus 250).step ((blinkplus 250).init 0 (Blink.Leds.init 250))
    [.ioctl (Blink.SETINV, 0)] (fun _ m => ¬ 0 < m.vars.curExpireJiffies.toInt)
    (by decide) with ⟨h, m, hr, hp⟩
  rcases exists_run_of_exec helloplus.step (helloplus.init 0 (INITIAL_SECS 250))
    [.ioctl (SET_DELAY, some fun _ => some 0)] (fun _ m => ¬ AddsAhead m)
    (by decide) with ⟨h', m', hr', hp'⟩
  have hzero : ¬ 0 < m.vars.curExpireJiffies.toInt := of_decide_eq_true hp
  have hbehind : ¬ AddsAhead m' := of_decide_eq_true hp'
  exact ⟨⟨h, m, hr, fun hall => hzero hall.1.1⟩, h', m', hr', fun hall => hbehind hall.1.2, hbehind⟩

end Modules

end Rearm

end Timers

end KernelModules
