import KernelModules.Timers.Blink
import Mathlib.Algebra.Group.Int.Defs

/-!
# What the Ioctls of blinkplus.c Set

`SETINV` is read back by `GETINV`, and `SETLED` replaces what was selected.
Both hold for the values the ioctls are meant for, and for no others.

The interval is multiplied with `HZ` and kept in an `int`, and `GETINV`
divides by `HZ` again. The division makes up for a product that fits an
`int`; a larger one has lost its upper bits, and no interval that did so comes
back. `SETLED` clears the three bits of `ALL_LEDS_ON` and sets the bits of its
argument. A bit outside the mask is never cleared again.

## Main definitions

* `KeepsInterval`: A step that is no `SETINV`.
* `ReadsBack`: The next `GETINV` returns the number.
* `InMask`, `SetsInMask`: A selection within `ALL_LEDS_ON`, and a `SETLED`
  that asks for one.
* `lastSetled`: What the last `SETLED` asked for.

## Theorems

* `setinv_product`: The product in an `unsigned long`, cut to an `int`.
* `sdiv_mul_iff`: A product is undone exactly if it fits.
* `getinv_setinv_iff`: When `GETINV` returns what `SETINV` was given.
* `getinv_setinv_wraps`: An interval that does not come back.
* `run_selected`: The selection is the last one asked for.
* `run_setled_iff`: When selections stay in the mask and forget the past.
* `run_setled_past`: A selection that does not.
-/

namespace KernelModules

namespace Timers

namespace Blink

open Kernel Lib

variable {hz : BitVec 32} {h h' : History Leds Step} {s s' : Leds} {l : Step}

section Interval

/-- Any step but a `SETINV`. -/
def KeepsInterval (_ : History Leds Step) (_ : Leds) : Step → Prop
  | .tick => True
  | .ioctl cmd _ => cmd ≠ SETINV

/-- The next `GETINV`, before another `SETINV`, returns `n`. -/
def ReadsBack (hz : BitVec 32) (s : Leds) (n : BitVec 32) : Prop :=
  ∀ h' s' arg, Run (step hz) s h' s' → EveryStep KeepsInterval h' →
    (blinkIoctl hz GETINV arg s').1 = n.toInt

/-- In C the product is one of `unsigned long`s and is cut to an `int`. -/
theorem setinv_product (hz arg : BitVec 32) :
    (hz.signExtend 64 * arg.signExtend 64).setWidth 32 = hz * arg := by
  have hlow : ∀ v : BitVec 32, (v.signExtend 64).setWidth 32 = v := by
    intro v
    ext i hi
    rw [BitVec.getElem_setWidth, BitVec.getLsbD_signExtend, if_pos hi,
      BitVec.getLsbD_eq_getElem hi, decide_eq_true (by omega), Bool.true_and]
  rw [BitVec.setWidth_mul _ _ (by omega), hlow, hlow]

/-- A division takes a product back exactly if the product fits. -/
theorem sdiv_mul_iff {a b : BitVec 32} (ha : 0 < a.toInt) :
    ((a * b).sdiv a).toInt = b.toInt ↔
      -2 ^ 31 ≤ a.toInt * b.toInt ∧ a.toInt * b.toInt < 2 ^ 31 := by
  have hne : a ≠ -1 := by
    rintro rfl
    exact absurd ha (by decide)
  have hlt := BitVec.toInt_lt (x := a)
  rw [BitVec.toInt_sdiv_of_ne_or_ne _ a (.inr hne), BitVec.toInt_mul]
  constructor
  · -- What the division leaves over is less than `a` and divisible by 2^32.
    intro hdiv
    have hsum := Int.mul_tdiv_add_tmod ((a.toInt * b.toInt).bmod (2 ^ 32)) a.toInt
    have hrest := Int.tmod_lt_of_pos ((a.toInt * b.toInt).bmod (2 ^ 32)) ha
    have hrest' := Int.lt_tmod_of_pos ((a.toInt * b.toInt).bmod (2 ^ 32)) ha
    have hcut := Int.bmod_def (a.toInt * b.toInt) (2 ^ 32)
    rw [hdiv] at hsum
    split at hcut <;> omega
  · rintro ⟨hlow, hhigh⟩
    rw [Int.bmod_eq_of_le (by omega) (by omega), Int.mul_tdiv_cancel_left _ (by omega)]

/-- No step but a `SETINV` changes the interval. -/
theorem step_interval (hkeeps : KeepsInterval h s l)
    (hstep : step hz l s = some s') : s'.curExpireJiffies = s.curExpireJiffies := by
  cases l with
  | tick =>
      cases hstep
      rfl
  | ioctl cmd arg =>
      cases hstep
      exact blinkIoctl_interval cmd arg s hkeeps

theorem blinkIoctl_setinv (hz n : BitVec 32) (s : Leds) :
    blinkIoctl hz SETINV n s = (0, { s with curExpireJiffies := hz * n }) := by
  rw [blinkIoctl, if_pos rfl]

theorem blinkIoctl_getinv (hz arg : BitVec 32) (s : Leds) :
    (blinkIoctl hz GETINV arg s).1 = (s.curExpireJiffies.sdiv hz).toInt := by
  rw [blinkIoctl, if_neg (by decide), if_pos rfl]

/-- Whatever was set before: an interval is refused or read back exactly if
    its product with `HZ` fits an `int`. -/
theorem getinv_setinv_iff (hhz : 1 ≤ hz.toInt) (n : BitVec 32) (s : Leds) :
    (((blinkIoctl hz SETINV n s).1 ≠ 0 ∧
        (blinkIoctl hz SETINV n s).2.curExpireJiffies = s.curExpireJiffies) ∨
      ReadsBack hz (blinkIoctl hz SETINV n s).2 n) ↔
      -2 ^ 31 ≤ hz.toInt * n.toInt ∧ hz.toInt * n.toInt < 2 ^ 31 := by
  rw [← sdiv_mul_iff (show 0 < hz.toInt by omega), blinkIoctl_setinv]
  constructor
  · rintro (⟨hret, -⟩ | hreads)
    · exact absurd rfl hret
    · have hget := hreads [] _ 0 .start trivial
      rw [blinkIoctl_getinv] at hget
      exact hget
  · intro hdiv
    refine .inr fun h' s' arg hr hkeeps => ?_
    have hsame : s'.curExpireJiffies = hz * n := by
      refine hr.invariantUnder (fun _ s' => s'.curExpireJiffies = hz * n) rfl ?_ hkeeps
      intro h s l s' _ hkeeps hs hstep
      rw [step_interval hkeeps hstep, hs]
    rw [blinkIoctl_getinv, hsame, hdiv]

/-- Thirty seconds, with `HZ` 250. -/
theorem getinv_setinv_seconds : ReadsBack 250 (blinkIoctl 250 SETINV 30 (Leds.init 250)).2 30 :=
  ((getinv_setinv_iff (by decide) 30 (Leds.init 250)).mpr (by decide)).resolve_left
    fun hrefused => hrefused.1 rfl

/-- Ten million seconds are accepted as well, and `GETINV` returns another
    number. -/
theorem getinv_setinv_wraps :
    (blinkIoctl 250 SETINV 10000000 (Leds.init 250)).1 = 0 ∧
      ¬ ReadsBack 250 (blinkIoctl 250 SETINV 10000000 (Leds.init 250)).2 10000000 := by
  refine ⟨rfl, fun hreads => ?_⟩
  exact absurd (hreads [] _ 0 .start trivial) (by decide)

end Interval

section Selection

/-- A selection within `ALL_LEDS_ON`. -/
def InMask (s : Leds) : Prop :=
  0 ≤ s.selectedLed.toInt ∧ s.selectedLed.toInt ≤ ALL_LEDS_ON.toInt

/-- If the step is a `SETLED`, it asks for a selection within `ALL_LEDS_ON`. -/
def SetsInMask (_ : History Leds Step) (_ : Leds) : Step → Prop
  | .tick => True
  | .ioctl cmd arg => cmd = SETLED → 0 ≤ arg.toInt ∧ arg.toInt ≤ ALL_LEDS_ON.toInt

/-- What the last `SETLED` asked for. -/
def lastSetled : History Leds Step → Option (BitVec 32)
  | [] => none
  | (_, .tick) :: h => lastSetled h
  | (_, .ioctl cmd arg) :: h => if cmd = SETLED then some arg else lastSetled h

instance (h : History Leds Step) (s : Leds) : (l : Step) → Decidable (SetsInMask h s l)
  | .tick => .isTrue trivial
  | .ioctl _ _ => inferInstanceAs (Decidable (_ = SETLED → _ ∧ _))

instance (s : Leds) : Decidable (InMask s) := inferInstanceAs (Decidable (_ ∧ _))

/-- A number fits the mask if it has no bit from bit three on. -/
theorem fits_mask_iff (v : BitVec 32) :
    0 ≤ v.toInt ∧ v.toInt ≤ ALL_LEDS_ON.toInt ↔ ∀ i, 3 ≤ i → v.getLsbD i = false := by
  have hnat : 0 ≤ v.toInt ∧ v.toInt ≤ ALL_LEDS_ON.toInt ↔ v.toNat < 2 ^ 3 := by
    rw [show ALL_LEDS_ON.toInt = 7 from rfl, BitVec.toInt_eq_toNat_cond]
    have := v.isLt
    split <;> omega
  rw [hnat]
  constructor
  · intro hlt i hi
    exact Nat.testBit_lt_two_pow (Nat.lt_of_lt_of_le hlt (Nat.pow_le_pow_right (by omega) hi))
  · intro hbits
    exact Nat.lt_pow_two_of_testBit _ hbits

/-- What `SETLED` leaves in each bit. -/
theorem setled_bit (sel arg : BitVec 32) (i : Nat) :
    ((sel &&& ~~~ALL_LEDS_ON) ||| arg).getLsbD i =
      ((sel.getLsbD i && decide (3 ≤ i)) || arg.getLsbD i) := by
  have hmask : ALL_LEDS_ON.getLsbD i = decide (i < 3) := Nat.testBit_two_pow_sub_one 3 i
  rw [BitVec.getLsbD_or, BitVec.getLsbD_and, BitVec.getLsbD_not, hmask, ← decide_not]
  by_cases hi : i < 32
  · rw [decide_eq_true hi, Bool.true_and, decide_eq_decide.mpr Nat.not_lt]
  · rw [BitVec.getLsbD_of_ge sel i (by omega), Bool.false_and, Bool.false_and]

theorem blinkIoctl_setled (hz arg : BitVec 32) (s : Leds) :
    (blinkIoctl hz SETLED arg s).2.selectedLed =
      (s.selectedLed &&& ~~~ALL_LEDS_ON) ||| arg := by
  rw [blinkIoctl, if_neg (by decide), if_neg (by decide), if_pos rfl]

/-- Only `SETLED` touches the selection. -/
theorem blinkIoctl_selected (cmd arg : BitVec 32) (s : Leds) (hset : cmd ≠ SETLED) :
    (blinkIoctl hz cmd arg s).2.selectedLed = s.selectedLed := by
  unfold blinkIoctl
  split
  · rfl
  · split <;> rfl

/-- From a selection in the mask, `SETLED` stays in it exactly if asked to. -/
theorem setled_inMask {sel arg : BitVec 32} (hsel : ∀ i, 3 ≤ i → sel.getLsbD i = false) :
    (∀ i, 3 ≤ i → ((sel &&& ~~~ALL_LEDS_ON) ||| arg).getLsbD i = false) ↔
      ∀ i, 3 ≤ i → arg.getLsbD i = false := by
  refine forall₂_congr fun i hi => ?_
  rw [setled_bit, hsel i hi, Bool.false_and, Bool.false_or]

/-- And then the selection is what was asked for. -/
theorem setled_eq {sel arg : BitVec 32} (hsel : ∀ i, 3 ≤ i → sel.getLsbD i = false) :
    (sel &&& ~~~ALL_LEDS_ON) ||| arg = arg := by
  refine BitVec.eq_of_getLsbD_eq fun i _ => ?_
  rw [setled_bit]
  by_cases hi : 3 ≤ i
  · rw [hsel i hi, Bool.false_and, Bool.false_or]
  · rw [decide_eq_false hi, Bool.and_false, Bool.false_or]

/-- The selection stays in the mask exactly if every `SETLED` asks for it. -/
theorem run_inMask_iff (hr : Run (step hz) (Leds.init hz) h s) :
    EveryState InMask h s ↔ EveryStep SetsInMask h := by
  have hinit : InMask (Leds.init hz) :=
    show 0 ≤ ALL_LEDS_ON.toInt ∧ ALL_LEDS_ON.toInt ≤ ALL_LEDS_ON.toInt by decide
  refine hr.everyState_iff_everyStep hinit ?_
  intro h s l s' _ hs hstep
  cases l with
  | tick =>
      cases hstep
      exact iff_of_true hs trivial
  | ioctl cmd arg =>
      cases hstep
      unfold SetsInMask InMask at *
      by_cases hset : cmd = SETLED
      · simp only [hset, true_implies, blinkIoctl_setled]
        rw [fits_mask_iff] at hs ⊢
        rw [fits_mask_iff]
        exact setled_inMask hs
      · rw [blinkIoctl_selected cmd arg s hset]
        exact iff_of_true hs (fun h => absurd h hset)

/-- Within the mask the selection is the last one asked for. -/
theorem run_selected (hr : Run (step hz) (Leds.init hz) h s) (hin : EveryStep SetsInMask h) :
    s.selectedLed = (lastSetled h).getD ALL_LEDS_ON := by
  induction hr with
  | start => rfl
  | next l hr hstep ih =>
      have hs := ((run_inMask_iff hr).mpr hin.2).1
      cases l with
      | tick =>
          cases hstep
          exact ih hin.2
      | ioctl cmd arg =>
          cases hstep
          by_cases hset : cmd = SETLED
          · rw [lastSetled, if_pos hset, Option.getD_some, hset, blinkIoctl_setled]
            exact setled_eq ((fits_mask_iff _).mp hs)
          · rw [lastSetled, if_neg hset, blinkIoctl_selected cmd arg _ hset]
            exact ih hin.2

/-- In two runs the selections stay in the mask, and are the same after the
    same `SETLED`, exactly if every `SETLED` in them asks for a selection in
    the mask. -/
theorem run_setled_iff (hr : Run (step hz) (Leds.init hz) h s)
    (hr' : Run (step hz) (Leds.init hz) h' s') :
    ((EveryState InMask h s ∧ EveryState InMask h' s') ∧
        ∀ arg, lastSetled h = some arg → lastSetled h' = some arg →
          s.selectedLed = s'.selectedLed) ↔
      EveryStep SetsInMask h ∧ EveryStep SetsInMask h' := by
  rw [run_inMask_iff hr, run_inMask_iff hr']
  refine and_iff_left_of_imp ?_
  rintro ⟨hin, hin'⟩ arg hlast hlast'
  rw [run_selected hr hin, run_selected hr' hin', hlast, hlast']

/-- `SETLED 4` after another selection, and at once. -/
theorem run_setled_same : ∃ h s h' s', Run (step 250) (Leds.init 250) h s ∧
    Run (step 250) (Leds.init 250) h' s' ∧ lastSetled h = some 4 ∧ lastSetled h' = some 4 ∧
    s.selectedLed = s'.selectedLed := by
  rcases exists_run_of_exec (step 250) (Leds.init 250) [.ioctl SETLED 3, .tick, .ioctl SETLED 4]
    (fun h _ => EveryStep SetsInMask h ∧ lastSetled h = some 4) (by decide) with ⟨h, s, hr, hp⟩
  rcases exists_run_of_exec (step 250) (Leds.init 250) [.ioctl SETLED 4]
    (fun h _ => EveryStep SetsInMask h ∧ lastSetled h = some 4) (by decide) with ⟨h', s', hr', hp'⟩
  rcases of_decide_eq_true hp with ⟨hin, hlast⟩
  rcases of_decide_eq_true hp' with ⟨hin', hlast'⟩
  exact ⟨h, s, h', s', hr, hr', hlast, hlast',
    ((run_setled_iff hr hr').mpr ⟨hin, hin'⟩).2 4 hlast hlast'⟩

/-- `SETLED 1` after `SETLED 8`, and at once: the bit of the first call stays. -/
theorem run_setled_past : ∃ h s h' s', Run (step 250) (Leds.init 250) h s ∧
    Run (step 250) (Leds.init 250) h' s' ∧ lastSetled h = some 1 ∧ lastSetled h' = some 1 ∧
    s.selectedLed = 9 ∧ s'.selectedLed = 1 ∧ ¬ InMask s := by
  rcases exists_run_of_exec (step 250) (Leds.init 250) [.ioctl SETLED 8, .ioctl SETLED 1]
    (fun h s => lastSetled h = some 1 ∧ s.selectedLed = 9 ∧ ¬ InMask s)
    (by decide) with ⟨h, s, hr, hp⟩
  rcases exists_run_of_exec (step 250) (Leds.init 250) [.ioctl SETLED 1]
    (fun h s => lastSetled h = some 1 ∧ s.selectedLed = 1) (by decide) with ⟨h', s', hr', hp'⟩
  rcases of_decide_eq_true hp with ⟨hlast, hsel, hout⟩
  rcases of_decide_eq_true hp' with ⟨hlast', hsel'⟩
  exact ⟨h, s, h', s', hr, hr', hlast, hlast', hsel, hsel', hout⟩

end Selection

end Blink

end Timers

end KernelModules
