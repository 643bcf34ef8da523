import KernelModules.Lib.Run
import KernelModules.Poll.Device
import Mathlib.Data.Finset.Card

/-!
# Calls One at a Time

`device_read` and `device_write` as whole calls, when each call completes
before the next begins. Nothing then changes between the tests of one call, so
a call either returns or reaches `schedule()` in its wait loop, where only a
signal can end it.

The question is whether the readiness tests tell the truth about these calls:
`POLLIN` that a read returns a byte, `POLLOUT` that a write accepts one, and
`-EAGAIN` and waiting that there is no room. The emptiness test does. The
fullness test compares `iw` with `ir - 1` without wrapping, while the transfer
loop stops at `ir - 1` wrapped. The two differ in one state, the one with the
read index at zero and the write index at the last slot: the ring holds
`N - 1` bytes, `buffer_full` denies it, `POLLOUT` is reported, and a write
gets through to a loop that accepts nothing and returns 0.

`ready_iff` says that this is the only such state, and `run_ready_iff` carries
it to runs.

## Main definitions

* `Outcome`: A call that returned, or one that waits.
* `deviceRead`, `deviceWrite`: The calls.
* `Sys`, `Step`, `step`: Runs of opens, calls and releases.
* `Ready`: The readiness tests agree with the transfer loops.
* `Unseen`: The full ring that the fullness test does not see.

## Theorems

* `deviceRead_of_held`, `deviceWrite_of_room`: What a call does.
* `ready_iff`: The tests agree with the loops in all states but one.
* `run_ready_iff`: They agree all along a run that avoids that state.
* `run_not_ready`: A run that reaches it.
-/

namespace KernelModules

namespace Poll

namespace Calls

open Kernel Lib

/-- A call that returned, with its results, or one that sits in `schedule()`
    in its wait loop. -/
inductive Outcome (α : Type) where
  | done (r : α)
  | waits

/-- A call that found nothing to transfer: with `O_NONBLOCK` it returns
    `-EAGAIN`, otherwise both tests of its wait loop see the same ring and it
    goes to sleep. -/
def turnedAway {α : Type} (nonblock : Bool) (r : α) : Outcome (Int × α) :=
  if nonblock then .done (-EAGAIN, r) else .waits

/-- `device_read` with nobody else running: the value returned, the device and
    the user's memory. -/
def deviceRead (N : Nat) (nonblock : Bool) (len : Nat) (d : Dev) (u : UserMem) :
    Outcome (Int × Dev × UserMem) :=
  if isBufferEmpty d then turnedAway nonblock (d, u)
  -- Past the tests `sema` is free, and nobody changes the ring before the loop.
  else .done ((readTransfer N len d u).1, (readTransfer N len d u).2)

/-- `device_write` with nobody else running. -/
def deviceWrite (N : Nat) (nonblock : Bool) (len : Nat) (d : Dev) (u : UserMem) :
    Outcome (Int × Dev) :=
  if bufferFull d then turnedAway nonblock d
  else .done ((writeTransfer N len d u).1, (writeTransfer N len d u).2)

/-- The device and the open files, between calls. -/
structure Sys (φ : Type*) where
  dev : Dev
  files : Finset φ

def Sys.init {φ : Type*} : Sys φ := { dev := Dev.init, files := ∅ }

/-- Opens, releases, and calls from their entry to their return. -/
inductive Step (φ : Type*) where
  | openFile (f : φ)
  | read (f : φ) (nonblock : Bool) (len : Nat) (u : UserMem)
  | write (f : φ) (nonblock : Bool) (len : Nat) (u : UserMem)
  | releaseFile (f : φ)

/-- A call that waits is ended by a signal, with `-ERESTARTSYS` and nothing
    changed. -/
def step {φ : Type*} [DecidableEq φ] (N : Nat) : Step φ → Sys φ → Option (Sys φ)
  | .openFile f, s =>
    if f ∈ s.files then none else some { dev := deviceOpen s.dev, files := insert f s.files }
  | .read f nonblock len u, s =>
    if f ∈ s.files then
      match deviceRead N nonblock len s.dev u with
      | .done r => some { s with dev := r.2.1 }
      | .waits => some s
    else none
  | .write f nonblock len u, s =>
    if f ∈ s.files then
      match deviceWrite N nonblock len s.dev u with
      | .done r => some { s with dev := r.2 }
      | .waits => some s
    else none
  | .releaseFile f, s =>
    if f ∈ s.files then some { dev := deviceRelease s.dev, files := s.files.erase f } else none

/-- The readiness tests agree with the transfer loops: `POLLIN` and `POLLOUT`
    with what a call issued next returns, `-EAGAIN` and waiting with a ring
    that holds `N - 1` bytes. -/
structure Ready (N : Nat) (d : Dev) : Prop where
  pollin : ∀ (nonblock : Bool) (len : Nat) (u : UserMem), 1 ≤ len →
    (devicePoll d &&& POLLIN ≠ 0 ↔
      ∃ r, deviceRead N nonblock len d u = .done r ∧ 1 ≤ r.1)
  pollout : ∀ (nonblock : Bool) (len : Nat) (u : UserMem), 1 ≤ len →
    (devicePoll d &&& POLLOUT ≠ 0 ↔
      ∃ r, deviceWrite N nonblock len d u = .done r ∧ 1 ≤ r.1)
  eagain : ∀ (len : Nat) (u : UserMem), 1 ≤ len →
    ((∃ r, deviceWrite N true len d u = .done r ∧ r.1 = -EAGAIN) ↔ d.held N = N - 1)
  blocking : ∀ (len : Nat) (u : UserMem), 1 ≤ len →
    (∀ r, deviceWrite N false len d u = .done r → r.1 ≠ 0) ∧
    (deviceWrite N false len d u = .waits ↔ d.held N = N - 1)

/-- The ring is full, the read index is at zero and the write index at the
    last slot. -/
def Unseen (N : Nat) (d : Dev) : Prop := d.ir = 0 ∧ d.iw = N - 1

section Tests

variable {N : Nat} {d : Dev}

theorem room_eq_zero_iff (hd : d.Ok N) : d.room N = 0 ↔ d.held N = N - 1 := by
  have hlt := hd.held_lt
  unfold Dev.room
  omega

/-- The full ring that `buffer_full` does not see, by its indices. -/
theorem unseen_iff (hd : d.Ok N) : Unseen N d ↔ bufferFull d = false ∧ d.held N = N - 1 := by
  have h1 := hd.ir_nonneg
  have h2 := hd.ir_lt
  have h3 := hd.iw_nonneg
  have h4 := hd.iw_lt
  -- Both sides are statements about the two indices alone.
  rw [← Bool.not_eq_true, bufferFull_iff]
  unfold Unseen Dev.held Ring.span
  split <;> omega

theorem bufferFull_of_seen (hd : d.Ok N) (hseen : ¬ Unseen N d) :
    bufferFull d = true ↔ d.held N = N - 1 := by
  rw [hd.bufferFull_iff_room, room_eq_zero_iff hd]
  refine ⟨fun h => h.1, fun h => ⟨h, fun hir => hseen ?_⟩⟩
  refine (unseen_iff hd).mpr ⟨?_, h⟩
  rw [← Bool.not_eq_true, hd.bufferFull_iff_room]
  exact fun hf => hf.2 hir

theorem turnedAway_not_pos {α : Type} (nonblock : Bool) (x : α) :
    ¬ ∃ r, turnedAway nonblock x = .done r ∧ 1 ≤ r.1 := by
  rintro ⟨r, hr, hpos⟩
  cases nonblock with
  | false => exact absurd hr (by simp only [turnedAway, Bool.false_eq_true, if_false, reduceCtorEq,
      not_false_eq_true])
  | true =>
      simp only [turnedAway, if_true, Outcome.done.injEq] at hr
      rw [← hr] at hpos
      simp only [EAGAIN] at hpos
      omega

/-- A read of a ring that is not empty returns a byte at least. -/
theorem deviceRead_of_held (hd : d.Ok N) (hne : isBufferEmpty d = false) (nonblock : Bool)
    {len : Nat} (hlen : 1 ≤ len) (u : UserMem) :
    ∃ r, deviceRead N nonblock len d u = .done r ∧ 1 ≤ r.1 := by
  have hheld : d.held N ≠ 0 := fun h => by
    rw [hd.held_eq_zero_iff.mp h] at hne
    exact Bool.noConfusion hne
  refine ⟨_, by rw [deviceRead, hne, if_neg Bool.false_ne_true], ?_⟩
  simp only [readTransfer_count hd]
  omega

/-- A write that gets past the fullness test returns the room, if it asked
    for that much. -/
theorem deviceWrite_of_room (hd : d.Ok N) (hne : bufferFull d = false) (nonblock : Bool)
    (len : Nat) (u : UserMem) :
    deviceWrite N nonblock len d u =
      .done ((min len (d.room N) : Nat), (writeTransfer N len d u).2) := by
  rw [deviceWrite, hne, if_neg Bool.false_ne_true, writeTransfer_count hd]

theorem deviceWrite_full (hf : bufferFull d = true) (nonblock : Bool) (len : Nat) (u : UserMem) :
    deviceWrite N nonblock len d u = turnedAway nonblock d := by
  rw [deviceWrite, hf, if_pos rfl]

/-- `POLLIN` tells the truth in every state. -/
theorem pollin_ready (hd : d.Ok N) (nonblock : Bool) {len : Nat} (hlen : 1 ≤ len) (u : UserMem) :
    devicePoll d &&& POLLIN ≠ 0 ↔ ∃ r, deviceRead N nonblock len d u = .done r ∧ 1 ≤ r.1 := by
  rw [pollin_iff]
  cases hempty : isBufferEmpty d with
  | false => exact iff_of_true rfl (deviceRead_of_held hd hempty nonblock hlen u)
  | true =>
      rw [deviceRead, hempty, if_pos rfl]
      exact iff_of_false (fun h => Bool.noConfusion h) (turnedAway_not_pos nonblock (d, u))

/-- Where the fullness test is right, a write that gets past it has room. -/
theorem min_room_pos (hd : d.Ok N) (hseen : ¬ Unseen N d) (hf : bufferFull d = false) {len : Nat}
    (hlen : 1 ≤ len) : 1 ≤ min len (d.room N) := by
  have hroom : d.room N ≠ 0 := fun h => by
    rw [(bufferFull_of_seen hd hseen).mpr ((room_eq_zero_iff hd).mp h)] at hf
    exact Bool.noConfusion hf
  omega

theorem pollout_ready (hd : d.Ok N) (hseen : ¬ Unseen N d) (nonblock : Bool) {len : Nat}
    (hlen : 1 ≤ len) (u : UserMem) :
    devicePoll d &&& POLLOUT ≠ 0 ↔ ∃ r, deviceWrite N nonblock len d u = .done r ∧ 1 ≤ r.1 := by
  rw [pollout_iff]
  cases hf : bufferFull d with
  | false =>
      have hpos := min_room_pos hd hseen hf hlen
      exact iff_of_true rfl ⟨_, deviceWrite_of_room hd hf nonblock len u, by
        simp only
        omega⟩
  | true =>
      rw [deviceWrite_full hf]
      exact iff_of_false (fun h => Bool.noConfusion h) (turnedAway_not_pos nonblock d)

theorem eagain_ready (hd : d.Ok N) (hseen : ¬ Unseen N d) (len : Nat) (u : UserMem) :
    (∃ r, deviceWrite N true len d u = .done r ∧ r.1 = -EAGAIN) ↔ d.held N = N - 1 := by
  rw [← bufferFull_of_seen hd hseen]
  -- What a write does is decided by the test it makes first.
  cases hf : bufferFull d with
  | true =>
      rw [deviceWrite_full hf]
      exact iff_of_true ⟨(-EAGAIN, d), rfl, rfl⟩ rfl
  | false =>
      rw [deviceWrite_of_room hd hf true len u]
      refine iff_of_false (fun ⟨r, hr, heq⟩ => ?_) Bool.false_ne_true
      rw [Outcome.done.injEq] at hr
      rw [← hr] at heq
      simp only [EAGAIN] at heq
      omega

theorem blocking_ready (hd : d.Ok N) (hseen : ¬ Unseen N d) {len : Nat} (hlen : 1 ≤ len)
    (u : UserMem) : (∀ r, deviceWrite N false len d u = .done r → r.1 ≠ 0) ∧
      (deviceWrite N false len d u = .waits ↔ d.held N = N - 1) := by
  rw [← bufferFull_of_seen hd hseen]
  cases hf : bufferFull d with
  | true =>
      rw [deviceWrite_full hf]
      refine ⟨fun r hr => ?_, iff_of_true rfl rfl⟩
      simp only [turnedAway, Bool.false_eq_true, if_false, reduceCtorEq] at hr
  | false =>
      have hpos := min_room_pos hd hseen hf hlen
      rw [deviceWrite_of_room hd hf false len u]
      refine ⟨fun r hr => ?_, iff_of_false (fun h => by simp only [reduceCtorEq] at h)
        Bool.false_ne_true⟩
      rw [Outcome.done.injEq] at hr
      rw [← hr]
      simp only
      omega

/-- The readiness tests agree with the transfer loops in every state but the
    unseen full ring. -/
theorem ready_iff (hd : d.Ok N) : Ready N d ↔ ¬ Unseen N d := by
  constructor
  · -- In the unseen state a write of one byte gets through and returns 0.
    intro hready hun
    rcases (unseen_iff hd).mp hun with ⟨hnf, hheld⟩
    have hw := deviceWrite_of_room hd hnf false 1 (fun _ => none)
    refine (hready.blocking 1 (fun _ => none) (Nat.le_refl 1)).1 _ hw ?_
    rw [(room_eq_zero_iff hd).mpr hheld]
    rfl
  · intro hseen
    exact ⟨fun nonblock len u hlen => pollin_ready hd nonblock hlen u,
      fun nonblock len u hlen => pollout_ready hd hseen nonblock hlen u,
      fun len u _ => eagain_ready hd hseen len u,
      fun len u hlen => blocking_ready hd hseen hlen u⟩

end Tests

section Runs

variable {φ : Type*} [DecidableEq φ] {N : Nat} {s s' : Sys φ} {h : History (Sys φ) (Step φ)}

theorem deviceRead_ok {d : Dev} (hd : d.Ok N) {nonblock : Bool} {len : Nat} {u : UserMem}
    {r : Int × Dev × UserMem} (hr : deviceRead N nonblock len d u = .done r) : r.2.1.Ok N := by
  unfold deviceRead turnedAway at hr
  split at hr
  · split at hr
    · rw [← Outcome.done.inj hr]
      exact hd
    · simp only [reduceCtorEq] at hr
  · rw [← Outcome.done.inj hr]
    exact readTransfer_ok hd len u

theorem deviceWrite_ok {d : Dev} (hd : d.Ok N) {nonblock : Bool} {len : Nat} {u : UserMem}
    {r : Int × Dev} (hr : deviceWrite N nonblock len d u = .done r) : r.2.Ok N := by
  unfold deviceWrite turnedAway at hr
  split at hr
  · split at hr
    · rw [← Outcome.done.inj hr]
      exact hd
    · simp only [reduceCtorEq] at hr
  · rw [← Outcome.done.inj hr]
    exact writeTransfer_ok hd len u

/-- Every step keeps the indices in the ring. -/
theorem step_ok (hN : 0 < N) (l : Step φ) (hs : s.dev.Ok N) (hstep : step N l s = some s') :
    s'.dev.Ok N := by
  cases l with
  | openFile f =>
      simp only [step, Option.ite_none_left_eq_some, Option.some.injEq] at hstep
      rcases hstep with ⟨-, rfl⟩
      exact deviceOpen_ok hN hs
  | read f nonblock len u =>
      simp only [step, Option.ite_none_right_eq_some] at hstep
      rcases hstep with ⟨-, hstep⟩
      split at hstep
      · rename_i r hr
        rw [← Option.some.inj hstep]
        exact deviceRead_ok hs hr
      · rw [← Option.some.inj hstep]
        exact hs
  | write f nonblock len u =>
      simp only [step, Option.ite_none_right_eq_some] at hstep
      rcases hstep with ⟨-, hstep⟩
      split at hstep
      · rename_i r hr
        rw [← Option.some.inj hstep]
        exact deviceWrite_ok hs hr
      · rw [← Option.some.inj hstep]
        exact hs
  | releaseFile f =>
      simp only [step, Option.ite_none_right_eq_some, Option.some.injEq] at hstep
      rcases hstep with ⟨-, rfl⟩
      exact { hs with }

theorem run_ok (hN : 0 < N) (hr : Run (step N) (Sys.init : Sys φ) h s) : s.dev.Ok N :=
  hr.invariant (fun s => s.dev.Ok N)
    ⟨Int.le_refl 0, Int.natCast_pos.mpr hN, Int.le_refl 0, Int.natCast_pos.mpr hN⟩
    (fun _ l _ hs => step_ok hN l hs)

/-- The readiness tests tell the truth all along a run exactly when the run
    keeps out of the unseen full ring. -/
theorem run_ready_iff (hN : 2 ≤ N) (hr : Run (step N) (Sys.init : Sys φ) h s) :
    EveryState (fun s => Ready N s.dev) h s ↔ EveryState (fun s => ¬ Unseen N s.dev) h s :=
  hr.everyState_iff (fun _ _ hr => ready_iff (run_ok (by omega) hr))

/-- A write, a read and a write that pass the end of the source's ring without
    stopping in the unseen state. -/
theorem run_ready_wrapped : ∃ (h : History (Sys Nat) (Step Nat)) (s : Sys Nat),
    EveryState (fun s => Ready 23 s.dev) h s ∧ s.dev.held 23 = 22 ∧ s.dev.ir = 5 := by
  rcases exists_run_of_exec (step 23) (Sys.init : Sys Nat)
    [.openFile 0, .write 0 false 20 (fun k => some k.toUInt8), .read 0 false 5 (fun _ => some 0),
      .write 0 true 9 (fun k => some k.toUInt8)]
    (fun h s => (s.dev.held 23 = 22 ∧ s.dev.ir = 5) ∧
      ∀ p ∈ h, ¬ (p.1.dev.ir = 0 ∧ p.1.dev.iw = 22)) (by decide) with ⟨h, s, hr, hp⟩
  rcases of_decide_eq_true hp with ⟨⟨hheld, hir⟩, hseen⟩
  refine ⟨h, s, (run_ready_iff (by decide) hr).mpr ⟨fun hun => ?_, hseen⟩, hheld, hir⟩
  rw [hun.1] at hir
  exact absurd hir (by decide)

/-- One write of 22 bytes to a fresh ring, and the tests are wrong. -/
theorem run_not_ready : ∃ (h : History (Sys Nat) (Step Nat)) (s : Sys Nat),
    Run (step 23) Sys.init h s ∧ ¬ Ready 23 s.dev := by
  rcases exists_run_of_exec (step 23) (Sys.init : Sys Nat)
    [.openFile 0, .write 0 false 22 (fun k => some k.toUInt8)]
    (fun _ s => s.dev.ir = 0 ∧ s.dev.iw = 22) (by decide) with ⟨h, s, hr, hp⟩
  have hun := of_decide_eq_true hp
  exact ⟨h, s, hr, fun hready =>
    (ready_iff (run_ok (by decide) hr)).mp hready ⟨hun.1, hun.2⟩⟩

end Runs

end Calls

end Poll

end KernelModules
