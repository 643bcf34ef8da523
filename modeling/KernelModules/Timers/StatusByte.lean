import KernelModules.Kernel.Memory
import KernelModules.Lib.Twin
import KernelModules.Timers.Blink

/-!
# The Status Byte of blinkplus.c

The status that the LEDs blink by is declared a `char`, and the callback gets
its address as that of an `int`. So the status it compares is the byte with
the three bytes behind it, whatever these belong to, and the status it sets
goes over them.

As an `int` in memory the status is the one of `Blink`, with an initial value
that has those three bytes in it (`step_leds`). Everything else follows there.
The bytes survive the callback while every selection has the same upper bytes
as they are, and, if they are not zero, is never one that was just lit
(`run_upper_iff`). What is sent depends on them at the first tick alone, at
which a selection may be taken for one that is lit (`twin_sent_iff`).

## Main definitions

* `Driver`: The driver with its status in memory.
* `myTimerFunc`, `blinkIoctl`, `step`: The callback and the ioctls.
* `Driver.leds`: The status read as an `int`.
* `KeepsUpper`, `SameStart`, `LeavesAlone`: The conditions on a step.

## Theorems

* `step_leds`: The driver refines the one with an `int` status.
* `run_upper_iff`: When the bytes behind the status survive.
* `twin_sent_iff`: When what is sent does not depend on them.
* `runs_leaveAlone_iff`: Both, for two runs of the driver.
* `runs_overwritten`: A tick that overwrites them, and sends what they say.
-/

namespace KernelModules

namespace Timers

namespace StatusByte

open Kernel Lib Blink

/-- The driver with its memory, of which the status is at an address of its
    own. The other variables are `int`. -/
structure Driver where
  mem : Memory
  selectedLed : BitVec 32
  curExpireJiffies : BitVec 32
  sent : List (BitVec 32)

/-- `my_timer_func` up to the ioctl of the keyboard driver. -/
def myTimerFunc (pstatus : BitVec 64) (d : Driver) : Driver :=
  let mem :=
    if d.mem.loadInt pstatus = d.selectedLed then d.mem.storeInt pstatus RESTORE_LEDS
    else d.mem.storeInt pstatus d.selectedLed
  { d with mem := mem, sent := mem.loadInt pstatus :: d.sent }

/-- The variables of the driver, with the status read as the `int` at its
    address. -/
def Driver.leds (kbledstatus : BitVec 64) (d : Driver) : Leds :=
  { status := d.mem.loadInt kbledstatus
    selectedLed := d.selectedLed
    curExpireJiffies := d.curExpireJiffies
    sent := d.sent }

/-- `blink_ioctl`, which does not use the status. -/
def blinkIoctl (hz : BitVec 32) (kbledstatus : BitVec 64) (cmd arg : BitVec 32) (d : Driver) :
    Int × Driver :=
  let r := Blink.blinkIoctl hz cmd arg (d.leds kbledstatus)
  (r.1, { d with selectedLed := r.2.selectedLed, curExpireJiffies := r.2.curExpireJiffies })

/-- The timer passes `&kbledstatus` to the callback. -/
def step (hz : BitVec 32) (kbledstatus : BitVec 64) : Step → Driver → Option Driver
  | .tick, d => some (myTimerFunc kbledstatus d)
  | .ioctl cmd arg, d => some (blinkIoctl hz kbledstatus cmd arg d).2

/-- The module just loaded: the status is zero, and `n` is what the three bytes
    behind it are. -/
def Driver.init (hz : BitVec 32) (kbledstatus : BitVec 64) (m : Memory) (n : BitVec 24) : Driver :=
  { mem := m.storeInt kbledstatus (n ++ 0#8)
    selectedLed := ALL_LEDS_ON
    curExpireJiffies := hz.sdiv 5
    sent := [] }

/-- The initial variables with that status. -/
def ledsInit (hz : BitVec 32) (n : BitVec 24) : Leds :=
  { Leds.init hz with status := n ++ 0#8 }

/-- All bytes of an `int` but the lowest. -/
def upper (v : BitVec 32) : BitVec 24 := v.extractLsb' 8 24

/-- What the callback takes to be lit if nothing but a pattern is: the last one
    selected for it, or the initial status. -/
def shown (n : BitVec 24) (h : History Leds Step) : BitVec 32 := (selectedLast h).getD (n ++ 0#8)

/-- When the callback runs, the upper bytes of the selection are `n`, and if
    they are not zero it is another pattern than the one shown. -/
def KeepsUpper (n : BitVec 24) (h : History Leds Step) (s : Leds) : Step → Prop
  | .tick => upper s.selectedLed = n ∧ (s.selectedLed = shown n h → n = 0)
  | .ioctl _ _ => True

/-- When the callback first runs, the selection is the initial status neither
    with the bytes `n` behind nor with the bytes `n'`. -/
def SameStart (n n' : BitVec 24) (h : History Leds Step) (s : Leds) : Step → Prop
  | .tick => selectedLast h = none →
    n = n' ∨ (s.selectedLed ≠ n ++ 0#8 ∧ s.selectedLed ≠ n' ++ 0#8)
  | .ioctl _ _ => True

/-- Both conditions. -/
def LeavesAlone (n n' : BitVec 24) (h : History Leds Step) (s : Leds) (l : Step) : Prop :=
  KeepsUpper n h s l ∧ SameStart n n' h s l

instance (n : BitVec 24) (h : History Leds Step) (s : Leds) :
    (l : Step) → Decidable (KeepsUpper n h s l)
  | .tick => inferInstanceAs (Decidable (_ ∧ _))
  | .ioctl _ _ => .isTrue trivial

instance (n n' : BitVec 24) (h : History Leds Step) (s : Leds) :
    (l : Step) → Decidable (SameStart n n' h s l)
  | .tick => inferInstanceAs (Decidable (_ → _))
  | .ioctl _ _ => .isTrue trivial

instance (n n' : BitVec 24) (h : History Leds Step) (s : Leds) (l : Step) :
    Decidable (LeavesAlone n n' h s l) :=
  inferInstanceAs (Decidable (_ ∧ _))

section Refinement

variable {hz : BitVec 32} {p : BitVec 64} {d d' : Driver} {l : Step}

/-- The callback does with the bytes what it does with an `int`. -/
theorem myTimerFunc_leds : (myTimerFunc p d).leds p = Blink.myTimerFunc (d.leds p) := by
  unfold myTimerFunc Driver.leds Blink.myTimerFunc
  simp only
  by_cases hlit : d.mem.loadInt p = d.selectedLed
  · simp only [if_pos hlit, loadInt_storeInt]
  · simp only [if_neg hlit, loadInt_storeInt]

theorem blinkIoctl_leds (cmd arg : BitVec 32) :
    (blinkIoctl hz p cmd arg d).2.leds p = (Blink.blinkIoctl hz cmd arg (d.leds p)).2 := by
  rcases blinkIoctl_same cmd arg (d.leds p) with ⟨hsent, hstatus⟩
  unfold blinkIoctl
  rw [Driver.leds, show d.sent = (d.leds p).sent from rfl, ← hsent,
    show d.mem.loadInt p = (d.leds p).status from rfl, ← hstatus]

/-- The driver does what the one with an `int` status does. -/
theorem step_leds (hstep : step hz p l d = some d') :
    Blink.step hz l (d.leds p) = some (d'.leds p) := by
  cases l with
  | tick =>
      cases hstep
      exact congrArg some myTimerFunc_leds.symm
  | ioctl cmd arg =>
      cases hstep
      exact congrArg some (blinkIoctl_leds cmd arg).symm

theorem init_leds (m : Memory) (n : BitVec 24) :
    (Driver.init hz p m n).leds p = ledsInit hz n := by
  simp only [Driver.init, Driver.leds, loadInt_storeInt, ledsInit, Leds.init]

/-- So its runs are runs of that one. -/
theorem run_leds {m : Memory} {n : BitVec 24} {h : History Driver Step} {s : Driver}
    (hr : Run (step hz p) (.init hz p m n) h s) :
    Run (Blink.step hz) (ledsInit hz n) (mapStates (Driver.leds p) h) (s.leds p) := by
  rw [← init_leds m n]
  exact hr.map (Driver.leds p) fun _ _ _ => step_leds

end Refinement

section Ints

variable {hz : BitVec 32} {n n' : BitVec 24} {h : History Leds Step} {s : Leds}

theorem upper_append (n : BitVec 24) : upper (n ++ 0#8) = n := BitVec.extractLsb'_append_eq_left

/-- The initial status is never `RESTORE_LEDS`. -/
theorem append_ne_restore (n : BitVec 24) : n ++ 0#8 ≠ RESTORE_LEDS := by
  intro heq
  have hlow := congrArg (BitVec.extractLsb' 0 8) heq
  rw [BitVec.extractLsb'_append_eq_right] at hlow
  exact absurd hlow (by decide)

/-- Only `SETLED` changes the selection, and it does not look at the status. -/
theorem blinkIoctl_selectedLed (cmd arg : BitVec 32) (s : Leds) :
    (Blink.blinkIoctl hz cmd arg s).2.selectedLed =
      if cmd = SETLED then (s.selectedLed &&& ~~~ALL_LEDS_ON) ||| arg else s.selectedLed := by
  unfold Blink.blinkIoctl
  by_cases hinv : cmd = SETINV
  · rw [if_pos hinv, if_neg (by rw [hinv]; decide)]
  · rw [if_neg hinv]
    by_cases hget : cmd = GETINV
    · rw [if_pos hget, if_neg (by rw [hget]; decide)]
    · rw [if_neg hget]
      by_cases hled : cmd = SETLED
      · rw [if_pos hled, if_pos hled]
      · rw [if_neg hled, if_neg hled]

/-- What the history says of the status: it is the initial one before the
    callback has run, and then what was sent last, which is `RESTORE_LEDS` or
    the selection of that time. -/
def Traced (n : BitVec 24) (h : History Leds Step) (s : Leds) : Prop :=
  match selectedLast h with
  | none => s.sent = [] ∧ s.status = n ++ 0#8
  | some last => s.sent.head? = some s.status ∧ (s.status = RESTORE_LEDS ∨ s.status = last)

theorem run_traced (hr : Run (Blink.step hz) (ledsInit hz n) h s) : Traced n h s := by
  -- A tick sends the status it sets, and an ioctl leaves both alone.
  refine hr.historyInvariant (Traced n) ⟨rfl, rfl⟩ ?_
  intro h s l s' _ ht hstep
  cases l with
  | tick =>
      cases hstep
      simp only [Traced, selectedLast, Blink.myTimerFunc, List.head?_cons, true_and]
      split
      · exact .inl rfl
      · exact .inr rfl
  | ioctl cmd arg =>
      cases hstep
      have hsent : (Blink.blinkIoctl hz cmd arg s).2.sent = s.sent := (blinkIoctl_same cmd arg s).1
      have hstatus : (Blink.blinkIoctl hz cmd arg s).2.status = s.status :=
        (blinkIoctl_same cmd arg s).2
      simp only [Traced, selectedLast, hsent, hstatus]
      exact ht

theorem Traced.cases (ht : Traced n h s) :
    (selectedLast h = none ∧ s.sent = [] ∧ s.status = n ++ 0#8) ∨
      (selectedLast h ≠ none ∧ s.sent.head? = some s.status) := by
  unfold Traced at ht
  cases hlast : selectedLast h with
  | none =>
      rw [hlast] at ht
      exact .inl ⟨rfl, ht⟩
  | some last =>
      rw [hlast] at ht
      exact .inr ⟨Option.some_ne_none last, ht.1⟩

theorem Traced.status (ht : Traced n h s) : s.status = RESTORE_LEDS ∨ s.status = shown n h := by
  unfold Traced at ht
  unfold shown
  cases hlast : selectedLast h with
  | none =>
      rw [hlast] at ht
      exact .inr ht.2
  | some last =>
      rw [hlast] at ht
      exact ht.2

/-- What is sent next has the upper bytes of the status exactly if the
    selection has them, and `RESTORE_LEDS` is not sent in its place unless they
    are zero. -/
theorem upper_turn {status selected last : BitVec 32}
    (hstatus : status = RESTORE_LEDS ∨ status = last) (hupper : upper status = n) :
    upper (if status = selected then RESTORE_LEDS else selected) = n ↔
      upper selected = n ∧ (selected = last → n = 0) := by
  have hrestore : upper RESTORE_LEDS = 0 := by decide
  by_cases hsel : status = selected
  · rw [if_pos hsel, hrestore, ← hsel]
    refine ⟨fun hzero => ⟨hupper, fun _ => hzero.symm⟩, fun hfits => ?_⟩
    rcases hstatus with hres | hlast
    · rw [← hupper, hres, hrestore]
    · exact (hfits.2 hlast).symm
  · rw [if_neg hsel]
    refine (and_iff_left_of_imp fun _ hlast => ?_).symm
    -- The selection is what was shown, so it was `RESTORE_LEDS` that was sent.
    have hres := hstatus.resolve_right fun heq => hsel (heq.trans hlast.symm)
    rw [← hupper, hres, hrestore]

/-- The upper bytes of the status are what they were at first in the runs in
    which the selection fits them whenever the callback runs. -/
theorem run_upper_iff (hr : Run (Blink.step hz) (ledsInit hz n) h s) :
    EveryState (fun s => upper s.status = n) h s ↔ EveryStep (KeepsUpper n) h := by
  have hinit : upper (ledsInit hz n).status = n := upper_append n
  refine hr.everyState_iff_everyStep hinit ?_
  intro h s l s' hr hupper hstep
  cases l with
  | tick =>
      cases hstep
      exact upper_turn (run_traced hr).status hupper
  | ioctl cmd arg =>
      cases hstep
      rw [(blinkIoctl_same cmd arg s).2]
      exact iff_of_true hupper trivial

end Ints

section Twins

variable {hz : BitVec 32} {n n' : BitVec 24} {g : History (Leds × Leds) Step} {q : Leds × Leds}

theorem run_fst (hr : Run (twinStep (Blink.step hz)) (ledsInit hz n, ledsInit hz n') g q) :
    Run (Blink.step hz) (ledsInit hz n) (mapStates Prod.fst g) q.1 :=
  hr.map Prod.fst fun _ _ _ hstep => (twinStep_eq_some.mp hstep).1

theorem run_snd (hr : Run (twinStep (Blink.step hz)) (ledsInit hz n, ledsInit hz n') g q) :
    Run (Blink.step hz) (ledsInit hz n') (mapStates Prod.snd g) q.2 :=
  hr.map Prod.snd fun _ _ _ hstep => (twinStep_eq_some.mp hstep).2

/-- A step of both runs is a tick of both or the same ioctl of both. -/
theorem twin_cases {l : Step} {q q' : Leds × Leds}
    (hstep : twinStep (Blink.step hz) l q = some q') :
    (l = .tick ∧ q' = (Blink.myTimerFunc q.1, Blink.myTimerFunc q.2)) ∨
      ∃ cmd arg, l = .ioctl cmd arg ∧
        q' = ((Blink.blinkIoctl hz cmd arg q.1).2, (Blink.blinkIoctl hz cmd arg q.2).2) := by
  cases l with
  | tick => exact .inl ⟨rfl, (Option.some.inj hstep).symm⟩
  | ioctl cmd arg => exact .inr ⟨cmd, arg, rfl, (Option.some.inj hstep).symm⟩

/-- Both runs have the same selection at any time. -/
theorem twin_selectedLed
    (hr : Run (twinStep (Blink.step hz)) (ledsInit hz n, ledsInit hz n') g q) :
    q.1.selectedLed = q.2.selectedLed := by
  refine hr.invariant (fun q => q.1.selectedLed = q.2.selectedLed) rfl ?_
  intro q l q' hsel hstep
  rcases twin_cases hstep with ⟨-, rfl⟩ | ⟨cmd, arg, -, rfl⟩
  · exact hsel
  · simp only [blinkIoctl_selectedLed] at hsel ⊢
    rw [hsel]

/-- The first tick sends the same in both runs unless the selection is the
    initial status of one of them. -/
theorem first_turn (selected : BitVec 32) :
    ((if n ++ 0#8 = selected then RESTORE_LEDS else selected) =
        if n' ++ 0#8 = selected then RESTORE_LEDS else selected) ↔
      n = n' ∨ (selected ≠ n ++ 0#8 ∧ selected ≠ n' ++ 0#8) := by
  by_cases hn : n ++ 0#8 = selected
  -- The first run sends `RESTORE_LEDS`, which no initial status is.
  · subst hn
    rw [if_pos rfl]
    by_cases hn' : n' ++ 0#8 = n ++ 0#8
    · have heq : n = n' := by rw [← upper_append n, ← hn', upper_append]
      rw [if_pos hn']
      exact iff_of_true rfl (.inl heq)
    · rw [if_neg hn']
      refine iff_of_false (append_ne_restore n).symm ?_
      rintro (rfl | ⟨hne, -⟩)
      · exact hn' rfl
      · exact hne rfl
  · rw [if_neg hn]
    by_cases hn' : n' ++ 0#8 = selected
    · subst hn'
      rw [if_pos rfl]
      refine iff_of_false (append_ne_restore n') ?_
      rintro (rfl | ⟨-, hne⟩)
      · exact hn rfl
      · exact hne rfl
    · rw [if_neg hn']
      exact iff_of_true rfl (.inr ⟨Ne.symm hn, Ne.symm hn'⟩)

/-- Two runs that have sent the same so far do so in a step exactly if it is
    not a first tick that takes the selection for an initial status. -/
theorem step_sameStart {l : Step} {q' : Leds × Leds}
    (hr : Run (twinStep (Blink.step hz)) (ledsInit hz n, ledsInit hz n') g q)
    (hsent : q.1.sent = q.2.sent) (hstep : twinStep (Blink.step hz) l q = some q') :
    q'.1.sent = q'.2.sent ↔ SameStart n n' (mapStates Prod.fst g) q.1 l := by
  rcases twin_cases hstep with ⟨rfl, rfl⟩ | ⟨cmd, arg, rfl, rfl⟩
  · -- Both compare their status with the same selection.
    have hsel : q.1.selectedLed = q.2.selectedLed := twin_selectedLed hr
    have hfst : Traced n (mapStates Prod.fst g) q.1 := run_traced (run_fst hr)
    have hsnd : Traced n' (mapStates Prod.snd g) q.2 := run_traced (run_snd hr)
    show (if q.1.status = q.1.selectedLed then RESTORE_LEDS else q.1.selectedLed) :: q.1.sent =
      (if q.2.status = q.2.selectedLed then RESTORE_LEDS else q.2.selectedLed) :: q.2.sent ↔ _
    rw [hsent, ← hsel, List.cons.injEq, and_iff_left rfl]
    rcases hfst.cases with ⟨hfirst, hempty, hstatus⟩ | ⟨hlater, hhead⟩
    · rcases hsnd.cases with ⟨-, -, hstatus'⟩ | ⟨-, hhead'⟩
      · -- Nothing was sent in either run, so both have their initial status.
        rw [hstatus, hstatus', first_turn]
        exact ⟨fun h _ => h, fun h => h hfirst⟩
      · rw [← hsent, hempty] at hhead'
        exact nomatch hhead'
    · rcases hsnd.cases with ⟨-, hempty, -⟩ | ⟨-, hhead'⟩
      · rw [hsent, hempty] at hhead
        exact nomatch hhead
      · -- Both have the status that was sent last.
        rw [hsent, hhead', Option.some.injEq] at hhead
        rw [hhead]
        exact iff_of_true rfl fun h => absurd h hlater
  · simp only [(blinkIoctl_same cmd arg _).1]
    exact iff_of_true hsent trivial

/-- What two runs send is the same if their initial status is, or if the first
    tick finds a selection that is neither. -/
theorem twin_sent_iff
    (hr : Run (twinStep (Blink.step hz)) (ledsInit hz n, ledsInit hz n') g q) :
    q.1.sent = q.2.sent ↔ EveryStep (SameStart n n') (mapStates Prod.fst g) := by
  -- What was sent before is the tail of what has been sent after.
  have hback : ∀ (q : Leds × Leds) l q', twinStep (Blink.step hz) l q = some q' →
      q'.1.sent = q'.2.sent → q.1.sent = q.2.sent := by
    intro q l q' hstep hsent
    rcases twin_cases hstep with ⟨-, rfl⟩ | ⟨cmd, arg, -, rfl⟩
    · exact (List.cons.inj hsent).2
    · simp only [(blinkIoctl_same cmd arg _).1] at hsent
      exact hsent
  rw [everyStep_mapStates, ← hr.everyState_iff_last hback]
  refine hr.everyState_iff_everyStep rfl ?_
  intro g q l q' hr hsent hstep
  exact step_sameStart hr hsent hstep

end Twins

section Runs

variable {hz : BitVec 32} {p : BitVec 64} {m : Memory} {n n' : BitVec 24}
  {h h' : History Driver Step} {d d' : Driver}

/-- The bytes behind the status are left alone, and do not show in what is
    sent, in the runs in which every tick finds a selection that fits the
    bytes, the first one one that is neither initial status, and in no
    others. -/
theorem runs_leaveAlone_iff (hr : Run (step hz p) (.init hz p m n) h d)
    (hr' : Run (step hz p) (.init hz p m n') h' d') (hlabels : h.map Prod.snd = h'.map Prod.snd) :
    (EveryState (fun d => d.mem.behind p = n) h d ∧ d.sent = d'.sent) ↔
      EveryStep (LeavesAlone n n') (mapStates (Driver.leds p) h) := by
  have hlabels' : (mapStates (Driver.leds p) h).map Prod.snd =
      (mapStates (Driver.leds p) h').map Prod.snd := by
    rw [mapStates_labels, mapStates_labels, hlabels]
  -- Both runs as runs with an `int` status, side by side.
  rcases (run_leds hr).twin (run_leds hr') hlabels' with ⟨g, hg, hleft⟩
  have hsent := twin_sent_iff hg
  have hupper := run_upper_iff (run_leds hr)
  simp only [behind_eq]
  rw [hleft] at hsent
  rw [everyState_mapStates] at hupper
  exact (and_congr hupper hsent).trans (everyStep_and _ _ _).symm

/-- Memory without anything in it. -/
def blank : Memory := { byte := fun _ => 0, written := [] }

/-- A pattern is lit, put out, and followed by another, with zeros behind the
    status and with something else. -/
theorem runs_leaveAlone_zeros : ∃ h d h' d',
    Run (step 250 4096) (.init 250 4096 blank 0) h d ∧
      Run (step 250 4096) (.init 250 4096 blank 0x010203) h' d' ∧
      d.sent = [2, 0xFF, 7] ∧
      (EveryState (fun d => d.mem.behind 4096 = 0) h d ∧ d.sent = d'.sent) := by
  rcases exists_run_of_exec (step 250 4096) (.init 250 4096 blank 0)
    [.tick, .tick, .ioctl SETLED 2, .tick]
    (fun h d => (h.map Prod.snd = [.tick, .ioctl SETLED 2, .tick, .tick] ∧ d.sent = [2, 0xFF, 7]) ∧
      EveryStep (LeavesAlone 0 0x010203) (mapStates (Driver.leds 4096) h))
    (by decide +kernel) with ⟨h, d, hr, hp⟩
  rcases exists_run_of_exec (step 250 4096) (.init 250 4096 blank 0x010203)
    [.tick, .tick, .ioctl SETLED 2, .tick]
    (fun h _ => h.map Prod.snd = [.tick, .ioctl SETLED 2, .tick, .tick])
    (by decide +kernel) with ⟨h', d', hr', hp'⟩
  rcases of_decide_eq_true hp with ⟨⟨hsteps, hsent⟩, halone⟩
  have hsteps' := of_decide_eq_true hp'
  exact ⟨h, d, h', d', hr, hr', hsent,
    (runs_leaveAlone_iff hr hr' (hsteps.trans hsteps'.symm)).mpr halone⟩

/-- With a one behind the status, a tick with no LED selected: it overwrites
    the one with zero, and it sends zero, where it sends `RESTORE_LEDS` if
    there is nothing behind the status. -/
theorem runs_overwritten : ∃ h d h' d',
    Run (step 250 4096) (.init 250 4096 blank 1) h d ∧
      Run (step 250 4096) (.init 250 4096 blank 0) h' d' ∧
      h.map Prod.snd = [.tick, .ioctl SETLED 0] ∧ h'.map Prod.snd = [.tick, .ioctl SETLED 0] ∧
      d.mem.behind 4096 = 0 ∧ d.sent = [0] ∧ d'.sent = [0xFF] := by
  rcases exists_run_of_exec (step 250 4096) (.init 250 4096 blank 1) [.ioctl SETLED 0, .tick]
    (fun h d => (h.map Prod.snd = [.tick, .ioctl SETLED 0] ∧ d.mem.behind 4096 = 0) ∧
      d.sent = [0]) (by decide +kernel) with ⟨h, d, hr, hp⟩
  rcases exists_run_of_exec (step 250 4096) (.init 250 4096 blank 0) [.ioctl SETLED 0, .tick]
    (fun h d => h.map Prod.snd = [.tick, .ioctl SETLED 0] ∧ d.sent = [0xFF])
    (by decide +kernel) with ⟨h', d', hr', hp'⟩
  rcases of_decide_eq_true hp with ⟨⟨hsteps, hbehind⟩, hsent⟩
  rcases of_decide_eq_true hp' with ⟨hsteps', hsent'⟩
  exact ⟨h, d, h', d', hr, hr', hsteps, hsteps', hbehind, hsent, hsent'⟩

end Runs

end StatusByte

end Timers

end KernelModules
