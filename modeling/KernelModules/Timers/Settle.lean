import KernelModules.Lib.Rest
import KernelModules.Timers.Pace

/-!
# The Jiffies in Between

What is still to be done in `helloplus.c` before the next jiffy. The callers of
`SET_DELAY` have statements left, and `del_timer_sync` waits for the callback
to return, which may have been started again by then. Nobody else waits for
anything.

With delays of a jiffy and more the callback is started once at most before the
clock moves on, so the callers get past it: in any schedule, all of them return
after a number of statements that depends on how many they are, unless one of
them hits the `BUG_ON`. A delay of zero is always over, and then the callback
can go on by itself for ever (`run_spins`).

## Main definitions

* `Own`: The steps of the callers, of the callback, and of the timer core.
* `pcLeft`, `callbackLeft`, `dueLeft`: The statements that are left to each.
* `left`: All together.
* `Settled`: All calls have returned, and nothing is due.
* `Within`: The invariant.

## Theorems

* `not_due`: A timer that is set is not due in the same jiffy.
* `stmt_left`: A statement of a caller lowers what is left.
* `lowers`: So does every own step.
* `atRest_iff`: Where the steps end.
* `run_settles`: How many there are, and where they lead.
* `run_spins`: A delay of zero.
-/

namespace KernelModules

namespace Timers

namespace Settle

open Kernel Lib Pace

variable {ι : Type*}

/-- The steps that need no jiffy and no new call. -/
def Own : SetDelay.Step ι → Prop
  | .expire | .callback | .run _ => True
  | .tick | .call _ _ => False

/-- The statements left to a caller. -/
def pcLeft : SetDelay.Pc → Nat
  | .argTest => 7
  | .copy => 6
  | .delTimerSync => 5
  | .setFunction => 4
  | .setExpires => 3
  | .addTimer => 2
  | .returned _ => 1

def callerLeft (s : SetDelay.Sys ι) (t : ι) : Nat := (s.callers t).elim 0 fun c => pcLeft c.pc

/-- The steps left to a callback. -/
def callbackLeft : CallbackPc → Nat
  | .idle => 0
  | .dequeued => 3
  | .expiresSet => 2
  | .added => 1

/-- A start of the callback and its steps, if the timer may be due once more. -/
def dueLeft (c : Core) : Nat :=
  if c.callback ≠ .dequeued ∧ timeAfterEq c.jiffies c.timer.expires = true then 4 else 0

/-- All that is left, with these callers. -/
def left (J : Finset ι) (s : SetDelay.Sys ι) : Nat :=
  ∑ t ∈ J, callerLeft s t + (callbackLeft s.core.callback + dueLeft s.core)

/-- All calls have returned, and the callback, and the timer is not due. -/
structure Settled (s : SetDelay.Sys ι) : Prop where
  callers : ∀ t, s.callers t = none
  idle : s.core.callback = .idle
  waits : s.core.timer.pending = true → timeAfterEq s.core.jiffies s.core.timer.expires = false

/-- Delays are a jiffy at least, and these are all the callers. -/
structure Within (J : Finset ι) (s : SetDelay.Sys ι) : Prop where
  delays : ∃ n, HelloWaits 1 n s
  callers : ∀ t, s.callers t ≠ none → t ∈ J

section Steps

variable {c c' : Core} {d : BitVec 64}

/-- A timer that is set is not due in the same jiffy. -/
theorem not_due {j : BitVec 64} (hd : AtLeast 1 d) : timeAfterEq j (j + d) = false := by
  rw [← Bool.not_eq_true]
  intro hdue
  exact absurd (le_of_due (w := 0) hd (BitVec.add_zero _) hdue) (by decide)

theorem dueLeft_of_not_due (h : timeAfterEq c.jiffies c.timer.expires = false) :
    dueLeft c = 0 := by
  unfold dueLeft
  rw [if_neg]
  rintro ⟨-, hdue⟩
  rw [h] at hdue
  exact Bool.noConfusion hdue

theorem dueLeft_congr (hcallback : c'.callback = c.callback)
    (hexpires : c'.timer.expires = c.timer.expires) (hjiffies : c'.jiffies = c.jiffies) :
    dueLeft c' = dueLeft c := by
  unfold dueLeft
  rw [hcallback, hexpires, hjiffies]

/-- A start of the callback uses up that the timer was due. -/
theorem expire_left (h : expire c = some c') :
    callbackLeft c'.callback + dueLeft c' < callbackLeft c.callback + dueLeft c := by
  simp only [expire, Option.ite_none_right_eq_some, Option.some.injEq] at h
  rcases h with ⟨⟨-, hidle, hdue⟩, rfl⟩
  simp only [dueLeft, hidle, hdue, callbackLeft, ne_eq, reduceCtorEq, not_false_eq_true,
    not_true_eq_false, and_self, false_and, if_true, if_false]
  omega

/-- The callback gets on, and sets the timer ahead on its way. -/
theorem myTimerFunc_left (hd : AtLeast 1 d) (h : myTimerFunc d c = some c') :
    callbackLeft c'.callback + dueLeft c' < callbackLeft c.callback + dueLeft c := by
  unfold myTimerFunc at h
  cases hpc : c.callback with
  | idle => simp only [hpc, reduceCtorEq] at h
  | dequeued =>
      simp only [hpc, Option.some.injEq] at h
      have hdue : timeAfterEq c'.jiffies c'.timer.expires = false := by
        rw [← h]
        exact not_due hd
      have hpc' : c'.callback = .expiresSet := by rw [← h]
      rw [dueLeft_of_not_due hdue, hpc']
      exact Nat.lt_add_right _ (Nat.lt_succ_self 2)
  | expiresSet =>
      simp only [hpc, Option.some.injEq] at h
      rw [← h]
      simp only [dueLeft, hpc, callbackLeft, ne_eq, reduceCtorEq, not_false_eq_true, true_and,
        (addTimer_expires c).1, (addTimer_expires c).2]
      exact Nat.add_lt_add_right (Nat.lt_succ_self 1) _
  | added =>
      simp only [hpc, Option.some.injEq] at h
      rw [← h]
      simp only [dueLeft, hpc, callbackLeft, ne_eq, reduceCtorEq, not_false_eq_true, true_and]
      exact Nat.add_lt_add_right Nat.zero_lt_one _

end Steps

section Callers

variable [DecidableEq ι] {J : Finset ι} {n : Nat} {s s' : SetDelay.Sys ι} {t u : ι}
  {c : SetDelay.Caller} {l : SetDelay.Step ι}

omit [DecidableEq ι] in
theorem callerLeft_some (hc : s.callers t = some c) : callerLeft s t = pcLeft c.pc := by
  rw [callerLeft, hc, Option.elim_some]

theorem callerLeft_goto (t : ι) (c : SetDelay.Caller) (pc : SetDelay.Pc) :
    callerLeft (s.goto t c pc) t = pcLeft pc := by
  refine callerLeft_some (c := { c with pc := pc }) ?_
  exact Function.update_self _ _ _

/-- A statement changes nothing for the other callers. -/
theorem stmt_other (hstmt : SetDelay.stmt t c s = some s') (hu : u ≠ t) :
    s'.callers u = s.callers u := by
  unfold SetDelay.stmt at hstmt
  cases hpc : c.pc with
  | delTimerSync =>
      simp only [hpc, Option.map_eq_some_iff] at hstmt
      rcases hstmt with ⟨core, -, rfl⟩
      exact Function.update_of_ne hu _ _
  | _ =>
      simp only [hpc, Option.some.injEq] at hstmt
      rw [← hstmt]
      exact Function.update_of_ne hu _ _

/-- A statement brings its caller closer to the end, and may only set the timer
    ahead. -/
theorem stmt_left (hs : HelloWaits 1 n s) (hc : s.callers t = some c)
    (hstmt : SetDelay.stmt t c s = some s') : callerLeft s' t < callerLeft s t ∧
      s'.core.callback = s.core.callback ∧ dueLeft s'.core ≤ dueLeft s.core := by
  rw [callerLeft_some hc]
  unfold SetDelay.stmt at hstmt
  cases hpc : c.pc with
  | argTest =>
      simp only [hpc, Option.some.injEq] at hstmt
      rw [← hstmt, callerLeft_goto]
      refine ⟨?_, rfl, Nat.le_refl _⟩
      split <;> decide
  | copy =>
      simp only [hpc, Option.some.injEq] at hstmt
      rw [← hstmt]
      refine ⟨?_, rfl, Nat.le_refl _⟩
      refine lt_of_eq_of_lt (callerLeft_goto t c _) ?_
      split <;> decide
  | delTimerSync =>
      simp only [hpc, Option.map_eq_some_iff, delTimerSync, Option.ite_none_right_eq_some,
        Option.some.injEq] at hstmt
      rcases hstmt with ⟨core, ⟨-, rfl⟩, rfl⟩
      refine ⟨?_, rfl, Nat.le_refl _⟩
      exact lt_of_eq_of_lt (callerLeft_goto t c _) (Nat.lt_succ_self 4)
  | setFunction =>
      simp only [hpc, Option.some.injEq] at hstmt
      rw [← hstmt, callerLeft_goto]
      exact ⟨Nat.lt_succ_self 3, rfl, Nat.le_refl _⟩
  | setExpires =>
      simp only [hpc, Option.some.injEq] at hstmt
      have hdue : timeAfterEq s'.core.jiffies s'.core.timer.expires = false := by
        rw [← hstmt]
        exact not_due hs.delay
      rw [dueLeft_of_not_due hdue]
      rw [← hstmt]
      refine ⟨?_, rfl, Nat.zero_le _⟩
      exact lt_of_eq_of_lt (callerLeft_goto t c _) (Nat.lt_succ_self 2)
  | addTimer =>
      simp only [hpc, Option.some.injEq] at hstmt
      rw [← hstmt]
      refine ⟨?_, addTimer_callback _, ?_⟩
      · exact lt_of_eq_of_lt (callerLeft_goto t c _) (Nat.lt_succ_self 1)
      · exact Nat.le_of_eq (dueLeft_congr (addTimer_callback _) (addTimer_expires _).1
          (addTimer_expires _).2)
  | returned v =>
      simp only [hpc, Option.some.injEq] at hstmt
      rw [← hstmt]
      refine ⟨?_, rfl, Nat.le_refl _⟩
      rw [callerLeft]
      simp only [Function.update_self, Option.elim_none, pcLeft, Nat.zero_lt_one]

/-- What is left to the callers goes down with what is left to one of them. -/
theorem sum_left (ht : t ∈ J) (hself : callerLeft s' t < callerLeft s t)
    (hstmt : SetDelay.stmt t c s = some s') :
    ∑ u ∈ J, callerLeft s' u < ∑ u ∈ J, callerLeft s u := by
  refine Finset.sum_lt_sum (fun u _ => ?_) ⟨t, ht, hself⟩
  by_cases hu : u = t
  · rw [hu]
    exact Nat.le_of_lt hself
  · rw [callerLeft, callerLeft, stmt_other hstmt hu]

/-- Every own step keeps the delays and lowers what is left. -/
theorem lowers : Lowers SetDelay.step Own (Within J) (left J) where
  keeps := fun s l s' hs hown hstep => by
    rcases hs.delays with ⟨n, hn⟩
    have hasks : AsksDelay 1 l := by
      cases l <;> first | exact trivial | exact hown.elim
    refine ⟨⟨_, (step_delay hn hasks hstep).2⟩, fun t ht => hs.callers t fun hnone => ht ?_⟩
    cases l with
    | tick | call _ _ => exact hown.elim
    | expire =>
        rcases SetDelay.step_expire hstep with ⟨core, -, rfl⟩
        exact hnone
    | callback =>
        rcases SetDelay.step_callback hstep with ⟨core, -, rfl⟩
        exact hnone
    | run u =>
        rcases SetDelay.step_run hstep with ⟨c, hc, hstmt⟩
        have hne : t ≠ u := by
          rintro rfl
          rw [hnone] at hc
          exact absurd hc.symm (Option.some_ne_none c)
        rw [stmt_other hstmt hne, hnone]
  lowers := fun s l s' hs hown hstep => by
    rcases hs.delays with ⟨n, hn⟩
    unfold left
    cases l with
    | tick | call _ _ => exact hown.elim
    | expire =>
        rcases SetDelay.step_expire hstep with ⟨core, hcore, rfl⟩
        exact Nat.add_lt_add_left (expire_left hcore) _
    | callback =>
        rcases SetDelay.step_callback hstep with ⟨core, hcore, rfl⟩
        exact Nat.add_lt_add_left (myTimerFunc_left hn.delay hcore) _
    | run t =>
        rcases SetDelay.step_run hstep with ⟨c, hc, hstmt⟩
        rcases stmt_left hn hc hstmt with ⟨hself, hcallback, hdue⟩
        have ht : t ∈ J := hs.callers t (by rw [hc]; exact Option.some_ne_none c)
        have hsum := sum_left ht hself hstmt
        rw [hcallback]
        omega

end Callers

section Runs

variable [DecidableEq ι] {J : Finset ι} {s s' : SetDelay.Sys ι} {j secs : BitVec 64}
  {h : History (SetDelay.Sys ι) (SetDelay.Step ι)} {l : SetDelay.Step ι}

/-- No statement of a caller waits for anything but the callback. -/
theorem stmt_isSome (t : ι) (c : SetDelay.Caller) (hidle : s.core.callback = .idle) :
    SetDelay.stmt t c s ≠ none := by
  unfold SetDelay.stmt delTimerSync
  rw [if_pos hidle]
  cases c.pc <;> exact Option.some_ne_none _

theorem myTimerFunc_isSome {d : BitVec 64} {c : Core} (hc : c.callback ≠ .idle) :
    myTimerFunc d c ≠ none := by
  unfold myTimerFunc
  cases hpc : c.callback with
  | idle => exact absurd hpc hc
  | _ => exact Option.some_ne_none _

/-- The own steps end at a `BUG_ON`, or when all has been done. -/
theorem atRest_iff : AtRest SetDelay.step Own s ↔ s.core.bug = true ∨ Settled s := by
  constructor
  · intro hrest
    by_cases hbug : s.core.bug = true
    · exact .inl hbug
    · have hidle : s.core.callback = .idle := by
        by_contra hne
        have hnone := hrest .callback trivial
        simp only [SetDelay.step, if_neg hbug, Option.map_eq_none_iff] at hnone
        exact myTimerFunc_isSome hne hnone
      refine .inr ⟨fun t => ?_, hidle, fun hpending => ?_⟩
      · cases hc : s.callers t with
        | none => rfl
        | some c =>
            have hnone := hrest (.run t) trivial
            simp only [SetDelay.step, if_neg hbug, hc, Option.bind_some] at hnone
            exact absurd hnone (stmt_isSome t c hidle)
      · have hnone := hrest .expire trivial
        simp only [SetDelay.step, if_neg hbug, Option.map_eq_none_iff, expire, hidle, hpending,
          true_and] at hnone
        rw [← Bool.not_eq_true]
        intro hdue
        rw [if_pos hdue] at hnone
        exact Option.some_ne_none _ hnone
  · rintro hstops l hown
    by_cases hbug : s.core.bug = true
    · simp only [SetDelay.step, if_pos hbug]
    · rcases hstops with hbug' | hs
      · exact absurd hbug' hbug
      · simp only [SetDelay.step, if_neg hbug]
        cases l with
        | tick | call _ _ => exact hown.elim
        | callback => simp only [myTimerFunc, hs.idle, Option.map_none]
        | run t => simp only [hs.callers t, Option.bind_none]
        | expire =>
            rw [Option.map_eq_none_iff, expire, if_neg]
            rintro ⟨hpending, -, hdue⟩
            rw [hs.waits hpending] at hdue
            exact Bool.noConfusion hdue

/-- There are only so many callers. -/
theorem run_callers (hr : Run SetDelay.step (SetDelay.Sys.loaded j secs : SetDelay.Sys ι) h s) :
    ∃ J : Finset ι, ∀ t, s.callers t ≠ none → t ∈ J := by
  refine hr.invariant (fun s => ∃ J : Finset ι, ∀ t, s.callers t ≠ none → t ∈ J)
    ⟨∅, fun t ht => absurd rfl ht⟩ ?_
  rintro s l s' ⟨J, hJ⟩ hstep
  cases l with
  | tick =>
      rw [SetDelay.step_tick hstep]
      exact ⟨J, hJ⟩
  | expire =>
      rcases SetDelay.step_expire hstep with ⟨core, -, rfl⟩
      exact ⟨J, hJ⟩
  | callback =>
      rcases SetDelay.step_callback hstep with ⟨core, -, rfl⟩
      exact ⟨J, hJ⟩
  | call t arg =>
      rw [SetDelay.step_call hstep]
      refine ⟨insert t J, fun u hu => ?_⟩
      by_cases hut : u = t
      · rw [hut]
        exact Finset.mem_insert_self t J
      · simp only [Function.update_of_ne hut] at hu
        exact Finset.mem_insert_of_mem (hJ u hu)
  | run t =>
      rcases SetDelay.step_run hstep with ⟨c, hc, hstmt⟩
      refine ⟨J, fun u hu => ?_⟩
      by_cases hut : u = t
      · rw [hut]
        exact hJ t (by rw [hc]; exact Option.some_ne_none c)
      · rw [stmt_other hstmt hut] at hu
        exact hJ u hu

omit [DecidableEq ι] in
/-- No more than seven statements are left to a caller, and six steps to the
    timer. -/
theorem left_le (J : Finset ι) (s : SetDelay.Sys ι) : left J s ≤ 7 * J.card + 6 := by
  have hcallers : ∑ t ∈ J, callerLeft s t ≤ J.card * 7 := by
    refine (Finset.sum_le_card_nsmul J _ 7 fun t _ => ?_).trans_eq (smul_eq_mul _ _)
    unfold callerLeft
    cases s.callers t with
    | none => exact Nat.zero_le 7
    | some c =>
        rw [Option.elim_some]
        unfold pcLeft
        split <;> omega
  have htimer : callbackLeft s.core.callback + dueLeft s.core ≤ 6 := by
    unfold dueLeft
    cases hpc : s.core.callback with
    | dequeued => rw [if_neg fun h => h.1 rfl]; decide
    | _ => simp only [callbackLeft]; split <;> omega
  rw [left, Nat.mul_comm]
  exact Nat.add_le_add hcallers htimer

/-- With delays of a jiffy and more, and from every state: whatever the schedule,
    the callers inside, the callback and the timer execute a bounded number of
    steps before the next jiffy; and they come to rest when every call has
    returned and nothing is due, or at a `BUG_ON`. -/
theorem run_settles
    (hr : Run SetDelay.step (SetDelay.Sys.loaded j secs : SetDelay.Sys ι) h s)
    (hinit : AtLeast 1 secs) (hasks : EveryStep (fun _ _ l => AsksDelay 1 l) h) :
    ∃ J : Finset ι, (∀ t, t ∈ J ↔ s.callers t ≠ none) ∧
      (∀ h' s', Run SetDelay.step s h' s' → EveryStep (fun _ _ l => Own l) h' →
        h'.length ≤ 7 * J.card + 6 ∧
          (AtRest SetDelay.step Own s' ↔ s'.core.bug = true ∨ Settled s')) ∧
      ∃ h' s', Run SetDelay.step s h' s' ∧ EveryStep (fun _ _ l => Own l) h' ∧
        (s'.core.bug = true ∨ Settled s') := by
  rcases run_callers hr with ⟨J, hJ⟩
  have hinside : ∀ t, t ∈ J.filter (fun t => (s.callers t).isSome) ↔ s.callers t ≠ none := by
    intro t
    rw [Finset.mem_filter, ← Option.isSome_iff_ne_none]
    exact and_iff_right_of_imp fun h => hJ t (Option.isSome_iff_ne_none.mp h)
  have hwithin : Within (J.filter fun t => (s.callers t).isSome) s :=
    ⟨⟨_, (run_delay hr hinit hasks).2⟩, fun t ht => (hinside t).mpr ht⟩
  refine ⟨J.filter fun t => (s.callers t).isSome, hinside, fun h' s' hr' hown => ⟨?_, atRest_iff⟩,
    ?_⟩
  · have hlength := (lowers.length_le hwithin hr' hown).2
    have hleft := left_le (J.filter fun t => (s.callers t).isSome) s
    omega
  · rcases lowers.exists_rest hwithin with ⟨h', s', hr', hown, -, hrest⟩
    exact ⟨h', s', hr', hown, atRest_iff.mp hrest⟩

/-- Two callers, one of which waits for the callback. -/
theorem run_settles_twoCallers : ∃ (s : SetDelay.Sys Nat) (J : Finset Nat),
    (∀ t, t ∈ J ↔ s.callers t ≠ none) ∧ s.callers 0 ≠ none ∧ s.core.callback = .dequeued ∧
      ∃ h' s', Run SetDelay.step s h' s' ∧ EveryStep (fun _ _ l => Own l) h' ∧
        (s'.core.bug = true ∨ Settled s') := by
  rcases exists_run_of_exec SetDelay.step (SetDelay.Sys.loaded 0 1 : SetDelay.Sys Nat)
    [.call 0 (some fun k => some (if k = 0 then 2 else 0)), .run 0, .run 0,
      .call 1 (some fun k => some (if k = 0 then 3 else 0)), .tick, .expire]
    (fun h s => EveryStep (fun _ _ l => AsksDelay 1 l) h ∧ (s.callers 0).isSome ∧
      s.core.callback = .dequeued) (by decide) with ⟨h, s, hr, hp⟩
  rcases of_decide_eq_true hp with ⟨hasks, hinside, hcallback⟩
  rcases run_settles hr (by decide) hasks with ⟨J, hJ, -, hrest⟩
  exact ⟨s, J, hJ, Option.isSome_iff_ne_none.mp hinside, hcallback, hrest⟩

/-- The module loaded with a delay of zero, and the callback on its round. -/
def spinning (j : BitVec 64) (pending : Bool) (pc : CallbackPc) : SetDelay.Sys ι :=
  { SetDelay.Sys.loaded j 0 with
    core := { timer := { pending := pending, expires := j + 0 }, jiffies := j, callback := pc,
              bug := false } }

theorem spinning_expire : SetDelay.step .expire (spinning j true .idle : SetDelay.Sys ι) =
    some (spinning j false .dequeued) := by
  have hzero : j + 0 = j := BitVec.add_zero j
  have hdue : timeAfterEq j (j + 0) = true := by
    rw [hzero, timeAfterEq, BitVec.sub_self]
    rfl
  simp only [SetDelay.step, spinning, expire, hdue, and_self, Bool.false_eq_true, if_false,
    if_true, Option.map_some]

/-- A delay of zero: the callback starts again whenever it has returned, and no
    jiffy has passed. -/
theorem run_spins (n : Nat) : ∃ h : History (SetDelay.Sys ι) (SetDelay.Step ι),
    Run SetDelay.step (SetDelay.Sys.loaded j 0) h (SetDelay.Sys.loaded j 0) ∧
      EveryStep (fun _ _ l => Own l) h ∧ h.length = 4 * n := by
  induction n with
  | zero => exact ⟨[], .start, trivial, rfl⟩
  | succ n ih =>
      rcases ih with ⟨h, hr, hown, hlength⟩
      -- Expired, set, added, and back.
      have h₁ : Run SetDelay.step (SetDelay.Sys.loaded j 0) _ (spinning j false .dequeued) :=
        .next .expire hr spinning_expire
      have h₂ : Run SetDelay.step (SetDelay.Sys.loaded j 0) _ (spinning j false .expiresSet) :=
        .next .callback h₁ rfl
      have h₃ : Run SetDelay.step (SetDelay.Sys.loaded j 0) _ (spinning j true .added) :=
        .next .callback h₂ rfl
      have h₄ : Run SetDelay.step (SetDelay.Sys.loaded j 0) _ (SetDelay.Sys.loaded j 0) :=
        .next .callback h₃ rfl
      refine ⟨_, h₄, ⟨trivial, trivial, trivial, trivial, hown⟩, ?_⟩
      simp only [List.length_cons, hlength]
      omega

end Runs

end Settle

end Timers

end KernelModules
