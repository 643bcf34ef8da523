import KernelModules.Poll.Tasks

/-!
# No Lost Wakeup

A task that sleeps while its test would let it through is a task somebody has
promised to wake. The order in `device_read` and `device_write` is what keeps
that promise: a task joins the queue and becomes interruptible before it makes
its last test, and the index moves before the wakeup.

The invariant is about more than sleeping tasks. A task that has made its last
test, found it failing and not yet called `schedule()` is as good as asleep,
as long as nothing made it running in between. For all of these, either the
test still fails or a task of the other kind has moved its index and has not
yet sent its wakeup. A transfer of the own kind cannot open the gap, since it
finds nothing to move; an open cannot either, since a task inside keeps the
use count from being zero; signals and failing `down_interruptible`s change no
index at all.

## Main definitions

* `Call.Committed`: The task sleeps or is about to.
* `Call.Pending`: The task moved an index and owes a wakeup.
* `Covered`: The invariant.
* `WakeupSafe`: No wakeup is lost.

## Theorems

* `stmt_committed`, `stmt_pending`: How a statement gets there and leaves.
* `run_step_covered`, `step_covered`: Steps keep the invariant.
* `noLostWakeup`: No wakeup is lost in any run.
-/

namespace KernelModules

namespace Poll

namespace Tasks

open Kernel Lib

variable {ι φ : Type*}

/-- The task has found its last test failing, and nothing has made it running
    since. -/
def Call.Committed (c : Call φ) : Prop :=
  (c.pc = .schedule ∨ c.pc = .asleep) ∧ c.state = .interruptible

/-- The task is asleep in `schedule()`. -/
def Call.Asleep (c : Call φ) : Prop := c.pc = .asleep ∧ c.state = .interruptible

/-- The task has moved its index and not yet executed its wakeup. -/
def Call.Pending (c : Call φ) : Prop := (c.pc = .up ∨ c.pc = .wakeUp) ∧ 0 < c.i

/-- A wakeup of the tasks of kind `k` is pending. -/
def Owed (k : Kind) (s : Sys ι φ) : Prop :=
  ∃ t c, s.tasks t = some c ∧ c.kind = k.other ∧ c.Pending

/-- Every committed task is blocked, or a wakeup of its kind is pending. -/
def Covered (s : Sys ι φ) : Prop :=
  ∀ t c, s.tasks t = some c → c.Committed → blocked c.kind s.dev = true ∨ Owed c.kind s

/-- No wakeup is lost: a task asleep with data or room for it has a wakeup
    pending, and a reader and a writer both asleep have one between them. -/
structure WakeupSafe (s : Sys ι φ) : Prop where
  reader : ∀ t c, s.tasks t = some c → c.kind = .read → c.Asleep → isBufferEmpty s.dev = false →
    ∃ u w, s.tasks u = some w ∧ w.kind = .write ∧ w.Pending
  writer : ∀ t c, s.tasks t = some c → c.kind = .write → c.Asleep → bufferFull s.dev = false →
    ∃ u r, s.tasks u = some r ∧ r.kind = .read ∧ r.Pending
  both : ∀ t c t' c', s.tasks t = some c → c.kind = .read → c.Asleep →
    s.tasks t' = some c' → c'.kind = .write → c'.Asleep → Owed .read s ∨ Owed .write s

section Statements

variable {N : Nat} {nonblock : Bool} {d : Dev} {c c' : Call φ} {e : Effect}

theorem Call.Asleep.committed (h : c.Asleep) : c.Committed := ⟨Or.inr h.1, h.2⟩

theorem Call.Kept.pending (h : c.Kept c') (hp : c.Pending) : c'.Pending := by
  unfold Call.Pending at hp ⊢
  rw [h.fields.1, h.fields.2.2.2.2]
  exact hp

/-- A task gets committed by its last test only, and stays so by going to
    sleep. -/
theorem stmt_committed (h : stmt N nonblock d c = some (e, c')) (hc : c'.Committed) :
    e = .none ∧ (blocked c.kind d = true ∨ c.Committed) := by
  rcases hc with ⟨hpc', hst⟩
  cases stmt_outcome h with
  | commit hpc hb => exact ⟨rfl, Or.inl hb⟩
  | sleep hpc hs => exact ⟨rfl, Or.inr ⟨Or.inl hpc, hs⟩⟩
  | leave v hpc => simp only [hpc, reduceCtorEq, or_self] at hpc'
  | _ => simp only [Call.goto, reduceCtorEq, or_self] at hpc'

/-- A pending wakeup stays pending until it is sent. -/
theorem stmt_pending (h : stmt N nonblock d c = some (e, c')) (hc : c.Pending) :
    (e = .up ∧ c'.Pending) ∨ e = .wakeUp := by
  rcases hc with ⟨hpc', hi⟩
  -- Between the transfer and the wakeup stands only `up`. The wakeup is not
  -- left out either, since the count is positive.
  cases stmt_outcome h with
  | free hpc => exact Or.inl ⟨rfl, Or.inr rfl, hi⟩
  | notify hpc hi => exact Or.inr rfl
  | silent hpc hzero => omega
  | proceed hpc hb => rcases hpc with hpc | hpc <;> simp only [hpc, reduceCtorEq, or_self] at hpc'
  | _ => simp only [*, reduceCtorEq, or_self] at hpc'

end Statements

section Steps

variable [DecidableEq ι] {N : Nat} {s s' : Sys ι φ} {t u : ι} {c c' cu : Call φ} {e : Effect}
  {k : Kind} {nonblock : Bool}

/-- A pending wakeup stays pending when a call is replaced by one that owes at
    least as much. -/
theorem owed_put (hc : s.tasks t = some c) (hkind : c'.kind = c.kind)
    (hp : c.Pending → c'.Pending) (ho : Owed k s) : Owed k (s.put t c') := by
  rcases ho with ⟨v, w, hw, hwk, hwp⟩
  by_cases hvt : v = t
  · rw [hvt, hc, Option.some.injEq] at hw
    refine ⟨t, c', ?_, by rw [hkind, hw, hwk], hp (by rw [hw]; exact hwp)⟩
    simp only [Sys.put, Function.update_self]
  · refine ⟨v, w, ?_, hwk, hwp⟩
    simp only [Sys.put, Function.update_of_ne hvt]
    exact hw

/-- A statement leaves a wakeup of kind `k` pending, unless it is the one that
    sends it. -/
theorem owed_act (hc : s.tasks t = some c) (hstmt : stmt N nonblock s.dev c = some (e, c'))
    (hact : act t c' e s = some s') (hsend : e = .wakeUp → c.kind ≠ k.other) (ho : Owed k s) :
    Owed k s' := by
  rcases ho with ⟨v, w, hw, hwk, hwp⟩
  by_cases hvt : v = t
  · -- The task itself owes it, and gives up `sema` now.
    rw [hvt, hc, Option.some.injEq] at hw
    rw [← hw] at hwk hwp
    rcases stmt_pending hstmt hwp with ⟨he, hp⟩ | he
    · refine ⟨t, c', ?_, by rw [(stmt_frame hstmt).1, hwk], hp⟩
      rw [act_tasks hact, he, tasksAfter, Function.update_self] <;>
        exact fun h => Effect.noConfusion h
    · exact absurd hwk (hsend he)
  · -- Another task owes it, and being made running does not change that.
    rcases act_tasks_stay hact hvt hw with ⟨w', hw', hkept⟩
    exact ⟨v, w', hw', by rw [hkept.fields.2.1, hwk], hkept.pending hwp⟩

/-- A transfer that finds a test failing leaves it failing, or the task owes a
    wakeup after it. -/
theorem blocked_store {d : Dev} (hs : s.Ok N)
    (hstmt : stmt N nonblock s.dev c = some (.store d, c'))
    (hact : act t c' (.store d) s = some s') (hb : blocked k s.dev = true) :
    blocked k d = true ∨ Owed k s' := by
  rcases stmt_store hstmt with ⟨hpc, hd, hpc', hi'⟩
  by_cases hzero : (transfer N c s.dev).1 = 0
  · rcases transfer_zero hs.dev hzero with ⟨hir, hiw⟩
    rw [hd, blocked_congr k hir hiw]
    exact Or.inl hb
  · rcases Kind.eq_or_other k c.kind with hk | hk
    · -- A transfer of the blocked kind moves nothing.
      rw [← hk] at hb
      exact absurd (transfer_blocked hs.dev hb) hzero
    · -- A transfer of the other kind moved a byte, and its wakeup is to come.
      refine Or.inr ⟨t, c', ?_, by rw [(stmt_frame hstmt).1, hk], Or.inl hpc', by omega⟩
      rw [act_tasks hact, tasksAfter, Function.update_self] <;> exact fun h => Effect.noConfusion h

/-- A statement keeps every committed task covered. -/
theorem run_step_covered [DecidableEq φ] {nonblock : φ → Bool} (hs : s.Ok N) (hI : Covered s)
    (hstep : step N nonblock (.run t) s = some s') : Covered s' := by
  intro u cu hu hcom
  rcases step_run hstep with ⟨c, e, c', hc, hstmt, hact⟩
  have hkind := (stmt_frame hstmt).1
  by_cases hut : u = t
  · -- The task itself has just become committed, or was so before.
    rw [hut] at hu
    have hcu := (act_tasks_self hact hu).eq_of_interruptible hcom.2
    rw [hcu] at hcom ⊢
    rcases stmt_committed hstmt hcom with ⟨he, hwas⟩
    rw [he] at hact hstmt
    rw [hkind]
    have hdev : s'.dev = s.dev := by rw [act_none hact]; rfl
    rw [hdev]
    rcases hwas with hb | hcommitted
    · exact Or.inl hb
    · refine (hI t c hc hcommitted).imp_right fun ho => ?_
      exact owed_act hc hstmt hact (fun he => Effect.noConfusion he) ho
  · rcases act_tasks_other hact hut hu with ⟨c₀, hc₀, hkept, hwoken⟩
    have hcu := hkept.eq_of_interruptible hcom.2
    rw [hcu] at hcom ⊢
    -- A wakeup of its own queue would have made the task running.
    have hsend : e = .wakeUp → c.kind ≠ c₀.kind.other := by
      intro he hck
      have hq := hs.queued u c₀ hc₀ (by rcases hcom.1 with hpc | hpc <;> rw [hpc] <;> trivial)
      have hrun := hwoken he (by rw [hkind, hck, Kind.other_other]; exact hq)
      rw [hcu, hcom.2] at hrun
      exact TaskState.noConfusion hrun
    -- So the cover of this task is touched by a transfer at most.
    rcases hI u c₀ hc₀ hcom with hb | ho
    · rcases (act_frame hact).2.1 with hdev | ⟨d, he, hdev⟩
      · rw [hdev]
        exact Or.inl hb
      · rw [he] at hstmt hact
        rw [hdev]
        exact blocked_store hs hstmt hact hb
    · exact Or.inr (owed_act hc hstmt hact hsend ho)

/-- Replacing a call by one that is not committed, and owes as much, keeps
    every committed task covered. -/
theorem put_covered (hI : Covered s) (hc : s.tasks t = some c) (hkind : c'.kind = c.kind)
    (hp : c.Pending → c'.Pending) (hcom : ¬ c'.Committed) : Covered (s.put t c') := by
  intro u cu hu hcu
  by_cases hut : u = t
  · rw [hut] at hu
    simp only [Sys.put, Function.update_self, Option.some.injEq] at hu
    rw [hu] at hcom
    exact absurd hcu hcom
  · simp only [Sys.put, Function.update_of_ne hut] at hu
    exact (hI u cu hu hcu).imp_right fun ho => owed_put hc hkind hp ho

omit [DecidableEq ι] in
/-- Cover depends on the indices and the tasks. -/
theorem cover_keep (hir : s'.dev.ir = s.dev.ir) (hiw : s'.dev.iw = s.dev.iw)
    (htasks : s'.tasks = s.tasks) (h : blocked k s.dev = true ∨ Owed k s) :
    blocked k s'.dev = true ∨ Owed k s' := by
  rw [blocked_congr k hir hiw]
  unfold Owed
  rw [htasks]
  exact h

/-- Every step keeps every committed task covered. -/
theorem step_covered [DecidableEq φ] {nonblock : φ → Bool} (l : Step ι φ) (hs : s.Ok N)
    (hI : Covered s) (hstep : step N nonblock l s = some s') : Covered s' := by
  cases l with
  | run t => exact run_step_covered hs hI hstep
  | downFails t =>
      rcases step_downFails hstep with ⟨c, hc, hpc, rfl⟩
      refine put_covered hI hc rfl (fun hp => ?_) (fun hcom => ?_)
      · rcases hp.1 with h | h <;> rw [hpc] at h <;> exact Pc.noConfusion h
      · rcases hcom.1 with h | h <;> exact Pc.noConfusion h
  | signal t =>
      -- The signalled task is running, so it is not committed any more.
      rcases step_signal hstep with ⟨c, hc, rfl⟩
      exact put_covered hI hc rfl (fun hp => hp) (fun hcom => TaskState.noConfusion hcom.2)
  | openFile f =>
      rcases step_openFile hstep with ⟨-, rfl⟩
      intro u cu hu hcom
      -- The committed task is inside, so the open does not reset the indices.
      have hdev := open_indices hs hu
      exact cover_keep (s := s) (by rw [hdev]) (by rw [hdev]) rfl (hI u cu hu hcom)
  | releaseFile f =>
      rcases step_releaseFile hstep with ⟨-, rfl⟩
      intro u cu hu hcom
      exact cover_keep (s := s) rfl rfl rfl (hI u cu hu hcom)
  | call t kind f len buffer =>
      rcases step_call hstep with ⟨⟨-, hnone⟩, rfl⟩
      intro u cu hu hcom
      by_cases hut : u = t
      · rw [hut] at hu
        simp only [Function.update_self, Option.some.injEq] at hu
        rw [← hu] at hcom
        rcases hcom.1 with h | h <;> exact Pc.noConfusion h
      · simp only [Function.update_of_ne hut] at hu
        rcases hI u cu hu hcom with hb | ⟨v, w, hw, hwk, hwp⟩
        · exact Or.inl hb
        · -- Whoever owes the wakeup was inside before, so it is not the caller.
          have hvt : v ≠ t := by
            intro h
            rw [h] at hw
            rw [hw] at hnone
            exact Bool.noConfusion hnone
          refine Or.inr ⟨v, w, ?_, hwk, hwp⟩
          simp only [Function.update_of_ne hvt]
          exact hw

end Steps

section Runs

variable [DecidableEq ι] [DecidableEq φ] {N : Nat} {nonblock : φ → Bool} {s : Sys ι φ}
  {h : History (Sys ι φ) (Step ι φ)}

theorem run_covered (hN : 0 < N) (hr : Run (step N nonblock) Sys.init h s) : Covered s :=
  hr.historyInvariant (fun _ s => Covered s)
    (fun t c hc => by simp only [Sys.init, reduceCtorEq] at hc)
    (fun _ _ l _ hr hI hstep => step_covered l (run_ok hN hr) hI hstep)

omit [DecidableEq ι] [DecidableEq φ] in
/-- A task asleep while its test would let it through has a wakeup pending. -/
theorem owed_of_asleep (hI : Covered s) {t : ι} {c : Call φ} {k : Kind} (hc : s.tasks t = some c)
    (hk : c.kind = k) (hasleep : c.Asleep) (hopen : blocked k s.dev = false) : Owed k s := by
  have hcov := hI t c hc hasleep.committed
  rw [hk] at hcov
  rcases hcov with hb | ho
  · rw [hopen] at hb
    exact Bool.noConfusion hb
  · exact ho

/-- No wakeup is lost in any run. -/
theorem noLostWakeup (hN : 0 < N) (hr : Run (step N nonblock) Sys.init h s) : WakeupSafe s := by
  have hI := run_covered hN hr
  refine ⟨fun t c hc hk hasleep hne => owed_of_asleep hI hc hk hasleep hne,
    fun t c hc hk hasleep hne => owed_of_asleep hI hc hk hasleep hne,
    fun t c t' c' hc hk hasleep hc' hk' hasleep' => ?_⟩
  -- A ring cannot be empty and full at once, so one of the two tests passes.
  cases hempty : isBufferEmpty s.dev with
  | false => exact Or.inl (owed_of_asleep hI hc hk hasleep hempty)
  | true =>
      refine Or.inr (owed_of_asleep hI hc' hk' hasleep' ?_)
      rw [isBufferEmpty_iff] at hempty
      rw [blocked, ← Bool.not_eq_true, bufferFull_iff]
      omega

/-- A reader sleeps on an empty ring of the source's size, a writer puts a
    byte in and is interrupted before its wakeup. -/
theorem noLostWakeup_pending : ∃ s : Sys Nat Nat, WakeupSafe s ∧
    ((s.tasks 0).any fun c => c.pc = .asleep ∧ c.state = .interruptible) = true ∧
      isBufferEmpty s.dev = false := by
  rcases exists_run_of_exec (step 23 fun _ => false) (Sys.init : Sys Nat Nat)
    (List.flatten [
      [.openFile 0, .call 0 .read 0 5 (fun _ => some 0)], List.replicate 6 (.run 0),
      [.openFile 1, .call 1 .write 1 1 (fun _ => some 7)], List.replicate 7 (.run 1)])
    (fun _ s => ((s.tasks 0).any fun c => c.pc = .asleep ∧ c.state = .interruptible) = true ∧
      isBufferEmpty s.dev = false) (by decide) with ⟨_, s, hr, hp⟩
  exact ⟨s, noLostWakeup (by decide) hr, of_decide_eq_true hp⟩

end Runs

end Tasks

end Poll

end KernelModules
