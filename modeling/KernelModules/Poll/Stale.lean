import KernelModules.Poll.Tasks
import Mathlib.Data.Fintype.Basic

/-!
# Stale Tests

A call tests the ring before it takes `sema`, and other calls may run between
the test and the transfer. So the answer may be stale when it is used: twice
in the source, once by the transfer, which then moves nothing and returns 0,
and once by a call on an `O_NONBLOCK` file, which decides not to return
`-EAGAIN` and then finds its wait loop closed.

A call is overtaken when, since its own last test that let it through, a call
of its own kind took all there was and no call of the other kind came after.
That is read off the steps of the others alone. `run_tracked` says it is the
exact truth about the ring for a call that was let through. So a reader
returns 0 exactly when it is overtaken at its transfer, and a non-blocking
call goes to sleep exactly when it is overtaken at the last test of its wait
loop. Two readers around one byte are enough.

## Main definitions

* `Overtaken`: The call's last passing test is stale.
* `Passed`: The call has been let through by a test.
* `Tracked`: The ring is as `Overtaken` says.
* `NoEof`, `NoSleep`: What is expected of reads, and of non-blocking calls.

## Theorems

* `overtaken_cons`: What one step does to `Overtaken`.
* `step_tracked`, `run_tracked`: The ring is as `Overtaken` says in any run.
* `run_noEof_iff`: No read returns 0 as long as no transfer is overtaken.
* `run_eof`: A read that returns 0.
* `run_noSleep_iff`: No non-blocking call sleeps as long as none is overtaken.
* `run_sleep`: A non-blocking call that sleeps.
-/

namespace KernelModules

namespace Poll

namespace Tasks

open Kernel Lib

variable {ι φ : Type*}

def Pc.IsTest (pc : Pc) : Prop := pc = .firstTest ∨ pc = .loopTest ∨ pc = .reTest

/-- The step is a test of task `t` that lets a call of kind `k` through. -/
def Passes (k : Kind) (t : ι) (s : Sys ι φ) (l : Step ι φ) : Prop :=
  l = .run t ∧ ∃ c, s.tasks t = some c ∧ c.pc.IsTest ∧ blocked k s.dev = false

/-- The step is a transfer of kind `k` that takes all there is. -/
def Drains (N : Nat) (k : Kind) (s : Sys ι φ) (l : Step ι φ) : Prop :=
  ∃ t c, Transfers s l t c ∧ c.kind = k ∧ Exhausts N c s.dev

/-- The step is a transfer of the other kind of a byte at least. -/
def Refills (k : Kind) (s : Sys ι φ) (l : Step ι φ) : Prop :=
  ∃ t c, Transfers s l t c ∧ c.kind = k.other ∧ 1 ≤ c.len

/-- Since the last test that let the call of task `t` through, a call of its
    kind has taken all there was, and none of the other kind came after. -/
def Overtaken (N : Nat) (k : Kind) (t : ι) : History (Sys ι φ) (Step ι φ) → Prop
  | [] => False
  | (s, l) :: h =>
    ¬ Passes k t s l ∧ ¬ Refills k s l ∧ (Drains N k s l ∨ Overtaken N k t h)

/-- The statements behind the last test of the wait loop. -/
def Pc.Through : Pc → Prop
  | .setRunning | .leaveQueue | .down | .transfer => True
  | _ => False

/-- The statements from the first test to the last. -/
def Pc.Between : Pc → Prop
  | .addQueue | .loopTest | .setState | .reTest | .schedule | .asleep | .signalTest => True
  | _ => False

/-- A test has let the call through: the last one, or the first one if the
    call does not block. -/
def Passed (nonblock : Bool) (c : Call φ) : Prop :=
  c.pc.Through ∨ nonblock = true ∧ c.pc.Between

/-- For the calls that were let through, the ring is as `Overtaken` says. -/
def Tracked (N : Nat) (nonblock : φ → Bool) (h : History (Sys ι φ) (Step ι φ)) (s : Sys ι φ) :
    Prop :=
  ∀ t c, s.tasks t = some c → Passed (nonblock c.file) c →
    (Overtaken N c.kind t h ↔ blocked c.kind s.dev = true)

/-- What the call returns, once that is settled. -/
def Call.result (c : Call φ) : Option Int :=
  match c.pc with
  | .returned v => some v
  | .up | .wakeUp => some c.i
  | _ => none

/-- No read that asked for a byte returns 0. -/
def NoEof (s : Sys ι φ) : Prop :=
  ∀ t c, s.tasks t = some c → c.kind = .read → 1 ≤ c.len → c.result ≠ some 0

/-- No call on a non-blocking file is in `schedule()`. -/
def NoSleep (nonblock : φ → Bool) (s : Sys ι φ) : Prop :=
  ∀ t c, s.tasks t = some c → nonblock c.file = true → c.pc ≠ .schedule ∧ c.pc ≠ .asleep

instance [Fintype ι] (s : Sys ι φ) : Decidable (NoEof s) :=
  decidable_of_iff (∀ t, ∀ c ∈ s.tasks t, c.kind = .read → 1 ≤ c.len → c.result ≠ some 0)
    Iff.rfl

instance [Fintype ι] (nonblock : φ → Bool) (s : Sys ι φ) : Decidable (NoSleep nonblock s) :=
  decidable_of_iff
    (∀ t, ∀ c ∈ s.tasks t, nonblock c.file = true → c.pc ≠ .schedule ∧ c.pc ≠ .asleep) Iff.rfl

/-- A reader that makes its transfer now, for a byte at least, has not been
    overtaken. -/
def ReadsInTime (N : Nat) (h : History (Sys ι φ) (Step ι φ)) (s : Sys ι φ) (l : Step ι φ) : Prop :=
  ∀ t c, Transfers s l t c → c.kind = .read → 1 ≤ c.len → ¬ Overtaken N .read t h

/-- A call on a non-blocking file that makes the last test of its wait loop
    now has not been overtaken. -/
def TestsInTime (N : Nat) (nonblock : φ → Bool) (h : History (Sys ι φ) (Step ι φ)) (s : Sys ι φ)
    (l : Step ι φ) : Prop :=
  ∀ t c, l = .run t → s.tasks t = some c → c.pc = .reTest → nonblock c.file = true →
    ¬ Overtaken N c.kind t h

section Statements

variable {N : Nat} {nonblock : Bool} {d : Dev} {c c' : Call φ} {e : Effect}

/-- A statement leaves a call let through when it is a test that does so, or
    when the call was let through before and no test has done so again. -/
theorem stmt_passed (h : stmt N nonblock d c = some (e, c')) (hp : Passed nonblock c') :
    c.pc ≠ .transfer ∧ ((c.pc.IsTest ∧ blocked c.kind d = false) ∨
      (Passed nonblock c ∧ (c.pc.IsTest → blocked c.kind d = true))) := by
  cases stmt_outcome h with
  | firstPass hpc hb =>
      rcases hp with hp | ⟨hn, -⟩
      · exact hp.elim
      · refine ⟨by simp only [hpc, ne_eq, reduceCtorEq, not_false_eq_true], Or.inl ⟨Or.inl hpc, ?_⟩⟩
        -- A blocked first test does not let a non-blocking call through.
        cases hd : blocked c.kind d with
        | false => rfl
        | true =>
            rw [hb hd] at hn
            exact Bool.noConfusion hn
  | proceed hpc hb =>
      refine ⟨?_, Or.inl ⟨Or.inr hpc, hb⟩⟩
      rcases hpc with hpc | hpc <;> simp only [hpc, ne_eq, reduceCtorEq, not_false_eq_true]
  | enter hpc hb =>
      rcases hp with hp | ⟨hn, -⟩
      · exact hp.elim
      · exact ⟨by simp only [hpc, ne_eq, reduceCtorEq, not_false_eq_true],
          Or.inr ⟨Or.inr ⟨hn, by rw [hpc]; trivial⟩, fun _ => hb⟩⟩
  | commit hpc hb =>
      rcases hp with hp | ⟨hn, -⟩
      · exact hp.elim
      · exact ⟨by simp only [hpc, ne_eq, reduceCtorEq, not_false_eq_true],
          Or.inr ⟨Or.inr ⟨hn, by rw [hpc]; trivial⟩, fun _ => hb⟩⟩
  | leave v hpc =>
      simp only [Passed, hpc, Pc.Through, Pc.Between, and_false, or_self] at hp
  | _ =>
      -- What is left are statements that are no tests.
      simp only [Passed, Call.goto, Pc.Through, Pc.Between, and_false, or_self, and_true,
        false_or, or_false] at hp
      try exact ⟨by simp only [*, ne_eq, reduceCtorEq, not_false_eq_true],
        Or.inr ⟨by simp only [Passed, *, Pc.Through, Pc.Between, and_self, or_true, true_or],
          fun ht => by simp only [Pc.IsTest, *, reduceCtorEq, or_self] at ht⟩⟩

/-- A statement settles on 0 in a transfer that moves nothing, and nowhere
    else. -/
theorem stmt_result (h : stmt N nonblock d c = some (e, c')) (hr : c'.result = some 0) :
    (c.pc = .transfer ∧ (transfer N c d).1 = 0) ∨ c.result = some 0 := by
  cases stmt_outcome h with
  | refuse hpc hb hn | restart hpc =>
      -- An error is negative.
      simp only [Call.result, Call.goto, Option.some.injEq] at hr
      exact absurd hr (by decide)
  | move hpc =>
      simp only [Call.result, Option.some.injEq, Int.natCast_eq_zero] at hr
      exact Or.inl ⟨hpc, hr⟩
  | free hpc | notify hpc hi | silent hpc hi =>
      -- The count is settled by now and is handed on.
      refine Or.inr ?_
      simp only [Call.result, Call.goto] at hr
      simp only [Call.result, hpc]
      exact hr
  | leave v hpc => exact Or.inr hr
  | _ => simp only [Call.result, Call.goto, reduceCtorEq] at hr

/-- A statement leads to `schedule()` from the last test of the wait loop, and
    stays there when the task falls asleep. -/
theorem stmt_schedule (h : stmt N nonblock d c = some (e, c'))
    (hs : c'.pc = .schedule ∨ c'.pc = .asleep) :
    (c.pc = .reTest ∧ blocked c.kind d = true) ∨ c.pc = .schedule := by
  cases stmt_outcome h with
  | commit hpc hb => exact Or.inl ⟨hpc, hb⟩
  | sleep hpc hst => exact Or.inr hpc
  | leave v hpc => simp only [hpc, reduceCtorEq, or_self] at hs
  | _ => simp only [Call.goto, reduceCtorEq, or_self] at hs

/-- A reader that asked for a byte and gets none found the ring empty. -/
theorem empty_of_read_zero (hd : d.Ok N) (hk : c.kind = .read) (hlen : 1 ≤ c.len)
    (hi : (transfer N c d).1 = 0) : blocked c.kind d = true := by
  simp only [transfer, hk, readTransfer_count hd] at hi
  rw [hk, blocked, ← hd.held_eq_zero_iff]
  omega

end Statements

section Overtaking

variable {N : Nat} {k : Kind} {t : ι} {s : Sys ι φ} {l : Step ι φ}
  {h : History (Sys ι φ) (Step ι φ)}

/-- A step that is neither a transfer nor a passing test of the task does not
    change whether it is overtaken. -/
theorem overtaken_cons (hpass : ¬ Passes k t s l) (htr : ∀ u c, ¬ Transfers s l u c) :
    Overtaken N k t ((s, l) :: h) ↔ Overtaken N k t h := by
  have hre : ¬ Refills k s l := fun ⟨u, c, hu, _⟩ => htr u c hu
  have hdr : ¬ Drains N k s l := fun ⟨u, c, hu, _⟩ => htr u c hu
  simp only [Overtaken, hpass, hre, hdr, not_false_eq_true, true_and, false_or]

/-- The transfer of a step is one transfer. -/
theorem transfers_unique {u v : ι} {c c' : Call φ} (hu : Transfers s l u c)
    (hv : Transfers s l v c') : c' = c := by
  have hl := hu.1.symm.trans hv.1
  rw [Step.run.injEq] at hl
  have hc := hu.2.1
  rw [hl, hv.2.1, Option.some.injEq] at hc
  exact hc

/-- A transfer of the own kind overtakes when it takes all there is. -/
theorem overtaken_same {u : ι} {c : Call φ} (hpass : ¬ Passes k t s l) (hu : Transfers s l u c)
    (hk : c.kind = k) :
    Overtaken N k t ((s, l) :: h) ↔ Exhausts N c s.dev ∨ Overtaken N k t h := by
  have hre : ¬ Refills k s l := by
    rintro ⟨v, c', hv, hkind, -⟩
    rw [transfers_unique hu hv, hk] at hkind
    exact Kind.other_ne k hkind.symm
  have hdr : Drains N k s l ↔ Exhausts N c s.dev := by
    refine ⟨fun ⟨v, c', hv, _, hex⟩ => ?_, fun hex => ⟨u, c, hu, hk, hex⟩⟩
    rw [← transfers_unique hu hv]
    exact hex
  simp only [Overtaken, hpass, hre, hdr, not_false_eq_true, true_and]

/-- A transfer of the other kind ends it, if it was asked for a byte. -/
theorem overtaken_other {u : ι} {c : Call φ} (hpass : ¬ Passes k t s l) (hu : Transfers s l u c)
    (hk : c.kind = k.other) :
    Overtaken N k t ((s, l) :: h) ↔ c.len = 0 ∧ Overtaken N k t h := by
  have hdr : ¬ Drains N k s l := by
    rintro ⟨v, c', hv, hkind, -⟩
    rw [transfers_unique hu hv, hk] at hkind
    exact Kind.other_ne k hkind
  have hre : Refills k s l ↔ c.len ≠ 0 := by
    refine ⟨fun ⟨v, c', hv, _, hlen⟩ => ?_, fun hlen => ⟨u, c, hu, hk, by omega⟩⟩
    rw [transfers_unique hu hv] at hlen
    omega
  simp only [Overtaken, hpass, hre, hdr, not_false_eq_true, true_and, false_or, ne_eq,
    Decidable.not_not]

/-- A call that is blocked takes all there is. -/
theorem exhausts_of_blocked {d : Dev} {c : Call φ} (hd : d.Ok N) (hb : blocked c.kind d = true) :
    Exhausts N c d := by
  rcases transfer_zero hd (transfer_blocked hd hb) with ⟨hir, hiw⟩
  rw [← blocked_transfer_same hd, blocked_congr c.kind hir hiw]
  exact hb

end Overtaking

section Runs

variable [DecidableEq ι] [DecidableEq φ] {N : Nat} {nonblock : φ → Bool} {s s' : Sys ι φ}
  {h : History (Sys ι φ) (Step ι φ)} {l : Step ι φ}

/-- For a call of another task, or of a task that made no passing test, a step
    changes the ring the way it changes `Overtaken`. -/
theorem tracked_step {k : Kind} {u : ι} {c : Call φ} (hN : 2 ≤ N) (hs : s.Ok N)
    (hstep : step N nonblock l s = some s') (hu : s.tasks u = some c) (hpass : ¬ Passes k u s l)
    (hI : Overtaken N k u h ↔ blocked k s.dev = true) :
    Overtaken N k u ((s, l) :: h) ↔ blocked k s'.dev = true := by
  rcases step_indices hs hstep hu with ⟨hno, hir, hiw⟩ | ⟨v, w, hw, hdev⟩
  · rw [overtaken_cons hpass hno, blocked_congr k hir hiw]
    exact hI
  · rw [hdev]
    rcases Kind.eq_or_other k w.kind with hk | hk
    · -- The own kind: the ring is exhausted now, or it was before, and then
      -- nothing could be moved.
      rw [overtaken_same hpass hw hk, hI, ← hk, blocked_transfer_same hs.dev]
      exact ⟨fun h => h.elim id (exhausts_of_blocked hs.dev), Or.inl⟩
    · rw [overtaken_other hpass hw hk, hI]
      by_cases hlen : w.len = 0
      · -- A transfer of nothing changes neither side.
        rcases transfer_zero hs.dev (transfer_len_zero hs.dev hlen) with ⟨hir, hiw⟩
        rw [blocked_congr k hir hiw]
        exact ⟨fun h => h.2, fun h => ⟨hlen, h⟩⟩
      · -- The other kind with a byte at least: the test passes afterwards.
        have hopen := blocked_transfer_other hN hs.dev (c := w) (by omega)
        rw [hk, Kind.other_other] at hopen
        rw [hopen]
        exact iff_of_false (fun h => hlen h.1) Bool.false_ne_true

/-- Every step keeps the ring as `Overtaken` says. -/
theorem step_tracked (hN : 2 ≤ N) (hs : s.Ok N) (hI : Tracked N nonblock h s)
    (hstep : step N nonblock l s = some s') : Tracked N nonblock ((s, l) :: h) s' := by
  intro u cu hu hp
  cases step_moved hstep hu with
  | ran c e c' hl hc hstmt hkept =>
      rcases hkept.fields with ⟨hpc, hkind, hfile, -, -⟩
      rcases stmt_frame hstmt with ⟨hkind', hfile', -⟩
      unfold Passed at hp
      rw [hpc, hfile, hfile'] at hp
      rw [hkind, hkind']
      rcases stmt_passed hstmt hp with ⟨htr, ⟨htest, hb⟩ | ⟨hwas, htest⟩⟩
      · -- The test has just passed: it is fresh, and no test changes the ring.
        have hpasses : Passes c.kind u s l := ⟨hl, c, hc, htest, hb⟩
        refine iff_of_false (fun ho => ho.1 hpasses) ?_
        rcases step_indices hs hstep hc with ⟨-, hir, hiw⟩ | ⟨v, w, hw, -⟩
        · rw [blocked_congr c.kind hir hiw, hb]
          exact Bool.false_ne_true
        · -- The only transfer of the step would be the call's own.
          have hvw := hw.1
          rw [hl, Step.run.injEq] at hvw
          have hcw := hw.2.1
          rw [← hvw, hc, Option.some.injEq] at hcw
          rw [← hcw] at hw
          exact absurd hw.2.2 htr
      · -- The call was let through before. If this was a test it failed, which
        -- is not the kind that starts anew.
        refine tracked_step hN hs hstep hc (fun ⟨_, c₁, hc₁, htest₁, hb₁⟩ => ?_) (hI u c hc hwas)
        rw [hc, Option.some.injEq] at hc₁
        rw [← hc₁] at htest₁
        rw [htest htest₁] at hb₁
        exact Bool.noConfusion hb₁
  | kept c hl hc hpc hkind hfile hlen hi =>
      unfold Passed at hp
      rw [hpc, hfile] at hp
      rw [hkind]
      exact tracked_step hN hs hstep hc (fun hpass => hl hpass.1) (hI u c hc hp)
  | failed hpc =>
      simp only [Passed, hpc, Pc.Through, Pc.Between, and_false, or_self] at hp
  | called hpc =>
      simp only [Passed, hpc, Pc.Through, Pc.Between, and_false, or_self] at hp

/-- In any run the ring is as `Overtaken` says for the calls let through. -/
theorem run_tracked (hN : 2 ≤ N) (hr : Run (step N nonblock) Sys.init h s) :
    Tracked N nonblock h s :=
  hr.historyInvariant (Tracked N nonblock)
    (fun t c hc => by simp only [Sys.init, reduceCtorEq] at hc)
    (fun _ _ _ _ hr hI hstep => step_tracked hN (run_ok (by omega) hr) hI hstep)

/-- The next step of a call whose statement is known. -/
theorem act_of_run {e : Effect} {c c' : Call φ} {t : ι} (hc : s.tasks t = some c)
    (hstmt : stmt N (nonblock c.file) s.dev c = some (e, c'))
    (hstep : step N nonblock (.run t) s = some s') : act t c' e s = some s' := by
  rcases step_run hstep with ⟨c₁, e₁, c₁', hc₁, hstmt₁, hact⟩
  rw [hc, Option.some.injEq] at hc₁
  rw [← hc₁, hstmt, Option.some.injEq, Prod.mk.injEq] at hstmt₁
  rcases hstmt₁ with ⟨rfl, rfl⟩
  exact hact

/-- After a step no read has returned 0, provided none had before, exactly
    when the step is in time. -/
theorem step_noEof_iff (hs : s.Ok N) (hT : Tracked N nonblock h s) (hbefore : NoEof s)
    (hstep : step N nonblock l s = some s') : NoEof s' ↔ ReadsInTime N h s l := by
  constructor
  · -- An overtaken reader would settle on 0 in its transfer.
    intro hafter t c ⟨hl, hc, hpc⟩ hk hlen ho
    have htr := hT t c hc (Or.inl (by rw [hpc]; trivial))
    rw [hk] at htr
    have hzero := transfer_blocked (c := c) hs.dev (by rw [hk]; exact htr.mp ho)
    rw [hl] at hstep
    have hact := act_of_run hc (by rw [stmt, hpc]) hstep
    refine hafter t { c with
      pc := .up, i := (transfer N c s.dev).1, buffer := (transfer N c s.dev).2.2 } ?_ hk hlen ?_
    · rw [act, Option.some.injEq] at hact
      rw [← hact]
      simp only [Sys.put, Function.update_self]
    · simp only [Call.result, hzero, Int.natCast_zero]
  · intro hintime u cu hu hk hlen hzero
    cases step_moved hstep hu with
    | ran c e c' hl hc hstmt hkept =>
        rcases hkept.fields with ⟨hpc, hkind, -, hlen', hi⟩
        rcases stmt_frame hstmt with ⟨hkind', -, hlen''⟩
        rw [hkind, hkind'] at hk
        rw [hlen', hlen''] at hlen
        have hres : c'.result = some 0 := by
          unfold Call.result at hzero ⊢
          rw [← hpc, ← hi]
          exact hzero
        rcases stmt_result hstmt hres with ⟨hpc', hcount⟩ | hwas
        · -- The reader found the ring empty, so it was overtaken.
          have hb := empty_of_read_zero hs.dev hk hlen hcount
          have htr := hT u c hc (Or.inl (by rw [hpc']; trivial))
          rw [hk] at htr hb
          exact hintime u c ⟨hl, hc, hpc'⟩ hk hlen (htr.mpr hb)
        · exact hbefore u c hc hk hlen hwas
    | kept c hl hc hpc hkind hfile hlen' hi =>
        refine hbefore u c hc (by rw [← hkind]; exact hk) (by rw [← hlen']; exact hlen) ?_
        unfold Call.result at hzero ⊢
        rw [← hpc, ← hi]
        exact hzero
    | failed hpc =>
        simp only [Call.result, hpc, Option.some.injEq] at hzero
        exact absurd hzero (by decide)
    | called hpc => simp only [Call.result, hpc, reduceCtorEq] at hzero

/-- In a run no read of a byte or more returns 0 exactly when every transfer
    of such a read is in time. -/
theorem run_noEof_iff (hN : 2 ≤ N) (hr : Run (step N nonblock) Sys.init h s) :
    EveryState NoEof h s ↔ EveryStep (ReadsInTime N) h :=
  hr.everyState_iff_everyStep (fun t c hc => by simp only [Sys.init, reduceCtorEq] at hc)
    (fun _ _ _ _ hr hbefore hstep =>
      step_noEof_iff (run_ok (by omega) hr) (run_tracked hN hr) hbefore hstep)

/-- Two tasks on the source's ring: a reader sleeps, and is woken to read the
    byte a writer puts in. -/
theorem run_noEof_woken :
    ∃ (h : History (Sys (Fin 2) Nat) (Step (Fin 2) Nat)) (s : Sys (Fin 2) Nat),
      EveryStep (ReadsInTime 23) h ∧ ∃ c ∈ s.tasks 0, c.pc = .returned 1 := by
  rcases exists_run_of_exec (step 23 fun _ => false) (Sys.init : Sys (Fin 2) Nat)
    (List.flatten [
      [.openFile 0, .call 0 .read 0 5 (fun _ => some 0)], List.replicate 6 (.run 0),
      [.openFile 1, .call 1 .write 1 1 (fun _ => some 7)], List.replicate 9 (.run 1),
      List.replicate 9 (.run 0)])
    (fun h s => EveryState NoEof h s ∧ ∃ c ∈ s.tasks 0, c.pc = .returned 1) (by decide) with
    ⟨h, s, hr, hp⟩
  rcases of_decide_eq_true hp with ⟨hno, hread⟩
  exact ⟨h, s, (run_noEof_iff (by decide) hr).mp hno, hread⟩

/-- Two readers wait for one byte. Both pass the test, and the one that comes
    second returns 0. -/
theorem run_eof : ∃ (h : History (Sys Nat Nat) (Step Nat Nat)) (s : Sys Nat Nat),
    Run (step 23 fun _ => false) Sys.init h s ∧
      ∃ c ∈ s.tasks 1, c.kind = .read ∧ 1 ≤ c.len ∧ c.pc = .returned 0 := by
  rcases exists_run_of_exec (step 23 fun _ => false) (Sys.init : Sys Nat Nat)
    (List.flatten [
      [.openFile 0, .call 2 .write 0 1 (fun _ => some 7)], List.replicate 9 (.run 2),
      [.call 0 .read 0 1 (fun _ => some 0), .call 1 .read 0 1 (fun _ => some 0)],
      List.replicate 5 (.run 0), List.replicate 5 (.run 1), List.replicate 3 (.run 0),
      List.replicate 4 (.run 1)])
    (fun _ s => ∃ c ∈ s.tasks 1, c.kind = .read ∧ 1 ≤ c.len ∧ c.pc = .returned 0)
    (by decide) with ⟨h, s, hr, hp⟩
  exact ⟨h, s, hr, of_decide_eq_true hp⟩

/-- After a step no non-blocking call is in `schedule()`, provided none was
    before, exactly when the step is in time. -/
theorem step_noSleep_iff (hT : Tracked N nonblock h s) (hbefore : NoSleep nonblock s)
    (hstep : step N nonblock l s = some s') :
    NoSleep nonblock s' ↔ TestsInTime N nonblock h s l := by
  constructor
  · -- An overtaken call would go from its last test to `schedule()`.
    intro hafter t c hl hc hpc hn ho
    have hb := (hT t c hc (Or.inr ⟨hn, by rw [hpc]; trivial⟩)).mp ho
    rw [hl] at hstep
    have hact := act_of_run hc (by rw [stmt, hpc]) hstep
    rw [hb, if_pos rfl] at hact
    refine (hafter t (c.goto .schedule) ?_ hn).1 rfl
    rw [act_none hact]
    simp only [Sys.put, Function.update_self]
  · intro hintime u cu hu hn
    refine not_or.mp fun hsched => ?_
    cases step_moved hstep hu with
    | ran c e c' hl hc hstmt hkept =>
        rcases hkept.fields with ⟨hpc, -, hfile, -, -⟩
        rw [hfile, (stmt_frame hstmt).2.1] at hn
        rw [hpc] at hsched
        rcases stmt_schedule hstmt hsched with ⟨hpc', hb⟩ | hwas
        · -- The last test failed for a call let through by its first one.
          refine hintime u c hl hc hpc' hn ((hT u c hc (Or.inr ⟨hn, ?_⟩)).mpr hb)
          rw [hpc']
          trivial
        · exact (hbefore u c hc hn).1 hwas
    | kept c hl hc hpc hkind hfile hlen hi =>
        rw [hpc] at hsched
        exact not_or.mpr (hbefore u c hc (by rw [← hfile]; exact hn)) hsched
    | failed hpc => simp only [hpc, reduceCtorEq, or_self] at hsched
    | called hpc => simp only [hpc, reduceCtorEq, or_self] at hsched

/-- In a run no non-blocking call reaches `schedule()` exactly when every last
    test of its wait loop is in time. -/
theorem run_noSleep_iff (hN : 2 ≤ N) (hr : Run (step N nonblock) Sys.init h s) :
    EveryState (NoSleep nonblock) h s ↔ EveryStep (TestsInTime N nonblock) h :=
  hr.everyState_iff_everyStep (fun t c hc => by simp only [Sys.init, reduceCtorEq] at hc)
    (fun _ _ _ _ hr hbefore hstep => step_noSleep_iff (run_tracked hN hr) hbefore hstep)

/-- A non-blocking reader passes its first test, another reader takes the
    byte, and a writer puts one back in time. -/
theorem run_noSleep_refilled :
    ∃ (h : History (Sys (Fin 3) Nat) (Step (Fin 3) Nat)) (s : Sys (Fin 3) Nat),
      EveryStep (TestsInTime 23 fun f => f = 1) h ∧ ∃ c ∈ s.tasks 1, c.pc = .returned 1 := by
  rcases exists_run_of_exec (step 23 fun f => f = 1) (Sys.init : Sys (Fin 3) Nat)
    (List.flatten [
      [.openFile 0, .openFile 1, .call 2 .write 0 1 (fun _ => some 7)], List.replicate 10 (.run 2),
      [.call 0 .read 0 1 (fun _ => some 0), .call 1 .read 1 1 (fun _ => some 0), .run 1],
      List.replicate 9 (.run 0), [.call 2 .write 0 1 (fun _ => some 8)], List.replicate 9 (.run 2),
      List.replicate 8 (.run 1)])
    (fun h s => EveryState (NoSleep fun f => f = 1) h s ∧ ∃ c ∈ s.tasks 1, c.pc = .returned 1)
    (by decide) with ⟨h, s, hr, hp⟩
  rcases of_decide_eq_true hp with ⟨hno, hread⟩
  exact ⟨h, s, (run_noSleep_iff (by decide) hr).mp hno, hread⟩

/-- The same without the writer: the non-blocking reader goes to sleep. -/
theorem run_sleep : ∃ (h : History (Sys Nat Nat) (Step Nat Nat)) (s : Sys Nat Nat),
    Run (step 23 fun f => f = 1) Sys.init h s ∧ ∃ c ∈ s.tasks 1, c.file = 1 ∧ c.pc = .asleep := by
  rcases exists_run_of_exec (step 23 fun f => f = 1) (Sys.init : Sys Nat Nat)
    (List.flatten [
      [.openFile 0, .openFile 1, .call 2 .write 0 1 (fun _ => some 7)], List.replicate 10 (.run 2),
      [.call 0 .read 0 1 (fun _ => some 0), .call 1 .read 1 1 (fun _ => some 0), .run 1],
      List.replicate 9 (.run 0), List.replicate 5 (.run 1)])
    (fun _ s => ∃ c ∈ s.tasks 1, c.file = 1 ∧ c.pc = .asleep) (by decide) with ⟨h, s, hr, hp⟩
  exact ⟨h, s, hr, of_decide_eq_true hp⟩

end Runs

end Tasks

end Poll

end KernelModules
