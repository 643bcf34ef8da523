import KernelModules.Poll.Tasks

/-!
# The Ways Out of a Call

`device_read` and `device_write` return in five ways: turned away, by a signal
in the wait loop, by `down_interruptible` failing, and with a count that is
zero or positive. Whichever it is, and however often the call slept before,
the task has left its queue, is running and does not hold `sema`. If the value
is negative the call has done nothing that others could see; if it is positive
the last two things it did were to give `sema` back and to wake the other
queue, which it had not done before.

Where a task is on a queue, may be interruptible or holds `sema` is read off
its program counter. What it has done since its call is read off the history.

## Main definitions

* `Pc.MaySleep`, `Pc.HoldsSema`, `Tidy`: The invariant on the states.
* `effectOf`, `ownEffects`: What a task has done since its call.
* `OwnSteps`: A condition on its steps since then.
* `Accounted`: The invariant on its effects.
* `CleanExit`: What holds of a call that has returned.

## Theorems

* `stmt_queue`, `stmt_maySleep`, `stmt_holdsSema`, `stmt_accounted`:
  Statements, one property each.
* `step_tidy`, `run_tidy`: Steps and runs keep the states tidy.
* `run_accounted`: And the effects accounted for.
* `run_untouched`: Quiet effects touch nothing.
* `run_cleanExit`: Every call that has returned has cleaned up.
-/

namespace KernelModules

namespace Poll

namespace Tasks

open Kernel Lib

variable {ι φ : Type*}

/-- The statements at which a task may be interruptible. -/
def Pc.MaySleep : Pc → Prop
  | .reTest | .schedule | .asleep | .setRunning => True
  | _ => False

/-- The statements between taking `sema` and giving it back. -/
def Pc.HoldsSema : Pc → Prop
  | .transfer | .up => True
  | _ => False

/-- A task is on a queue only in its wait loop and on its own, interruptible
    only where it may be, and holds `sema` only around its transfer. -/
structure Tidy (s : Sys ι φ) (t : ι) : Prop where
  queue : ∀ k, t ∈ s.waitq k → ∃ c, s.tasks t = some c ∧ c.kind = k ∧ c.pc.Queued
  state : ∀ c, s.tasks t = some c → c.state = .interruptible → c.pc.MaySleep
  sema : s.sema = some t → ∃ c, s.tasks t = some c ∧ c.pc.HoldsSema

/-- The effects that others can see, apart from those on the queues and on
    `sema`: none of these. -/
def Effect.Quiet : Effect → Prop
  | .store _ | .wakeUp => False
  | _ => True

/-- The effects of a call that stands at this statement, the latest first. -/
def Accounted (es : List Effect) : Pc → Prop
  | .up => ∀ e ∈ es, e ≠ .wakeUp
  | .wakeUp => ∃ rest, es = .up :: rest ∧ ∀ e ∈ rest, e ≠ .wakeUp
  | .returned v => (v < 0 → ∀ e ∈ es, e.Quiet) ∧
    (0 < v → ∃ rest, es = .wakeUp :: .up :: rest ∧ ∀ e ∈ rest, e ≠ .wakeUp)
  | _ => ∀ e ∈ es, e.Quiet

section Statements

variable {N : Nat} {nonblock : Bool} {d : Dev} {c c' : Call φ} {e : Effect} {es : List Effect}

/-- A call stays in its wait loop until it leaves the queue. -/
theorem stmt_queue (h : stmt N nonblock d c = some (e, c')) (hq : c.pc.Queued) :
    e = .dequeue ∨ c'.pc.Queued := by
  cases stmt_outcome h with
  | restart hpc => exact .inl rfl
  | part hpc => exact .inl rfl
  | proceed hpc hb => exact .inr trivial
  | enter hpc hb => exact .inr trivial
  | prepare hpc => exact .inr trivial
  | commit hpc hb => exact .inr trivial
  | pass hpc hs => exact .inr trivial
  | sleep hpc hs => exact .inr trivial
  | woken hpc hs => exact .inr trivial
  | interrupted hpc hs => exact .inr trivial
  | again hpc hs => exact .inr trivial
  | giveUp hpc => exact .inr trivial
  | settle hpc => exact .inr trivial
  | _ =>
      -- The other statements stand outside the wait loop.
      simp only [*, Pc.Queued] at hq

/-- A call is interruptible only where it may be. -/
theorem stmt_maySleep (h : stmt N nonblock d c = some (e, c'))
    (hmay : c.state = .interruptible → c.pc.MaySleep) (hs : c'.state = .interruptible) :
    c'.pc.MaySleep := by
  cases stmt_outcome h with
  | prepare hpc => trivial
  | proceed hpc hb => trivial
  | commit hpc hb => trivial
  | sleep hpc hs => trivial
  | woken hpc hrun =>
      rw [show (c.goto .signalTest).state = c.state from rfl, hrun] at hs
      exact TaskState.noConfusion hs
  | pass hpc hrun => exact TaskState.noConfusion hs
  | giveUp hpc => exact TaskState.noConfusion hs
  | settle hpc => exact TaskState.noConfusion hs
  | leave v hpc =>
      have := hmay hs
      rw [hpc] at this
      exact this.elim
  | _ =>
      -- Nothing else changes the state, and it was running before.
      have := hmay hs
      simp only [*, Pc.MaySleep] at this

/-- A call takes `sema` before its transfer and gives it back after it. -/
theorem stmt_holdsSema (h : stmt N nonblock d c = some (e, c')) :
    (e = .down → c'.pc.HoldsSema) ∧ (c.pc.HoldsSema → e = .up ∨ c'.pc.HoldsSema) := by
  cases stmt_outcome h with
  | acquire hpc => exact ⟨fun _ => trivial, fun _ => .inr trivial⟩
  | move hpc => exact ⟨fun he => Effect.noConfusion he, fun _ => .inr trivial⟩
  | free hpc => exact ⟨fun he => Effect.noConfusion he, fun _ => .inl rfl⟩
  | proceed hpc hb =>
      refine ⟨fun he => Effect.noConfusion he, fun hh => ?_⟩
      rcases hpc with hpc | hpc <;> rw [hpc] at hh <;> exact hh.elim
  | _ =>
      refine ⟨fun he => Effect.noConfusion he, fun hh => ?_⟩
      simp only [*, Pc.HoldsSema] at hh

/-- Each statement accounts for its effect. -/
theorem stmt_accounted (h : stmt N nonblock d c = some (e, c')) (ha : Accounted es c.pc)
    (hstay : ∀ v, c.pc ≠ .returned v) : Accounted (e :: es) c'.pc := by
  cases stmt_outcome h with
  | refuse hpc hb hn =>
      rw [hpc] at ha
      refine ⟨fun _ => List.forall_mem_cons.mpr ⟨trivial, ha⟩, fun hpos => ?_⟩
      exact absurd hpos (by decide)
  | restart hpc =>
      rw [hpc] at ha
      refine ⟨fun _ => List.forall_mem_cons.mpr ⟨trivial, ha⟩, fun hpos => ?_⟩
      exact absurd hpos (by decide)
  | move hpc =>
      rw [hpc] at ha
      refine List.forall_mem_cons.mpr ⟨fun he => Effect.noConfusion he, fun e he hw => ?_⟩
      have hquiet := ha e he
      rw [hw] at hquiet
      exact hquiet.elim
  | free hpc =>
      rw [hpc] at ha
      exact ⟨es, rfl, ha⟩
  | notify hpc hi =>
      rw [hpc] at ha
      rcases ha with ⟨rest, rfl, hrest⟩
      refine ⟨fun hneg => absurd hneg (by omega), fun _ => ⟨rest, rfl, hrest⟩⟩
  | silent hpc hi =>
      refine ⟨fun hneg => absurd hneg (by omega), fun hpos => absurd hpos (by omega)⟩
  | leave v hpc => exact absurd hpc (hstay v)
  | proceed hpc hb =>
      refine List.forall_mem_cons.mpr ⟨trivial, ?_⟩
      rcases hpc with hpc | hpc <;> rw [hpc] at ha <;> exact ha
  | _ =>
      -- On the way to the transfer every effect is quiet.
      refine List.forall_mem_cons.mpr ⟨trivial, ?_⟩
      simp only [*, Accounted] at ha
      exact ha

end Statements

section Effects

variable [DecidableEq ι] {s s' : Sys ι φ} {t : ι} {c : Call φ} {e : Effect}

/-- What an effect does to the queues as far as its own task goes. -/
theorem act_waitq_self (h : act t c e s = some s') {k : Kind} (hq : t ∈ s'.waitq k) :
    (e = .enqueue ∧ k = c.kind) ∨ (t ∈ s.waitq k ∧ (e = .dequeue → k ≠ c.kind)) := by
  cases e with
  | enqueue =>
      rw [act, Option.some.injEq] at h
      rw [← h] at hq
      by_cases hk : k = c.kind
      · exact .inl ⟨rfl, hk⟩
      · simp only [Function.update_of_ne hk] at hq
        exact .inr ⟨hq, fun he => Effect.noConfusion he⟩
  | dequeue =>
      rw [act, Option.some.injEq] at h
      rw [← h] at hq
      by_cases hk : k = c.kind
      · rw [hk] at hq
        simp only [Function.update_self, Finset.mem_erase, ne_eq, not_true_eq_false,
          false_and] at hq
      · simp only [Function.update_of_ne hk] at hq
        exact .inr ⟨hq, fun _ => hk⟩
  | down =>
      rw [act, Option.ite_none_right_eq_some, Option.some.injEq] at h
      rw [← h.2] at hq
      exact .inr ⟨hq, fun he => Effect.noConfusion he⟩
  | _ =>
      rw [act, Option.some.injEq] at h
      rw [← h] at hq
      exact .inr ⟨hq, fun he => Effect.noConfusion he⟩

/-- Who holds `sema` after an effect. -/
theorem act_sema (h : act t c e s = some s') {u : ι} (hu : s'.sema = some u) :
    (e = .down ∧ u = t) ∨ (s.sema = some u ∧ e ≠ .up) := by
  cases e with
  | down =>
      rw [act, Option.ite_none_right_eq_some, Option.some.injEq] at h
      rw [← h.2, Option.some.injEq] at hu
      exact .inl ⟨rfl, hu.symm⟩
  | up =>
      rw [act, Option.some.injEq] at h
      rw [← h] at hu
      exact absurd hu.symm (Option.some_ne_none u)
  | _ =>
      rw [act, Option.some.injEq] at h
      rw [← h] at hu
      exact .inr ⟨hu, fun he => Effect.noConfusion he⟩

/-- A task that does not leave has its next call. -/
theorem act_tasks_next (h : act t c e s = some s') (hstay : e ≠ .leave) :
    ∃ c', s'.tasks t = some c' ∧ c.Kept c' := by
  rw [act_tasks h]
  cases e with
  | leave => exact absurd rfl hstay
  | wakeUp =>
      simp only [tasksAfter, wake, Function.update_self, Option.map_some]
      split
      · exact ⟨_, rfl, Or.inr rfl⟩
      · exact ⟨_, rfl, Or.inl rfl⟩
  | _ =>
      simp only [tasksAfter, Function.update_self]
      exact ⟨c, rfl, Or.inl rfl⟩

/-- A quiet effect touches neither the device nor another task. -/
theorem act_quiet (h : act t c e s = some s') (hquiet : e.Quiet) :
    s'.dev = s.dev ∧ ∀ u, u ≠ t → s'.tasks u = s.tasks u := by
  refine ⟨?_, fun u hut => ?_⟩
  · rcases (act_frame h).2.1 with hdev | ⟨d, rfl, -⟩
    · exact hdev
    · exact hquiet.elim
  · rw [act_tasks h]
    cases e with
    | wakeUp => exact hquiet.elim
    | _ => simp only [tasksAfter, Function.update_of_ne hut]

end Effects

section Invariant

variable [DecidableEq ι] [DecidableEq φ] {N : Nat} {nonblock : φ → Bool} {s s' : Sys ι φ}
  {t : ι} {c : Call φ} {l : Step ι φ}

omit [DecidableEq ι] [DecidableEq φ] in
/-- A task on a queue is in its wait loop, on its own queue. -/
theorem Tidy.queued (ht : Tidy s t) (hc : s.tasks t = some c) {k : Kind} (hk : t ∈ s.waitq k) :
    c.kind = k ∧ c.pc.Queued := by
  rcases ht.queue k hk with ⟨c₀, hc₀, hq⟩
  rw [hc, Option.some.injEq] at hc₀
  rw [hc₀]
  exact hq

omit [DecidableEq ι] [DecidableEq φ] in
/-- The holder of `sema` is around its transfer. -/
theorem Tidy.holdsSema (ht : Tidy s t) (hc : s.tasks t = some c) (hs : s.sema = some t) :
    c.pc.HoldsSema := by
  rcases ht.sema hs with ⟨c₀, hc₀, hh⟩
  rw [hc, Option.some.injEq] at hc₀
  rw [hc₀]
  exact hh

omit [DecidableEq φ] in
/-- A call may be replaced by one on the same queue that is as far, in its
    wait loop and with `sema`, and interruptible only where it may be. -/
theorem put_tidy (ht : ∀ v, Tidy s v) (hc : s.tasks t = some c) (c' : Call φ)
    (hkind : c'.kind = c.kind) (hq : c.pc.Queued → c'.pc.Queued)
    (hmay : c'.state = .interruptible → c'.pc.MaySleep)
    (hsema : c.pc.HoldsSema → c'.pc.HoldsSema) (v : ι) : Tidy (s.put t c') v := by
  by_cases hvt : v = t
  · rw [hvt]
    refine ⟨fun k hk => ?_, fun c₀ hc₀ => ?_, fun hs => ?_⟩
    · rcases (ht t).queued hc hk with ⟨hkc, hqc⟩
      exact ⟨c', Function.update_self _ _ _, hkind.trans hkc, hq hqc⟩
    · simp only [Sys.put, Function.update_self, Option.some.injEq] at hc₀
      rw [← hc₀]
      exact hmay
    · exact ⟨c', Function.update_self _ _ _, hsema ((ht t).holdsSema hc hs)⟩
  · have hother : (s.put t c').tasks v = s.tasks v := Function.update_of_ne hvt _ _
    refine ⟨fun k hk => ?_, fun c₀ hc₀ => ?_, fun hs => ?_⟩
    · rw [hother]
      exact (ht v).queue k hk
    · rw [hother] at hc₀
      exact (ht v).state c₀ hc₀
    · rw [hother]
      exact (ht v).sema hs

/-- A statement keeps every task tidy. -/
theorem run_step_tidy (ht : ∀ v, Tidy s v) (hstep : step N nonblock (.run t) s = some s') (v : ι) :
    Tidy s' v := by
  rcases step_run hstep with ⟨c, e, c', hc, hstmt, hact⟩
  have hkind := (stmt_frame hstmt).1
  by_cases hvt : v = t
  · rw [hvt]
    -- A task that leaves was neither on a queue nor the holder of `sema`.
    have hleave : e = .leave → ¬ c.pc.Queued ∧ ¬ c.pc.HoldsSema := by
      rintro rfl
      cases stmt_outcome hstmt with
      | leave v hpc =>
          rw [hpc]
          exact ⟨id, id⟩
    refine ⟨fun k hk => ?_, fun c₀ hc₀ hs => ?_, fun hs => ?_⟩
    · rcases act_waitq_self hact hk with ⟨he, hkc⟩ | ⟨hk, hdeq⟩
      · rcases act_tasks_next hact (by rw [he]; simp only [ne_eq, reduceCtorEq,
          not_false_eq_true]) with ⟨c₀, hc₀, hkept⟩
        rw [he] at hstmt
        cases stmt_outcome hstmt with
        | join hpc =>
            rcases hkept.fields with ⟨hpc₀, hkind₀, -⟩
            exact ⟨c₀, hc₀, hkind₀.trans hkc.symm, by rw [hpc₀]; trivial⟩
      · rcases (ht t).queued hc hk with ⟨hkc, hq⟩
        rcases act_tasks_next hact (fun he => (hleave he).1 hq) with ⟨c₀, hc₀, hkept⟩
        rcases hkept.fields with ⟨hpc₀, hkind₀, -⟩
        refine ⟨c₀, hc₀, hkind₀.trans (hkind.trans hkc), ?_⟩
        rw [hpc₀]
        refine (stmt_queue hstmt hq).resolve_left fun he => hdeq he ?_
        rw [← hkc, hkind]
    · have hkept := act_tasks_self hact hc₀
      have hsame := hkept.eq_of_interruptible hs
      rw [hsame] at hs ⊢
      exact stmt_maySleep hstmt ((ht t).state c hc) hs
    · rcases act_sema hact hs with ⟨he, -⟩ | ⟨hs, hup⟩
      · rcases act_tasks_next hact (by rw [he]; simp only [ne_eq, reduceCtorEq,
          not_false_eq_true]) with ⟨c₀, hc₀, hkept⟩
        refine ⟨c₀, hc₀, ?_⟩
        rw [hkept.fields.1]
        exact (stmt_holdsSema hstmt).1 he
      · have hh := (ht t).holdsSema hc hs
        rcases act_tasks_next hact (fun he => (hleave he).2 hh) with ⟨c₀, hc₀, hkept⟩
        refine ⟨c₀, hc₀, ?_⟩
        rw [hkept.fields.1]
        exact ((stmt_holdsSema hstmt).2 hh).resolve_left hup
  · refine ⟨fun k hk => ?_, fun c₀ hc₀ hs => ?_, fun hs => ?_⟩
    · rcases (ht v).queue k ((act_waitq_other hact hvt k).mp hk) with ⟨c₁, hc₁, hkc, hq⟩
      rcases act_tasks_stay hact hvt hc₁ with ⟨c₀, hc₀, hkept⟩
      rcases hkept.fields with ⟨hpc₀, hkind₀, -⟩
      exact ⟨c₀, hc₀, hkind₀.trans hkc, by rw [hpc₀]; exact hq⟩
    · rcases act_tasks_other hact hvt hc₀ with ⟨c₁, hc₁, hkept, -⟩
      have hsame := hkept.eq_of_interruptible hs
      rw [hsame] at hs ⊢
      exact (ht v).state c₁ hc₁ hs
    · rcases act_sema hact hs with ⟨-, hv⟩ | ⟨hs, -⟩
      · exact absurd hv hvt
      · rcases (ht v).sema hs with ⟨c₁, hc₁, hh⟩
        rcases act_tasks_stay hact hvt hc₁ with ⟨c₀, hc₀, hkept⟩
        exact ⟨c₀, hc₀, by rw [hkept.fields.1]; exact hh⟩

/-- Every step keeps every task tidy. -/
theorem step_tidy (ht : ∀ v, Tidy s v) (hstep : step N nonblock l s = some s') (v : ι) :
    Tidy s' v := by
  cases l with
  | run t => exact run_step_tidy ht hstep v
  | downFails t =>
      rcases step_downFails hstep with ⟨c, hc, hpc, rfl⟩
      refine put_tidy ht hc (c.goto (.returned (-ERESTARTSYS))) rfl (fun hq => ?_) (fun hs => ?_)
        (fun hh => ?_) v
      · rw [hpc] at hq
        exact hq.elim
      · have hmay := (ht t).state c hc hs
        rw [hpc] at hmay
        exact hmay.elim
      · rw [hpc] at hh
        exact hh.elim
  | signal t =>
      rcases step_signal hstep with ⟨c, hc, rfl⟩
      exact put_tidy ht hc { c with state := .running, signal := true } rfl id
        (fun hs => TaskState.noConfusion hs) id v
  | openFile f =>
      rcases step_openFile hstep with ⟨-, rfl⟩
      exact ⟨(ht v).queue, (ht v).state, (ht v).sema⟩
  | releaseFile f =>
      rcases step_releaseFile hstep with ⟨-, rfl⟩
      exact ⟨(ht v).queue, (ht v).state, (ht v).sema⟩
  | call t kind f len buffer =>
      rcases step_call hstep with ⟨⟨-, hnone⟩, rfl⟩
      rw [Option.isNone_iff_eq_none] at hnone
      by_cases hvt : v = t
      · rw [hvt]
        -- A task outside the driver was on no queue and held nothing.
        refine ⟨fun k hk => ?_, fun c₀ hc₀ hs => ?_, fun hs => ?_⟩
        · rcases (ht t).queue k hk with ⟨c₁, hc₁, -⟩
          rw [hnone] at hc₁
          exact absurd hc₁.symm (Option.some_ne_none c₁)
        · simp only [Function.update_self, Option.some.injEq] at hc₀
          rw [← hc₀] at hs
          exact TaskState.noConfusion hs
        · rcases (ht t).sema hs with ⟨c₁, hc₁, -⟩
          rw [hnone] at hc₁
          exact absurd hc₁.symm (Option.some_ne_none c₁)
      · refine ⟨fun k hk => ?_, fun c₀ hc₀ => ?_, fun hs => ?_⟩
        · simp only [Function.update_of_ne hvt]
          exact (ht v).queue k hk
        · simp only [Function.update_of_ne hvt] at hc₀
          exact (ht v).state c₀ hc₀
        · simp only [Function.update_of_ne hvt]
          exact (ht v).sema hs

theorem run_tidy {h : History (Sys ι φ) (Step ι φ)}
    (hr : Run (step N nonblock) (Sys.init : Sys ι φ) h s) (v : ι) : Tidy s v := by
  refine hr.invariant (fun s => ∀ v, Tidy s v) (fun v => ?_)
    (fun _ _ _ ht hstep v => step_tidy ht hstep v) v
  refine ⟨fun k hk => absurd hk (Finset.notMem_empty v), fun c hc => ?_, fun hs => ?_⟩
  · exact absurd hc.symm (Option.some_ne_none c)
  · exact absurd hs.symm (Option.some_ne_none v)

end Invariant

section History

variable [DecidableEq ι] {N : Nat} {nonblock : φ → Bool}

/-- The effect of the next statement of a task. -/
def effectOf (N : Nat) (nonblock : φ → Bool) (t : ι) (s : Sys ι φ) : Option Effect :=
  (s.tasks t).bind fun c => (stmt N (nonblock c.file) s.dev c).map Prod.fst

/-- The effects of the statements a task has run since its call, the latest
    first. -/
def ownEffects (N : Nat) (nonblock : φ → Bool) (t : ι) :
    History (Sys ι φ) (Step ι φ) → List Effect
  | [] => []
  | (s, .run u) :: h =>
    if u = t then (effectOf N nonblock t s).toList ++ ownEffects N nonblock t h
    else ownEffects N nonblock t h
  | (_, .call u _ _ _ _) :: h => if u = t then [] else ownEffects N nonblock t h
  | (_, .downFails _) :: h | (_, .signal _) :: h | (_, .openFile _) :: h
  | (_, .releaseFile _) :: h => ownEffects N nonblock t h

/-- Each step of a task since its call takes the state it is taken in and the
    one it leads to as `P` says. The history is that of the last argument. -/
def OwnSteps (P : Sys ι φ → Sys ι φ → Prop) (t : ι) :
    History (Sys ι φ) (Step ι φ) → Sys ι φ → Prop
  | [], _ => True
  | (s, .run u) :: h, s' | (s, .downFails u) :: h, s' => (u = t → P s s') ∧ OwnSteps P t h s
  | (s, .call u _ _ _ _) :: h, _ => u = t ∨ OwnSteps P t h s
  | (s, .signal _) :: h, _ | (s, .openFile _) :: h, _ | (s, .releaseFile _) :: h, _ =>
    OwnSteps P t h s

/-- The device and all tasks but this one are as before. -/
def Untouched (t : ι) (s s' : Sys ι φ) : Prop :=
  s'.dev = s.dev ∧ ∀ u, u ≠ t → s'.tasks u = s.tasks u

/-- A call of task `t` has returned `v`: it is on neither queue, running, and
    not the holder of `sema`. If `v` is an error, none of its steps has changed
    `ir`, `iw`, `rbuf` or another task; if `v` is positive, it has woken the
    other queue once, right after giving `sema` back. -/
structure CleanExit (N : Nat) (nonblock : φ → Bool) (t : ι) (h : History (Sys ι φ) (Step ι φ))
    (s : Sys ι φ) (c : Call φ) (v : Int) : Prop where
  queues : ∀ k, t ∉ s.waitq k
  running : c.state = .running
  sema : s.sema ≠ some t
  error : v < 0 → OwnSteps (Untouched t) t h s ∧ ∀ e ∈ ownEffects N nonblock t h, e.Quiet
  positive : 0 < v → ∃ rest, ownEffects N nonblock t h = .wakeUp :: .up :: rest ∧
    ∀ e ∈ rest, e ≠ .wakeUp

variable [DecidableEq φ] {s s' : Sys ι φ} {t : ι} {c : Call φ}
  {h : History (Sys ι φ) (Step ι φ)}

omit [DecidableEq φ] in
theorem ownEffects_run {c' : Call φ} {e : Effect} (hc : s.tasks t = some c)
    (hstmt : stmt N (nonblock c.file) s.dev c = some (e, c')) :
    ownEffects N nonblock t ((s, .run t) :: h) = e :: ownEffects N nonblock t h := by
  rw [ownEffects, if_pos rfl, effectOf, hc, Option.bind_some, hstmt]
  rfl

/-- Quiet effects touch nothing. -/
theorem run_untouched (hr : Run (step N nonblock) (Sys.init : Sys ι φ) h s) :
    (∀ e ∈ ownEffects N nonblock t h, e.Quiet) → OwnSteps (Untouched t) t h s := by
  induction hr with
  | start => exact fun _ => trivial
  | next l hr hstep ih =>
      intro hquiet
      cases l with
      | run u =>
          rcases step_run hstep with ⟨c, e, c', hc, hstmt, hact⟩
          by_cases hut : u = t
          · rw [hut] at hc hquiet hact
            rw [ownEffects_run hc hstmt, List.forall_mem_cons] at hquiet
            exact ⟨fun _ => act_quiet hact hquiet.1, ih hquiet.2⟩
          · rw [ownEffects, if_neg hut] at hquiet
            exact ⟨fun h => absurd h hut, ih hquiet⟩
      | downFails u =>
          rcases step_downFails hstep with ⟨c, hc, -, rfl⟩
          refine ⟨fun hut => ⟨rfl, fun v hv => ?_⟩, ih hquiet⟩
          rw [hut]
          exact Function.update_of_ne hv _ _
      | call u kind f len buffer =>
          by_cases hut : u = t
          · exact .inl hut
          · rw [ownEffects, if_neg hut] at hquiet
            exact .inr (ih hquiet)
      | signal u => exact ih hquiet
      | openFile f => exact ih hquiet
      | releaseFile f => exact ih hquiet

/-- A statement of the task itself accounts for its effect, if the task is
    still inside after it. -/
theorem run_step_accounted {cu : Call φ}
    (ha : ∀ c, s.tasks t = some c → Accounted (ownEffects N nonblock t h) c.pc)
    (hstep : step N nonblock (.run t) s = some s') (hcu : s'.tasks t = some cu) :
    Accounted (ownEffects N nonblock t ((s, .run t) :: h)) cu.pc := by
  rcases step_run hstep with ⟨c, e, c', hc, hstmt, hact⟩
  rw [ownEffects_run hc hstmt, (act_tasks_self hact hcu).fields.1]
  refine stmt_accounted hstmt (ha c hc) fun v hpc => ?_
  -- The one statement behind a return is to leave.
  rw [stmt, hpc, Option.some.injEq, Prod.mk.injEq] at hstmt
  rw [act_tasks hact, ← hstmt.1, tasksAfter, Function.update_self] at hcu
  exact absurd hcu.symm (Option.some_ne_none cu)

/-- The effects of a task are those of a call at its statement. -/
theorem run_accounted (hr : Run (step N nonblock) (Sys.init : Sys ι φ) h s) :
    ∀ c, s.tasks t = some c → Accounted (ownEffects N nonblock t h) c.pc := by
  induction hr with
  | start => exact fun c hc => absurd hc.symm (Option.some_ne_none c)
  | next l hr hstep ih =>
      intro cu hcu
      cases l with
      | run u =>
          by_cases hut : t = u
          · rw [← hut] at hstep ⊢
            exact run_step_accounted ih hstep hcu
          · rcases step_run hstep with ⟨c, e, c', -, -, hact⟩
            rcases act_tasks_other hact hut hcu with ⟨c₀, hc₀, hkept, -⟩
            rw [ownEffects, if_neg (Ne.symm hut), hkept.fields.1]
            exact ih c₀ hc₀
      | downFails u =>
          rcases step_downFails hstep with ⟨c, hc, hpc, rfl⟩
          by_cases hut : t = u
          · rw [hut] at hcu ⊢
            have hquiet := ih c (hut ▸ hc)
            rw [hpc, hut] at hquiet
            simp only [Sys.put, Function.update_self, Option.some.injEq] at hcu
            rw [← hcu]
            exact ⟨fun _ => hquiet, fun hpos => absurd hpos (by decide)⟩
          · simp only [Sys.put, Function.update_of_ne hut] at hcu
            exact ih cu hcu
      | signal u =>
          rcases step_signal hstep with ⟨c, hc, rfl⟩
          by_cases hut : t = u
          · rw [hut] at hcu ⊢
            have ha := ih c (hut ▸ hc)
            rw [hut] at ha
            simp only [Sys.put, Function.update_self, Option.some.injEq] at hcu
            rw [← hcu]
            exact ha
          · simp only [Sys.put, Function.update_of_ne hut] at hcu
            exact ih cu hcu
      | call u kind f len buffer =>
          rcases step_call hstep with ⟨-, rfl⟩
          by_cases hut : t = u
          · rw [hut] at hcu ⊢
            simp only [Function.update_self, Option.some.injEq] at hcu
            rw [← hcu, ownEffects, if_pos rfl]
            exact fun e he => absurd he List.not_mem_nil
          · simp only [Function.update_of_ne hut] at hcu
            rw [ownEffects, if_neg (Ne.symm hut)]
            exact ih cu hcu
      | openFile f =>
          rcases step_openFile hstep with ⟨-, rfl⟩
          exact ih cu hcu
      | releaseFile f =>
          rcases step_releaseFile hstep with ⟨-, rfl⟩
          exact ih cu hcu

/-- Every call that has returned has cleaned up, in every run. -/
theorem run_cleanExit {v : Int} (hr : Run (step N nonblock) (Sys.init : Sys ι φ) h s)
    (hc : s.tasks t = some c) (hpc : c.pc = .returned v) : CleanExit N nonblock t h s c v := by
  have htidy := run_tidy hr t
  have haccounted := run_accounted hr c hc
  rw [hpc] at haccounted
  refine ⟨fun k hk => ?_, ?_, fun hs => ?_, fun hneg => ?_, haccounted.2⟩
  · have hq := (htidy.queued hc hk).2
    rw [hpc] at hq
    exact hq.elim
  · cases hstate : c.state with
    | running => rfl
    | interruptible =>
        have hmay := htidy.state c hc hstate
        rw [hpc] at hmay
        exact hmay.elim
  · have hh := htidy.holdsSema hc hs
    rw [hpc] at hh
    exact hh.elim
  · exact ⟨run_untouched hr (haccounted.1 hneg), haccounted.1 hneg⟩

/-- A reader sleeps, is woken by a writer and returns its byte; another one is
    ended by a signal. -/
theorem run_cleanExit_two : ∃ (h : History (Sys Nat Nat) (Step Nat Nat)) (s : Sys Nat Nat)
    (c c' : Call Nat), s.tasks 0 = some c ∧ CleanExit 23 (fun _ => false) 0 h s c 1 ∧
      s.tasks 2 = some c' ∧ CleanExit 23 (fun _ => false) 2 h s c' (-ERESTARTSYS) := by
  rcases exists_run_of_exec (step 23 fun _ => false) (Sys.init : Sys Nat Nat)
    (List.flatten [
      [.openFile 0, .call 0 .read 0 1 (fun _ => some 0)], List.replicate 6 (.run 0),
      [.call 1 .write 0 1 (fun _ => some 7)], List.replicate 9 (.run 1), List.replicate 9 (.run 0),
      [.call 2 .read 0 1 (fun _ => some 0)], List.replicate 6 (.run 2), [.signal 2],
      List.replicate 4 (.run 2)])
    (fun _ s => (∃ c ∈ s.tasks 0, c.pc = .returned 1) ∧
      ∃ c ∈ s.tasks 2, c.pc = .returned (-ERESTARTSYS)) (by decide) with ⟨h, s, hr, hp⟩
  rcases of_decide_eq_true hp with ⟨⟨c, hc, hpc⟩, c', hc', hpc'⟩
  exact ⟨h, s, c, c', hc, run_cleanExit hr hc hpc, hc', run_cleanExit hr hc' hpc'⟩

end History

end Tasks

end Poll

end KernelModules
