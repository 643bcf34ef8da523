import KernelModules.Lib.Rest
import KernelModules.Poll.Exit
import KernelModules.Poll.Wakeup

/-!
# The Calls Come to Rest

What the tasks inside the poll device do when nothing new happens: no file is
opened or released, no call made, no signal sent. Each call executes its
statements in order, except in the wait loop, where it goes round once more
whenever it has been made running since its last test. Only a wakeup does
that, a call sends at most one, and one wakeup costs the tasks on the queue at
most one round each. So the statements left to execute are bounded, in any
schedule, by a number that depends on how many tasks are inside and on nothing
else: neither on the counts asked for nor on the ring.

Where no statement is left that can be executed, nobody waits for `sema`, and
everybody inside sleeps, for data or for room, with reason. There is neither a
deadlock on `sema` nor a livelock between the two queues.

## Main definitions

* `Step.Own`: The steps of the tasks inside.
* `Call.pot`, `Call.tokens`: Statements left, and wakeups left to send.
* `Resting`: Everybody inside sleeps, all for the same reason.

## Theorems

* `stmt_pot`: A statement brings a call closer to its return.
* `lowers`: Every step of a task lowers the budget.
* `atRest_iff`: The states in which no statement can be executed.
* `run_comesToRest`: How many statements there are left, and where they lead.
-/

namespace KernelModules

namespace Poll

namespace Tasks

open Kernel Lib

variable {ι φ : Type*}

/-- The steps of the tasks inside the driver. The others are steps of the
    environment. -/
def Step.Own : Step ι φ → Prop
  | .run _ | .downFails _ => True
  | _ => False

/-- How far a statement stands from the return. Behind the wait loop this is
    the number of statements left, and in the loop what is left of the round. -/
def Pc.rank : Pc → Nat
  | .firstTest => 14
  | .addQueue => 13
  | .loopTest => 12
  | .setState => 11
  | .reTest => 10
  | .schedule => 9
  | .asleep => 8
  | .signalTest => 13
  | .signalRun => 3
  | .signalLeave => 2
  | .setRunning => 7
  | .leaveQueue => 6
  | .down => 5
  | .transfer => 4
  | .up => 3
  | .wakeUp => 2
  | .returned _ => 1

/-- The statements left to a call as long as nothing makes it running. A call
    that has been made running between setting its state and going to sleep
    has another round before it, and one that has a signal leaves the loop at
    the next test for it. -/
def Call.pot (c : Call φ) : Nat :=
  match c.pc, c.state, c.signal with
  | .reTest, .running, _ | .schedule, .running, _ | .asleep, .running, _ => c.pc.rank + 6
  | .signalTest, _, true => 4
  | pc, _, _ => pc.rank

/-- The wakeups a call may still send: one until it has returned. -/
def Call.tokens (c : Call φ) : Nat :=
  match c.pc with
  | .returned _ => 0
  | _ => 1

/-- A task that is not inside has nothing left to do. -/
def potOf (s : Sys ι φ) (t : ι) : Nat := (s.tasks t).elim 0 Call.pot

def tokensOf (s : Sys ι φ) (t : ι) : Nat := (s.tasks t).elim 0 Call.tokens

/-- The statements left to all tasks inside, rounds that wakeups may cost
    included. -/
def Sys.left (s : Sys ι φ) : Nat := budget s.inside (potOf s) (tokensOf s) 6

/-- Everybody inside is asleep, all of them for the same reason: readers on an
    empty ring or writers on a full one. Nobody holds `sema`. -/
structure Resting (N : Nat) (s : Sys ι φ) : Prop where
  sema : s.sema = none
  asleep : ∀ t c, s.tasks t = some c → c.Asleep
  reason : (∀ t, s.tasks t = none) ∨
    ((∀ t c, s.tasks t = some c → c.kind = .read) ∧ s.dev.held N = 0) ∨
    ((∀ t c, s.tasks t = some c → c.kind = .write) ∧ s.dev.room N = 0)

section Statements

variable {N : Nat} {nonblock : Bool} {d : Dev} {c c' : Call φ} {e : Effect}

theorem Call.pot_pos (c : Call φ) : 0 < c.pot := by
  rcases c with ⟨pc, -, -, -, -, -, state, signal⟩
  cases pc <;> cases state <;> cases signal <;> simp [Call.pot, Pc.rank]

theorem Call.pot_le (c : Call φ) : c.pot ≤ 16 := by
  rcases c with ⟨pc, -, -, -, -, -, state, signal⟩
  cases pc <;> cases state <;> cases signal <;> simp [Call.pot, Pc.rank]

theorem Call.tokens_le (c : Call φ) : c.tokens ≤ 1 := by
  rcases c with ⟨pc, -, -, -, -, -, -, -⟩
  cases pc <;> simp [Call.tokens]

/-- A statement that cannot be executed is a sleep. -/
theorem stmt_none (h : stmt N nonblock d c = none) : c.Asleep := by
  cases hpc : c.pc with
  | asleep =>
      simp only [stmt, hpc, ite_eq_right_iff, reduceCtorEq, imp_false] at h
      cases hst : c.state with
      | running => exact absurd hst h
      | interruptible => exact ⟨hpc, hst⟩
  | schedule =>
      simp only [stmt, hpc] at h
      split at h <;> exact absurd h (Option.some_ne_none _)
  | _ =>
      simp only [stmt, hpc] at h
      exact absurd h (Option.some_ne_none _)

/-- The ring is not empty and full at once. -/
theorem not_blocked_other {k : Kind} (hb : blocked k d = true) : ¬ blocked k.other d = true := by
  intro hb'
  cases k with
  | read =>
      rw [blocked, isBufferEmpty_iff] at hb
      rw [Kind.other, blocked, bufferFull_iff] at hb'
      omega
  | write =>
      rw [blocked, bufferFull_iff] at hb
      rw [Kind.other, blocked, isBufferEmpty_iff] at hb'
      omega

/-- Being made running costs a call one round at most, and no wakeup. -/
theorem Call.Kept.pot_le (h : c.Kept c') : c'.pot ≤ c.pot + 6 ∧ c'.tokens = c.tokens := by
  rcases h with rfl | rfl
  · exact ⟨Nat.le_add_right _ _, rfl⟩
  · refine ⟨?_, rfl⟩
    rcases c with ⟨pc, -, -, -, -, -, state, signal⟩
    cases pc <;> cases state <;> cases signal <;> simp [Call.awaken, Call.pot, Pc.rank]

/-- A statement brings a call closer to its return, and the wakeup is the last
    one it sends. -/
theorem stmt_pot (h : stmt N nonblock d c = some (e, c')) (hstay : e ≠ .leave) :
    c'.pot < c.pot ∧ c'.tokens ≤ c.tokens ∧ (e = .wakeUp → c'.tokens < c.tokens) := by
  cases stmt_outcome h with
  | proceed hpc hb =>
      rcases hpc with hpc | hpc <;> cases hst : c.state <;>
        simp [Call.pot, Call.tokens, Call.goto, Pc.rank, hpc, hst]
  | pass hpc hs =>
      cases hst : c.state <;> cases hsg : c.signal <;>
        simp [Call.pot, Call.tokens, Pc.rank, hpc, hst, hsg] at hs ⊢
  | sleep hpc hs => simp [Call.pot, Call.tokens, Call.goto, Pc.rank, hpc, hs]
  | woken hpc hs =>
      cases hsg : c.signal <;> simp [Call.pot, Call.tokens, Call.goto, Pc.rank, hpc, hs, hsg]
  | interrupted hpc hs => simp [Call.pot, Call.tokens, Call.goto, Pc.rank, hpc, hs]
  | again hpc hs => simp [Call.pot, Call.tokens, Call.goto, Pc.rank, hpc, hs]
  | commit hpc hb =>
      cases hst : c.state <;> simp [Call.pot, Call.tokens, Call.goto, Pc.rank, hpc, hst]
  | leave v hpc => exact absurd rfl hstay
  | _ => simp [Call.pot, Call.tokens, Call.goto, Pc.rank, *]

end Statements

section Steps

variable [DecidableEq ι] {N : Nat} {s s' : Sys ι φ} {t u : ι} {c c' : Call φ} {e : Effect}
  {nonblock : Bool}

/-- The only effect that may have to wait is `down`. -/
theorem act_eq_none (h : act t c e s = none) : e = .down ∧ s.sema ≠ none := by
  cases e with
  | down =>
      simp only [act, ite_eq_right_iff, reduceCtorEq, imp_false] at h
      exact ⟨rfl, fun hnone => h (by rw [hnone]; rfl)⟩
  | _ => exact absurd h (Option.some_ne_none _)

/-- Only a wakeup touches the calls of other tasks. -/
theorem act_tasks_other_eq (h : act t c e s = some s') (hut : u ≠ t) (he : e ≠ .wakeUp) :
    s'.tasks u = s.tasks u := by
  rw [act_tasks h]
  cases e with
  | wakeUp => exact absurd rfl he
  | _ => simp only [tasksAfter, Function.update_of_ne hut]

/-- The task that executes a statement has less left to do, and pays for the
    wakeup if it was one. -/
theorem act_self_left (hc : s.tasks t = some c) (hstmt : stmt N nonblock s.dev c = some (e, c'))
    (hact : act t c' e s = some s') :
    potOf s' t < potOf s t ∧ tokensOf s' t ≤ tokensOf s t ∧
      (e = .wakeUp → tokensOf s' t < tokensOf s t) := by
  simp only [potOf, tokensOf, hc, Option.elim_some]
  by_cases hleave : e = .leave
  · have hgone : s'.tasks t = none := by
      rw [act_tasks hact, hleave, tasksAfter, Function.update_self]
    rw [hgone, hleave]
    exact ⟨c.pot_pos, Nat.zero_le _, fun he => Effect.noConfusion he⟩
  · rcases stmt_pot hstmt hleave with ⟨hpot, htok, hpaid⟩
    rcases act_tasks_next hact hleave with ⟨cu, hcu, hkept⟩
    rw [hcu]
    simp only [Option.elim_some, hkept.pot_le.2]
    refine ⟨?_, htok, hpaid⟩
    by_cases hwake : e = .wakeUp
    · -- The wakeup is the last statement but the return, where being made
      -- running has no effect any more.
      subst hwake
      cases stmt_outcome hstmt with
      | notify hpc hi =>
          simp [Call.pot, Call.goto, Pc.rank, hkept.fields.1, hpc]
    · have hself : s'.tasks t = some c' := by
        rw [act_tasks hact, tasksAfter, Function.update_self]
        · exact hleave
        · exact hwake
      rw [hcu, Option.some.injEq] at hself
      rw [hself]
      exact hpot

/-- The others are set back by one round at most, and only by a wakeup. -/
theorem act_other_left (hc : s.tasks t = some c) (hstmt : stmt N nonblock s.dev c = some (e, c'))
    (hact : act t c' e s = some s') (hut : u ≠ t) :
    potOf s' u ≤ potOf s u + 6 * (tokensOf s t - tokensOf s' t) ∧
      tokensOf s' u ≤ tokensOf s u := by
  by_cases hwake : e = .wakeUp
  · have hpaid := (act_self_left hc hstmt hact).2.2 hwake
    simp only [potOf, tokensOf] at hpaid ⊢
    cases hcu : s'.tasks u with
    | none => exact ⟨Nat.zero_le _, Nat.zero_le _⟩
    | some cu =>
        rcases act_tasks_other hact hut hcu with ⟨c₀, hc₀, hkept, -⟩
        rcases hkept.pot_le with ⟨hpot, htok⟩
        simp only [hc₀, Option.elim_some]
        omega
  · have hsame := act_tasks_other_eq hact hut hwake
    simp only [potOf, tokensOf, hsame]
    omega

/-- A statement lowers what is left to all tasks together. -/
theorem run_step_left [DecidableEq φ] {nonblock : φ → Bool} (hs : s.Ok N)
    (hstep : step N nonblock (.run t) s = some s') : s'.left < s.left := by
  rcases step_run hstep with ⟨c, e, c', hc, hstmt, hact⟩
  have hsub : s'.inside ⊆ s.inside := by
    rcases (act_frame hact).2.2 with hin | hin <;> rw [hin]
    exact Finset.erase_subset t s.inside
  rcases act_self_left hc hstmt hact with ⟨hpot, htok, -⟩
  exact budget_lt (hs.inside t c hc).1 hsub hpot htok
    (fun u _ hut => (act_other_left hc hstmt hact hut).1)
    (fun u _ hut => (act_other_left hc hstmt hact hut).2)

/-- So does a `down_interruptible` that fails. -/
theorem downFails_left [DecidableEq φ] {nonblock : φ → Bool} (hs : s.Ok N)
    (hstep : step N nonblock (.downFails t) s = some s') : s'.left < s.left := by
  rcases step_downFails hstep with ⟨c, hc, hpc, rfl⟩
  have hother : ∀ u, u ≠ t → (s.put t (c.goto (.returned (-ERESTARTSYS)))).tasks u = s.tasks u :=
    fun u hut => Function.update_of_ne hut _ _
  refine budget_lt (hs.inside t c hc).1 (Finset.Subset.refl _) ?_ ?_ ?_ ?_
  · simp [potOf, Sys.put, hc, Call.pot, Call.goto, Pc.rank, hpc]
  · simp [tokensOf, Sys.put, hc, Call.tokens, Call.goto, hpc]
  · intro u _ hut
    simp only [potOf, hother u hut, Nat.le_add_right]
  · intro u _ hut
    simp only [tokensOf, hother u hut, Nat.le_refl]

/-- Every step of a task lowers what is left to all tasks together. -/
theorem lowers [DecidableEq φ] {nonblock : φ → Bool} (hN : 0 < N) :
    Lowers (step N nonblock) Step.Own (Sys.Ok N : Sys ι φ → Prop) Sys.left where
  keeps := fun _ l _ hs _ hstep => step_ok hN l hs hstep
  lowers := fun s l s' hs hown hstep => by
    cases l with
    | run t => exact run_step_left hs hstep
    | downFails t => exact downFails_left hs hstep
    | _ => exact hown.elim

omit [DecidableEq ι] in
/-- The statements left are bounded by the number of tasks inside. -/
theorem left_le (s : Sys ι φ) :
    s.left ≤ s.inside.card * 16 + 6 * s.inside.card * (s.inside.card * 1) := by
  refine budget_le (fun u _ => ?_) (fun u _ => ?_)
  · unfold potOf
    cases s.tasks u with
    | none => exact Nat.zero_le _
    | some c => exact c.pot_le
  · unfold tokensOf
    cases s.tasks u with
    | none => exact Nat.zero_le _
    | some c => exact c.tokens_le

end Steps

section Runs

variable [DecidableEq ι] [DecidableEq φ] {N : Nat} {nonblock : φ → Bool} {s s' : Sys ι φ}
  {h h' : History (Sys ι φ) (Step ι φ)}

/-- A call that cannot execute its statement sleeps or waits for `sema`. -/
theorem step_run_none {t : ι} {c : Call φ} (hc : s.tasks t = some c)
    (hnone : step N nonblock (.run t) s = none) :
    c.Asleep ∨ (c.pc = .down ∧ s.sema ≠ none) := by
  simp only [step, hc, Option.bind_some, Option.bind_eq_none_iff] at hnone
  cases hstmt : stmt N (nonblock c.file) s.dev c with
  | none => exact .inl (stmt_none hstmt)
  | some r =>
      rcases r with ⟨e, c'⟩
      rcases act_eq_none (hnone (e, c') hstmt) with ⟨rfl, hsema⟩
      cases stmt_outcome hstmt with
      | acquire hpc => exact .inr ⟨hpc, hsema⟩

/-- In a state at rest nobody holds `sema`: its holder could go on. -/
theorem sema_of_atRest (ht : ∀ u, Tidy s u) (hrest : AtRest (step N nonblock) Step.Own s) :
    s.sema = none := by
  cases hsema : s.sema with
  | none => rfl
  | some u =>
      exfalso
      rcases (ht u).sema hsema with ⟨c, hc, hholds⟩
      rcases step_run_none hc (hrest (.run u) trivial) with ⟨hpc, -⟩ | ⟨hpc, -⟩ <;>
        rw [hpc] at hholds <;> exact hholds

/-- In a state at rest everybody inside sleeps. -/
theorem asleep_of_atRest (ht : ∀ u, Tidy s u) (hrest : AtRest (step N nonblock) Step.Own s)
    {t : ι} {c : Call φ} (hc : s.tasks t = some c) : c.Asleep := by
  rcases step_run_none hc (hrest (.run t) trivial) with hasleep | ⟨-, hsema⟩
  · exact hasleep
  · exact absurd (sema_of_atRest ht hrest) hsema

/-- In a state at rest everybody inside has its test failing, because no
    wakeup is left that it could wait for. -/
theorem blocked_of_atRest (ht : ∀ u, Tidy s u) (hI : Covered s)
    (hrest : AtRest (step N nonblock) Step.Own s) {t : ι} {c : Call φ} (hc : s.tasks t = some c) :
    blocked c.kind s.dev = true := by
  rcases hI t c hc (asleep_of_atRest ht hrest hc).committed with hb | ⟨u, w, hw, -, hpc, -⟩
  · exact hb
  · have hasleep := (asleep_of_atRest ht hrest hw).1
    rcases hpc with hpc | hpc <;> rw [hpc] at hasleep <;> exact Pc.noConfusion hasleep

/-- The states in which no task can execute a statement. -/
theorem atRest_iff (hN : 0 < N) (hr : Run (step N nonblock) Sys.init h s) :
    AtRest (step N nonblock) Step.Own s ↔ Resting N s := by
  have hok := run_ok hN hr
  have ht := run_tidy hr
  have hI := run_covered hN hr
  constructor
  · intro hrest
    refine ⟨sema_of_atRest ht hrest, fun t c hc => asleep_of_atRest ht hrest hc, ?_⟩
    -- A call inside says which reason it is. A call of the other kind would
    -- find the ring both empty and full.
    by_cases hnone : ∀ t, s.tasks t = none
    · exact .inl hnone
    · simp only [not_forall] at hnone
      rcases hnone with ⟨t, hne⟩
      rcases Option.ne_none_iff_exists'.mp hne with ⟨c, hc⟩
      have hb := blocked_of_atRest ht hI hrest hc
      have hsame : ∀ u w, s.tasks u = some w → w.kind = c.kind := by
        intro u w hw
        rcases Kind.eq_or_other c.kind w.kind with hk | hk
        · exact hk
        · have hb' := blocked_of_atRest ht hI hrest hw
          rw [hk] at hb'
          exact absurd hb' (not_blocked_other hb)
      cases hk : c.kind with
      | read =>
          rw [hk] at hb hsame
          exact .inr (.inl ⟨hsame, hok.dev.held_eq_zero_iff.mpr hb⟩)
      | write =>
          rw [hk] at hb hsame
          exact .inr (.inr ⟨hsame, (hok.dev.bufferFull_iff_room.mp hb).1⟩)
  · intro hrest l hown
    cases l with
    | run t =>
        cases hc : s.tasks t with
        | none => simp only [step, hc, Option.bind_none]
        | some c =>
            rcases hrest.asleep t c hc with ⟨hpc, hstate⟩
            simp only [step, hc, Option.bind_some, stmt, hpc, hstate, reduceCtorEq, if_false,
              Option.bind_none]
    | downFails t =>
        cases hc : s.tasks t with
        | none => simp only [step, hc, Option.bind_none]
        | some c =>
            have hpc := (hrest.asleep t c hc).1
            simp only [step, hc, Option.bind_some, hpc, reduceCtorEq, if_false]
    | _ => exact hown.elim

/-- From every state, whatever the schedule, the tasks inside execute a
    bounded number of statements; they can come to rest; and where they do,
    everybody who is still inside sleeps with reason. -/
theorem run_comesToRest (hN : 0 < N) (hr : Run (step N nonblock) Sys.init h s) :
    (∀ h' s', Run (step N nonblock) s h' s' → EveryStep (fun _ _ l => l.Own) h' →
      h'.length ≤ 16 * s.inside.card + 6 * s.inside.card ^ 2 ∧
        (AtRest (step N nonblock) Step.Own s' ↔ Resting N s')) ∧
      ∃ h' s', Run (step N nonblock) s h' s' ∧ EveryStep (fun _ _ l => l.Own) h' ∧
        Resting N s' := by
  have hok := run_ok hN hr
  refine ⟨fun h' s' hr' hown => ⟨?_, atRest_iff hN (hr.append hr')⟩, ?_⟩
  · have hlen := ((lowers hN).length_le hok hr' hown).2
    have hleft := left_le s
    calc h'.length ≤ s.left := by omega
      _ ≤ s.inside.card * 16 + 6 * s.inside.card * (s.inside.card * 1) := hleft
      _ = 16 * s.inside.card + 6 * s.inside.card ^ 2 := by ring
  · rcases (lowers hN).exists_rest hok with ⟨h', s', hr', hown, -, hrest⟩
    exact ⟨h', s', hr', hown, (atRest_iff hN (hr.append hr')).mp hrest⟩

/-- Two readers asleep on an empty ring, and a writer that has just put a byte
    in and has yet to wake them. -/
theorem run_comesToRest_twoReaders : ∃ s : Sys Nat Nat, s.inside.card = 3 ∧
    ∃ h' s', Run (step 23 fun _ => false) s h' s' ∧ EveryStep (fun _ _ l => l.Own) h' ∧
      Resting 23 s' := by
  rcases exists_run_of_exec (step 23 fun _ => false) (Sys.init : Sys Nat Nat)
    (List.flatten [
      [.openFile 0, .call 0 .read 0 5 (fun _ => some 0), .call 1 .read 0 5 (fun _ => some 0)],
      List.replicate 6 (.run 0), List.replicate 5 (.run 1),
      [.openFile 1, .call 2 .write 1 1 (fun _ => some 7)], List.replicate 7 (.run 2)])
    (fun _ s => s.inside.card = 3) (by decide) with ⟨_, s, hr, hp⟩
  exact ⟨s, of_decide_eq_true hp, (run_comesToRest (by decide) hr).2⟩

end Runs

end Tasks

end Poll

end KernelModules
