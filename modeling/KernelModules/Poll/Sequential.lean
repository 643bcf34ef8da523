import KernelModules.Poll.Calls
import KernelModules.Poll.Exit

/-!
# A Call Alone, Statement by Statement

`Calls` says what `device_read` and `device_write` do as a whole when nobody
else is inside, and `Tasks` has their statements. Here the second is run with
one task inside, and gives the first: every run of whole calls is a run of
statements, with the same device and the same open files between the calls,
the same values returned and the same bytes in the buffers.

A call takes one of three ways. Its test passes and it goes straight to the
transfer; or it fails and the file is open with `O_NONBLOCK`; or it fails, all
three tests of the call see the same ring, and the call sleeps until a signal
comes. With one task inside neither queue has anybody else on it and `sema` is
free whenever it is tried, so the statements have one outcome each.

## Main definitions

* `idle`, `alone`: Nobody inside, and one task inside.
* `result`, `Calls.result`: What a step returns to the caller.

## Theorems

* `alone_run`: A statement of the one task inside.
* `alone_passes`, `alone_refused`, `alone_waits`: The three ways of a call.
* `run_calls`: A run of whole calls is a run of statements.
-/

namespace KernelModules

namespace Poll

open Kernel Lib

/-- What a call returns, the buffer included. A call that waits is ended by a
    signal. -/
def Calls.result {φ : Type*} (N : Nat) : Calls.Sys φ × Calls.Step φ → List (Int × UserMem)
  | (s, .read _ nonblock len u) =>
    match Calls.deviceRead N nonblock len s.dev u with
    | .done r => [(r.1, r.2.2)]
    | .waits => [(-ERESTARTSYS, u)]
  | (s, .write _ nonblock len u) =>
    match Calls.deviceWrite N nonblock len s.dev u with
    | .done r => [(r.1, u)]
    | .waits => [(-ERESTARTSYS, u)]
  | _ => []

/-- A call says about its file what is known of the file. -/
def Calls.Step.Flagged {φ : Type*} (nonblock : φ → Bool) : Calls.Step φ → Prop
  | .read f b _ _ | .write f b _ _ => b = nonblock f
  | _ => True

instance Calls.Step.decidableFlagged {φ : Type*} (nonblock : φ → Bool) :
    DecidablePred (Calls.Step.Flagged nonblock)
  | .read f b _ _ => inferInstanceAs (Decidable (b = nonblock f))
  | .write f b _ _ => inferInstanceAs (Decidable (b = nonblock f))
  | .openFile _ => .isTrue trivial
  | .releaseFile _ => .isTrue trivial

namespace Tasks

variable {ι φ : Type*}

/-- What the return of a call gives back, the buffer included. -/
def result : Sys ι φ × Step ι φ → Option (Int × UserMem)
  | (s, .run t) => (s.tasks t).bind fun c =>
    match c.pc with
    | .returned v => some (v, c.buffer)
    | _ => none
  | _ => none

/-- The call is back in the VFS. -/
def Pc.back : Pc → Bool
  | .returned _ => true
  | _ => false

/-- Nobody is inside. -/
def idle (d : Dev) (files : Finset φ) : Sys ι φ :=
  { dev := d, files := files, sema := none, waitq := fun _ => ∅, inside := ∅,
    tasks := fun _ => none }

section Statements

variable [DecidableEq ι] [DecidableEq φ] {N : Nat} {nonblock : φ → Bool} {d d' : Dev}
  {files : Finset φ} {t : ι} {o : Option ι} {q : Finset ι} {c c' : Call φ} {e : Effect}

/-- One task is inside, with this call. -/
def alone (d : Dev) (files : Finset φ) (t : ι) (o : Option ι) (q : Finset ι) (c : Call φ) :
    Sys ι φ :=
  { dev := d, files := files, sema := o, waitq := Function.update (fun _ => ∅) c.kind q,
    inside := {t}, tasks := Function.update (fun _ => none) t (some c) }

omit [DecidableEq φ] in
@[simp] theorem alone_tasks : (alone d files t o q c).tasks t = some c := by
  simp only [alone, Function.update_self]

omit [DecidableEq φ] in
theorem alone_put (hkind : c'.kind = c.kind) :
    (alone d files t o q c).put t c' = alone d files t o q c' := by
  simp only [Sys.put, alone, Function.update_idem, hkind]

/-- A statement of the one task inside, with its effect on the rest. -/
theorem alone_run {s' : Sys ι φ} (hstmt : stmt N (nonblock c.file) d c = some (e, c'))
    (hact : act t c' e (alone d files t o q c) = some s') :
    step N nonblock (.run t) (alone d files t o q c) = some s' := by
  rw [step, alone_tasks, Option.bind_some,
    show (alone d files t o q c).dev = d from rfl, hstmt, Option.bind_some]
  exact hact

omit [DecidableEq φ] in
theorem alone_none (hkind : c'.kind = c.kind) :
    act t c' .none (alone d files t o q c) = some (alone d files t o q c') := by
  rw [act, alone_put hkind]

omit [DecidableEq φ] in
theorem alone_enqueue (hkind : c'.kind = c.kind) :
    act t c' .enqueue (alone d files t o ∅ c) = some (alone d files t o {t} c') := by
  rw [act, alone_put hkind]
  simp only [alone, hkind, Function.update_idem, Function.update_self, insert_empty_eq]

omit [DecidableEq φ] in
theorem alone_dequeue (hkind : c'.kind = c.kind) :
    act t c' .dequeue (alone d files t o {t} c) = some (alone d files t o ∅ c') := by
  rw [act, alone_put hkind]
  simp only [alone, hkind, Function.update_idem, Function.update_self, Finset.erase_singleton]

omit [DecidableEq φ] in
theorem alone_down (hkind : c'.kind = c.kind) :
    act t c' .down (alone d files t none q c) = some (alone d files t (some t) q c') := by
  rw [act, alone_put hkind]
  rfl

omit [DecidableEq φ] in
theorem alone_store (hkind : c'.kind = c.kind) :
    act t c' (.store d') (alone d files t o q c) = some (alone d' files t o q c') := by
  rw [act, alone_put hkind]
  rfl

omit [DecidableEq φ] in
theorem alone_up (hkind : c'.kind = c.kind) :
    act t c' .up (alone d files t o q c) = some (alone d files t none q c') := by
  rw [act, alone_put hkind]
  rfl

omit [DecidableEq φ] in
theorem wake_empty (tasks : ι → Option (Call φ)) : wake ∅ tasks = tasks := by
  funext u
  rw [wake, if_neg (Finset.notMem_empty u)]

omit [DecidableEq φ] in
/-- There is nobody to wake on the other queue. -/
theorem alone_wakeUp (hkind : c'.kind = c.kind) :
    act t c' .wakeUp (alone d files t o q c) = some (alone d files t o q c') := by
  rw [act, alone_put hkind]
  have hempty : (alone d files t o q c).waitq c'.kind.other = ∅ := by
    simp only [alone, hkind, Function.update_of_ne c.kind.other_ne]
  rw [hempty, wake_empty]
  simp only [alone, hkind]

omit [DecidableEq φ] in
theorem alone_leave : act t c' .leave (alone d files t none ∅ c) = some (idle d files) := by
  simp only [act, alone, idle, Function.update_idem, Finset.erase_singleton]
  rw [Function.update_eq_self c.kind (fun _ => (∅ : Finset ι)),
    Function.update_eq_self t (fun _ => (none : Option (Call φ)))]

/-- Runs of one task, with what they return. -/
def Goes (N : Nat) (nonblock : φ → Bool) (s : Sys ι φ) (rs : List (Int × UserMem))
    (s' : Sys ι φ) : Prop :=
  ∃ h, Run (step N nonblock) s h s' ∧ h.filterMap result = rs

/-- One more step that returns nothing. -/
theorem Goes.next {s s' s'' : Sys ι φ} {l : Step ι φ} {rs : List (Int × UserMem)}
    (hg : Goes N nonblock s rs s') (hstep : step N nonblock l s' = some s'')
    (hnone : result (s', l) = none) : Goes N nonblock s rs s'' := by
  rcases hg with ⟨h, hr, hrs⟩
  exact ⟨_, .next l hr hstep, by rw [List.filterMap_cons_none hnone, hrs]⟩

/-- One more statement of the task inside. -/
theorem Goes.run {s s'' : Sys ι φ} {rs : List (Int × UserMem)}
    (hg : Goes N nonblock s rs (alone d files t o q c)) (e : Effect) (c' : Call φ)
    (hstmt : stmt N (nonblock c.file) d c = some (e, c'))
    (hact : act t c' e (alone d files t o q c) = some s'') (hpc : c.pc.back = false) :
    Goes N nonblock s rs s'' := by
  refine hg.next (alone_run hstmt hact) ?_
  rw [result, alone_tasks, Option.bind_some]
  cases hc : c.pc with
  | returned v =>
      rw [hc] at hpc
      exact Bool.noConfusion hpc
  | _ => rfl

/-- The last one: the call goes back to its caller. -/
theorem Goes.leave {s : Sys ι φ} {rs : List (Int × UserMem)} {v : Int}
    (hg : Goes N nonblock s rs (alone d files t none ∅ c)) (hpc : c.pc = .returned v) :
    Goes N nonblock s ((v, c.buffer) :: rs) (idle d files) := by
  rcases hg with ⟨h, hr, hrs⟩
  have hstmt : stmt N (nonblock c.file) d c = some (.leave, c) := by rw [stmt, hpc]
  refine ⟨_, .next (.run t) hr (alone_run hstmt alone_leave), ?_⟩
  have hres : result (alone d files t none ∅ c, .run t) = some (v, c.buffer) := by
    rw [result, alone_tasks, Option.bind_some, hpc]
  rw [List.filterMap_cons_some hres, hrs]

theorem Goes.start {s : Sys ι φ} : Goes N nonblock s [] s := ⟨[], .start, rfl⟩

end Statements

section Ways

variable [DecidableEq ι] [DecidableEq φ] {N : Nat} {nonblock : φ → Bool} {d : Dev}
  {files : Finset φ} {t : ι} {kind : Kind} {f : φ} {len : Nat} {u : UserMem}

/-- A call that is being made: the state right behind the entry. -/
def entered (kind : Kind) (f : φ) (len : Nat) (u : UserMem) : Call φ :=
  { pc := .firstTest, kind := kind, file := f, len := len, buffer := u, i := 0,
    state := .running, signal := false }

/-- The test passes: the call goes straight to its transfer and returns the
    count. -/
theorem alone_passes (hb : blocked kind d = false) :
    Goes N nonblock (alone d files t none ∅ (entered kind f len u))
      [((transfer N (entered kind f len u) d).1, (transfer N (entered kind f len u) d).2.2)]
      (idle (transfer N (entered kind f len u) d).2.1 files) := by
  set c : Call φ := entered kind f len u with hc
  set r := transfer N c d with hr
  have hfirst : stmt N (nonblock f) d c = some (.none, c.goto .addQueue) := by
    simp only [hc, stmt, entered, hb, Bool.false_eq_true, false_and, if_false]
  have hloop : stmt N (nonblock f) d (c.goto .loopTest) = some (.none, c.goto .setRunning) := by
    simp only [hc, stmt, Call.goto, entered, hb, Bool.false_eq_true, if_false]
  have henter : Goes N nonblock (alone d files t none ∅ c) [] (alone d files t none ∅ c) := .start
  have hqueued := (henter.run .none (c.goto .addQueue) hfirst (alone_none rfl) rfl).run
    .enqueue (c.goto .loopTest) rfl (alone_enqueue rfl) rfl
  have hrunning := (hqueued.run .none (c.goto .setRunning) hloop (alone_none rfl) rfl).run
    .none (c.goto .leaveQueue) rfl (alone_none rfl) rfl
  have hheld := (hrunning.run .dequeue (c.goto .down) rfl (alone_dequeue rfl) rfl).run
    .down (c.goto .transfer) rfl (alone_down rfl) rfl
  have hsent := (hheld.run (.store r.2.1) { c with pc := .up, i := r.1, buffer := r.2.2 } rfl
    (alone_store rfl) rfl).run
    .up { c with pc := .wakeUp, i := r.1, buffer := r.2.2 } rfl (alone_up rfl) rfl
  -- With a positive count the other queue is woken, where there is nobody.
  by_cases hi : 0 < r.1
  · have hwake : stmt N (nonblock f) r.2.1
        { c with pc := .wakeUp, i := r.1, buffer := r.2.2 } =
        some (.wakeUp, { c with pc := .returned r.1, i := r.1, buffer := r.2.2 }) := by
      simp only [stmt, if_pos hi, Call.goto]
    exact (hsent.run .wakeUp _ hwake (alone_wakeUp rfl) rfl).leave rfl
  · have hsilent : stmt N (nonblock f) r.2.1
        { c with pc := .wakeUp, i := r.1, buffer := r.2.2 } =
        some (.none, { c with pc := .returned r.1, i := r.1, buffer := r.2.2 }) := by
      simp only [stmt, if_neg hi, Call.goto]
    exact (hsent.run .none _ hsilent (alone_none rfl) rfl).leave rfl

/-- The test fails and the file is open with `O_NONBLOCK`. -/
theorem alone_refused (hb : blocked kind d = true) (hn : nonblock f = true) :
    Goes N nonblock (alone d files t none ∅ (entered kind f len u)) [(-EAGAIN, u)]
      (idle d files) := by
  set c : Call φ := entered kind f len u with hc
  have hfirst : stmt N (nonblock f) d c = some (.none, c.goto (.returned (-EAGAIN))) := by
    simp only [hc, stmt, entered, hb, hn, and_self, if_true]
  have henter : Goes N nonblock (alone d files t none ∅ c) [] (alone d files t none ∅ c) := .start
  have hback := henter.run .none _ hfirst (alone_none rfl) rfl
  exact hback.leave rfl

/-- The test fails and the call may wait: it sleeps until a signal comes. -/
theorem alone_waits (hb : blocked kind d = true) (hn : nonblock f = false) :
    Goes N nonblock (alone d files t none ∅ (entered kind f len u)) [(-ERESTARTSYS, u)]
      (idle d files) := by
  set c : Call φ := entered kind f len u with hc
  have hfirst : stmt N (nonblock f) d c = some (.none, c.goto .addQueue) := by
    simp only [hc, stmt, entered, hn, Bool.false_eq_true, and_false, if_false]
  have hloop : stmt N (nonblock f) d (c.goto .loopTest) = some (.none, c.goto .setState) := by
    simp only [hc, stmt, Call.goto, entered, hb, if_true]
  have hagain : stmt N (nonblock f) d { c with pc := .reTest, state := .interruptible } =
      some (.none, { c with pc := .schedule, state := .interruptible }) := by
    simp only [hc, stmt, Call.goto, entered, hb, if_true]
  have henter : Goes N nonblock (alone d files t none ∅ c) [] (alone d files t none ∅ c) := .start
  have hqueued := (henter.run .none (c.goto .addQueue) hfirst (alone_none rfl) rfl).run
    .enqueue (c.goto .loopTest) rfl (alone_enqueue rfl) rfl
  have hprepared := (hqueued.run .none (c.goto .setState) hloop (alone_none rfl) rfl).run
    .none { c with pc := .reTest, state := .interruptible } rfl (alone_none rfl) rfl
  have hasleep := (hprepared.run .none { c with pc := .schedule, state := .interruptible } hagain
    (alone_none rfl) rfl).run
    .none { c with pc := .asleep, state := .interruptible } rfl (alone_none rfl) rfl
  have hsignal : step N nonblock (.signal t)
      (alone d files t none {t} { c with pc := .asleep, state := .interruptible }) =
      some (alone d files t none {t} { c with pc := .asleep, signal := true }) := by
    rw [step, alone_tasks, Option.map_some]
    exact congrArg some (alone_put rfl)
  have hwoken := ((hasleep.next hsignal rfl).run .none { c with pc := .signalTest, signal := true }
    rfl (alone_none rfl) rfl).run
    .none { c with pc := .signalRun, signal := true } rfl (alone_none rfl) rfl
  have hended := (hwoken.run .none { c with pc := .signalLeave, signal := true } rfl
    (alone_none rfl) rfl).run
    .dequeue { c with pc := .returned (-ERESTARTSYS), signal := true } rfl (alone_dequeue rfl) rfl
  exact hended.leave rfl

/-- A call on an open file with nobody inside, before what it does there. -/
theorem idle_call (t : ι) (kind : Kind) (len : Nat) (hf : f ∈ files)
    {rs : List (Int × UserMem)} {s : Sys ι φ}
    (hg : Goes N nonblock (alone d files t none ∅ (entered kind f len u)) rs s) :
    Goes N nonblock (idle d files) rs s := by
  have hstep : step N nonblock (.call t kind f len u) (idle d files) =
      some (alone d files t none ∅ (entered kind f len u)) := by
    rw [step, if_pos ⟨hf, rfl⟩]
    simp only [idle, alone, entered, insert_empty_eq]
    rw [Function.update_eq_self kind (fun _ => (∅ : Finset ι))]
  rcases hg with ⟨h, hr, hrs⟩
  refine ⟨_, (Run.next _ .start hstep).append hr, ?_⟩
  rw [List.filterMap_append, hrs, List.filterMap_cons_none rfl, List.filterMap_nil,
    List.append_nil]

/-- A read with nobody inside, as `Calls` has it. -/
theorem idle_read (t : ι) (hf : f ∈ files) {files' : Finset φ} {d' : Dev}
    (hstep : Calls.step N (.read f (nonblock f) len u) ⟨d, files⟩ = some ⟨d', files'⟩) :
    Goes N nonblock (idle d files : Sys ι φ)
      (Calls.result N (⟨d, files⟩, .read f (nonblock f) len u)) (idle d' files') := by
  rw [Calls.step, if_pos hf] at hstep
  unfold Calls.result
  cases hb : isBufferEmpty d with
  | false =>
      simp only [Calls.deviceRead, hb, Bool.false_eq_true, if_false, Option.some.injEq,
        Calls.Sys.mk.injEq] at hstep ⊢
      rcases hstep with ⟨rfl, rfl⟩
      exact idle_call t .read len hf (alone_passes hb)
  | true =>
      cases hn : nonblock f with
      | true =>
          simp only [Calls.deviceRead, Calls.turnedAway, hb, hn, if_true, Option.some.injEq,
            Calls.Sys.mk.injEq] at hstep ⊢
          rcases hstep with ⟨rfl, rfl⟩
          exact idle_call t .read len hf (alone_refused hb hn)
      | false =>
          simp only [Calls.deviceRead, Calls.turnedAway, hb, hn, if_true, Bool.false_eq_true,
            if_false, Option.some.injEq, Calls.Sys.mk.injEq] at hstep ⊢
          rcases hstep with ⟨rfl, rfl⟩
          exact idle_call t .read len hf (alone_waits hb hn)

/-- A write with nobody inside, as `Calls` has it. -/
theorem idle_write (t : ι) (hf : f ∈ files) {files' : Finset φ} {d' : Dev}
    (hstep : Calls.step N (.write f (nonblock f) len u) ⟨d, files⟩ = some ⟨d', files'⟩) :
    Goes N nonblock (idle d files : Sys ι φ)
      (Calls.result N (⟨d, files⟩, .write f (nonblock f) len u)) (idle d' files') := by
  rw [Calls.step, if_pos hf] at hstep
  unfold Calls.result
  cases hb : bufferFull d with
  | false =>
      simp only [Calls.deviceWrite, hb, Bool.false_eq_true, if_false, Option.some.injEq,
        Calls.Sys.mk.injEq] at hstep ⊢
      rcases hstep with ⟨rfl, rfl⟩
      exact idle_call t .write len hf (alone_passes hb)
  | true =>
      cases hn : nonblock f with
      | true =>
          simp only [Calls.deviceWrite, Calls.turnedAway, hb, hn, if_true, Option.some.injEq,
            Calls.Sys.mk.injEq] at hstep ⊢
          rcases hstep with ⟨rfl, rfl⟩
          exact idle_call t .write len hf (alone_refused hb hn)
      | false =>
          simp only [Calls.deviceWrite, Calls.turnedAway, hb, hn, if_true, Bool.false_eq_true,
            if_false, Option.some.injEq, Calls.Sys.mk.injEq] at hstep ⊢
          rcases hstep with ⟨rfl, rfl⟩
          exact idle_call t .write len hf (alone_waits hb hn)

/-- One step of `Calls`, executed by task `t`. -/
theorem goes_step (t : ι) {l : Calls.Step φ} {σ σ' : Calls.Sys φ} (hflag : l.Flagged nonblock)
    (hstep : Calls.step N l σ = some σ') :
    Goes N nonblock (idle σ.dev σ.files : Sys ι φ) (Calls.result N (σ, l))
      (idle σ'.dev σ'.files) := by
  cases l with
  | openFile f =>
      simp only [Calls.step, Option.ite_none_left_eq_some, Option.some.injEq] at hstep
      rcases hstep with ⟨hnew, rfl⟩
      exact Goes.start.next (l := .openFile f) (if_neg hnew) rfl
  | releaseFile f =>
      simp only [Calls.step, Option.ite_none_right_eq_some, Option.some.injEq] at hstep
      rcases hstep with ⟨hf, rfl⟩
      have hidle : ∀ u ∈ (idle σ.dev σ.files : Sys ι φ).inside,
          (((idle σ.dev σ.files : Sys ι φ).tasks u).all fun c => c.file ≠ f) = true :=
        fun u hu => absurd hu (Finset.notMem_empty u)
      exact Goes.start.next (l := .releaseFile f) (if_pos ⟨hf, hidle⟩) rfl
  | read f b len u =>
      rw [show b = nonblock f from hflag] at hstep ⊢
      have hf : f ∈ σ.files := by
        rw [Calls.step, Option.ite_none_right_eq_some] at hstep
        exact hstep.1
      exact idle_read t hf hstep
  | write f b len u =>
      rw [show b = nonblock f from hflag] at hstep ⊢
      have hf : f ∈ σ.files := by
        rw [Calls.step, Option.ite_none_right_eq_some] at hstep
        exact hstep.1
      exact idle_write t hf hstep

/-- Every run of whole calls is a run of statements, which ends with the same
    device and nobody inside and returns the same to its callers. -/
theorem run_calls (t : ι) {h : History (Calls.Sys φ) (Calls.Step φ)} {σ : Calls.Sys φ}
    (hr : Run (Calls.step N) Calls.Sys.init h σ)
    (hflags : EveryStep (fun _ _ l => l.Flagged nonblock) h) :
    ∃ h', Run (step N nonblock) (Sys.init : Sys ι φ) h' (idle σ.dev σ.files) ∧
      h'.filterMap result = h.flatMap (Calls.result N) := by
  refine hr.expand (fun σ => idle σ.dev σ.files) (Calls.result N) result ?_ hflags
  intro h σ l σ' _ hflag hstep
  exact goes_step t hflag hstep

/-- Two files on a ring of five: a write that is served in part, a read, a
    write, one that is refused, a read, and one that waits. -/
theorem run_calls_two : ∃ (σ : Calls.Sys Nat) (h' : History (Sys Nat Nat) (Step Nat Nat)),
    Run (step 5 fun f => f == 1) Sys.init h' (idle σ.dev σ.files) ∧
      (h'.filterMap result).map Prod.fst = [-ERESTARTSYS, 4, -EAGAIN, 2, 2, 4] := by
  rcases exists_run_of_exec (Calls.step 5) (Calls.Sys.init : Calls.Sys Nat)
    [.openFile 0, .openFile 1, .write 1 true 9 (fun k => some k.toUInt8),
      .read 0 false 2 (fun _ => some 0), .write 1 true 2 (fun k => some k.toUInt8),
      .write 1 true 1 (fun k => some k.toUInt8), .read 0 false 9 (fun _ => some 0),
      .read 0 false 1 (fun _ => some 0)]
    (fun h _ => EveryStep (fun _ _ l => l.Flagged fun f => f == 1) h ∧
      (h.flatMap (Calls.result 5)).map Prod.fst = [-ERESTARTSYS, 4, -EAGAIN, 2, 2, 4])
    (by decide) with ⟨h, σ, hr, hp⟩
  rcases of_decide_eq_true hp with ⟨hflags, hres⟩
  rcases run_calls 0 hr hflags with ⟨h', hr', hsame⟩
  exact ⟨σ, h', hr', by rw [hsame, hres]⟩

end Ways

end Tasks

end Poll

end KernelModules
