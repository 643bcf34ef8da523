import KernelModules.Lib.Run
import KernelModules.Poll.Device
import Mathlib.Data.Finset.Card

/-!
# Tasks inside the Poll Device

`device_read` and `device_write` statement by statement, for any number of
tasks on any number of files, in any order. The two calls have the same shape:
a test made once for `O_NONBLOCK`, a wait loop on the own queue, the transfer
under `sema`, and a wakeup of the other queue. So they are one table of
statements, and a `Kind` says which test, queue and transfer are meant. The
names of the program counters follow the statements, in the order in which
they stand.

The kernel's part is small. A task is running or interruptible. `schedule`
returns at once to a task that is running or has a signal pending, and puts
any other to sleep until something makes it running. A wakeup makes every task
of a queue running, and so does a signal to that task. `down_interruptible`
takes `sema` when it is free; it may also fail at any time.

A statement computes what it does to the rest of the system, its effect, and
the call's own next state. Effects are few and statements are many, so a fact
about the system splits over effects and a fact about a call over statements.

## Main definitions

* `Kind`, `blocked`, `transfer`: What distinguishes a read from a write.
* `Pc`, `Call`: The statements, and a task inside the driver.
* `stmt`: One statement of a call.
* `Effect`, `act`: What a statement does to the rest of the system.
* `Sys`, `Step`, `step`: The system.
* `Outcome`: The outcomes of a statement, one by one.
* `Sys.Ok`: The basic invariant.

## Theorems

* `stmt_outcome`: A statement has one of its outcomes.
* `stmt_frame`, `stmt_store`, `stmt_queued`: Statements, one property each.
* `step_run`: A step of a task is a statement and its effect.
* `step_ok`, `run_ok`: Steps and runs keep the invariant.
* `step_moved`: What one step makes of one task.
* `step_indices`: What one step makes of the indices.
* `blocked_transfer_same`, `blocked_transfer_other`: What a transfer does to
  the tests.
-/

namespace KernelModules

namespace Poll

namespace Tasks

open Kernel Lib

inductive Kind where
  | read
  | write
  deriving DecidableEq

def Kind.other : Kind → Kind
  | .read => .write
  | .write => .read

theorem Kind.other_ne (k : Kind) : k.other ≠ k := by
  cases k <;> decide

theorem Kind.other_other (k : Kind) : k.other.other = k := by
  cases k <;> rfl

theorem Kind.eq_or_other (k k' : Kind) : k' = k ∨ k' = k.other := by
  cases k <;> cases k' <;> decide

inductive TaskState where
  | running
  | interruptible
  deriving DecidableEq

/-- The statements of `device_read` and `device_write`. `asleep` is inside
    `schedule()`, and `returned` is back in the VFS, with the value. -/
inductive Pc where
  | firstTest
  | addQueue
  | loopTest
  | setState
  | reTest
  | schedule
  | asleep
  | signalTest
  | signalRun
  | signalLeave
  | setRunning
  | leaveQueue
  | down
  | transfer
  | up
  | wakeUp
  | returned (v : Int)
  deriving DecidableEq

/-- A task inside the driver: its arguments, its locals, the buffer as it is
    by now, and what the scheduler knows of it. -/
structure Call (φ : Type*) where
  pc : Pc
  kind : Kind
  file : φ
  len : Nat
  buffer : UserMem
  i : Nat
  state : TaskState
  signal : Bool

variable {ι φ : Type*}

def Call.goto (c : Call φ) (pc : Pc) : Call φ := { c with pc := pc }

def Call.awaken (c : Call φ) : Call φ := { c with state := .running }

/-- The test a call waits on: `is_buffer_empty` or `buffer_full`. -/
def blocked : Kind → Dev → Bool
  | .read => isBufferEmpty
  | .write => bufferFull

/-- The loop a call runs under `sema`: the count, the device and the buffer. -/
def transfer (N : Nat) (c : Call φ) (d : Dev) : Nat × Dev × UserMem :=
  match c.kind with
  | .read => readTransfer N c.len d c.buffer
  | .write => ((writeTransfer N c.len d c.buffer).1, (writeTransfer N c.len d c.buffer).2, c.buffer)

/-- What a statement does to the rest of the system. The queue of `enqueue`
    and `dequeue` is the call's own, that of `wakeUp` the other one. -/
inductive Effect where
  | none
  | enqueue
  | dequeue
  | down
  | store (d : Dev)
  | up
  | wakeUp
  | leave

/-- One statement of a call: its effect and the call after it, or `none` for
    a task that sleeps. -/
def stmt (N : Nat) (nonblock : Bool) (d : Dev) (c : Call φ) : Option (Effect × Call φ) :=
  match c.pc with
  | .firstTest =>
    -- `if (is_buffer_empty()) if (filp->f_flags & O_NONBLOCK) return -EAGAIN;`
    some (.none, c.goto (if blocked c.kind d ∧ nonblock then .returned (-EAGAIN) else .addQueue))
  | .addQueue => some (.enqueue, c.goto .loopTest)
  -- The head of the wait loop; leaving the loop is `setRunning` behind it.
  | .loopTest => some (.none, c.goto (if blocked c.kind d then .setState else .setRunning))
  | .setState => some (.none, { c with pc := .reTest, state := .interruptible })
  -- The second test comes after the state is set, so no wakeup is missed.
  | .reTest => some (.none, c.goto (if blocked c.kind d then .schedule else .setRunning))
  | .schedule =>
    -- A task that is running by now, or has a signal, is not taken off the CPU.
    if c.state = .running ∨ c.signal then
      some (.none, { c with pc := .signalTest, state := .running })
    else some (.none, c.goto .asleep)
  | .asleep => if c.state = .running then some (.none, c.goto .signalTest) else none
  -- `if(signal_pending(current))`, with the way out of the loop behind it.
  | .signalTest => some (.none, c.goto (if c.signal then .signalRun else .loopTest))
  | .signalRun => some (.none, { c with pc := .signalLeave, state := .running })
  | .signalLeave => some (.dequeue, c.goto (.returned (-ERESTARTSYS)))
  | .setRunning => some (.none, { c with pc := .leaveQueue, state := .running })
  | .leaveQueue => some (.dequeue, c.goto .down)
  -- The emptiness or fullness test is not made again once `sema` is held.
  | .down => some (.down, c.goto .transfer)
  | .transfer =>
    some (.store (transfer N c d).2.1,
      { c with pc := .up, i := (transfer N c d).1, buffer := (transfer N c d).2.2 })
  | .up => some (.up, c.goto .wakeUp)
  -- `if (i>0) wake_up_interruptible(&qout);`, for a writer `&qin`.
  | .wakeUp => some (if 0 < c.i then .wakeUp else .none, c.goto (.returned c.i))
  | .returned _ => some (.leave, c)

/-- The device, the open files, the holder of `sema`, the wait queues (`qin`
    is the readers' and `qout` the writers'), and the tasks. A task that is
    not inside the driver has no call. -/
structure Sys (ι φ : Type*) where
  dev : Dev
  files : Finset φ
  sema : Option ι
  waitq : Kind → Finset ι
  inside : Finset ι
  tasks : ι → Option (Call φ)

def Sys.init : Sys ι φ :=
  { dev := Dev.init, files := ∅, sema := none, waitq := fun _ => ∅, inside := ∅,
    tasks := fun _ => none }

/-- `wake_up_interruptible`. -/
def wake [DecidableEq ι] (q : Finset ι) (tasks : ι → Option (Call φ)) : ι → Option (Call φ) :=
  fun t => if t ∈ q then (tasks t).map Call.awaken else tasks t

/-- The steps: a task runs its next statement, its `down_interruptible`
    fails, a signal is sent to it; and files are opened and released, and
    calls made. -/
inductive Step (ι φ : Type*) where
  | openFile (f : φ)
  | releaseFile (f : φ)
  | call (t : ι) (kind : Kind) (f : φ) (len : Nat) (buffer : UserMem)
  | run (t : ι)
  | downFails (t : ι)
  | signal (t : ι)

section Semantics

variable [DecidableEq ι]

def Sys.put (s : Sys ι φ) (t : ι) (c : Call φ) : Sys ι φ :=
  { s with tasks := Function.update s.tasks t (some c) }

/-- The effect of a statement of task `t`, whose call is `c` after it. -/
def act (t : ι) (c : Call φ) : Effect → Sys ι φ → Option (Sys ι φ)
  | .none, s => some (s.put t c)
  | .enqueue, s =>
    some { s.put t c with
      waitq := Function.update s.waitq c.kind (insert t (s.waitq c.kind)) }
  | .dequeue, s =>
    some { s.put t c with
      waitq := Function.update s.waitq c.kind ((s.waitq c.kind).erase t) }
  | .down, s => if s.sema.isNone then some { s.put t c with sema := some t } else none
  | .store d, s => some { s.put t c with dev := d }
  | .up, s => some { s.put t c with sema := none }
  | .wakeUp, s => some { s with tasks := wake (s.waitq c.kind.other) (s.put t c).tasks }
  | .leave, s =>
    some { s with inside := s.inside.erase t, tasks := Function.update s.tasks t none }

variable [DecidableEq φ]

/-- `nonblock` says which files are open with `O_NONBLOCK`. A file is released
    when no task is inside on it. -/
def step (N : Nat) (nonblock : φ → Bool) : Step ι φ → Sys ι φ → Option (Sys ι φ)
  | .openFile f, s =>
    if f ∈ s.files then none
    else some { s with dev := deviceOpen s.dev, files := insert f s.files }
  | .releaseFile f, s =>
    if f ∈ s.files ∧ ∀ t ∈ s.inside, ((s.tasks t).all fun c => c.file ≠ f) = true then
      some { s with dev := deviceRelease s.dev, files := s.files.erase f }
    else none
  | .call t kind f len buffer, s =>
    if f ∈ s.files ∧ (s.tasks t).isNone then
      some { s with
        inside := insert t s.inside
        tasks := Function.update s.tasks t (some
          { pc := .firstTest, kind := kind, file := f, len := len, buffer := buffer, i := 0,
            state := .running, signal := false }) }
    else none
  | .run t, s =>
    (s.tasks t).bind fun c =>
      (stmt N (nonblock c.file) s.dev c).bind fun r => act t r.2 r.1 s
  | .downFails t, s =>
    (s.tasks t).bind fun c =>
      if c.pc = .down then some (s.put t (c.goto (.returned (-ERESTARTSYS)))) else none
  | .signal t, s =>
    (s.tasks t).map fun c => s.put t { c with state := .running, signal := true }

end Semantics

/-- The statements between joining the wait queue and leaving it. -/
def Pc.Queued : Pc → Prop
  | .loopTest | .setState | .reTest | .schedule | .asleep | .signalTest | .signalRun
  | .signalLeave | .setRunning | .leaveQueue => True
  | _ => False

/-- The basic invariant: the indices lie in the ring, the use count is the
    number of open files, a call is inside on an open file, and in its wait
    loop it is on its queue. -/
structure Sys.Ok (N : Nat) (s : Sys ι φ) : Prop where
  dev : s.dev.Ok N
  useCount : s.dev.useCount = s.files.card
  inside : ∀ t c, s.tasks t = some c → t ∈ s.inside ∧ c.file ∈ s.files
  queued : ∀ t c, s.tasks t = some c → c.pc.Queued → t ∈ s.waitq c.kind

section Statements

variable {N : Nat} {nonblock : Bool} {d : Dev} {c c' : Call φ} {e : Effect}

/-- The outcomes of a statement one by one, each with the branch it is taken
    in. -/
inductive Outcome (N : Nat) (nonblock : Bool) (d : Dev) (c : Call φ) : Effect → Call φ → Prop
  | refuse (hpc : c.pc = .firstTest) (hb : blocked c.kind d = true) (hn : nonblock = true) :
      Outcome N nonblock d c .none (c.goto (.returned (-EAGAIN)))
  | firstPass (hpc : c.pc = .firstTest) (hb : blocked c.kind d = true → nonblock = false) :
      Outcome N nonblock d c .none (c.goto .addQueue)
  | join (hpc : c.pc = .addQueue) : Outcome N nonblock d c .enqueue (c.goto .loopTest)
  | enter (hpc : c.pc = .loopTest) (hb : blocked c.kind d = true) :
      Outcome N nonblock d c .none (c.goto .setState)
  | proceed (hpc : c.pc = .loopTest ∨ c.pc = .reTest) (hb : blocked c.kind d = false) :
      Outcome N nonblock d c .none (c.goto .setRunning)
  | prepare (hpc : c.pc = .setState) :
      Outcome N nonblock d c .none { c with pc := .reTest, state := .interruptible }
  | commit (hpc : c.pc = .reTest) (hb : blocked c.kind d = true) :
      Outcome N nonblock d c .none (c.goto .schedule)
  | pass (hpc : c.pc = .schedule) (hs : c.state = .running ∨ c.signal = true) :
      Outcome N nonblock d c .none { c with pc := .signalTest, state := .running }
  | sleep (hpc : c.pc = .schedule) (hs : c.state = .interruptible) :
      Outcome N nonblock d c .none (c.goto .asleep)
  | woken (hpc : c.pc = .asleep) (hs : c.state = .running) :
      Outcome N nonblock d c .none (c.goto .signalTest)
  | interrupted (hpc : c.pc = .signalTest) (hs : c.signal = true) :
      Outcome N nonblock d c .none (c.goto .signalRun)
  | again (hpc : c.pc = .signalTest) (hs : c.signal = false) :
      Outcome N nonblock d c .none (c.goto .loopTest)
  | giveUp (hpc : c.pc = .signalRun) :
      Outcome N nonblock d c .none { c with pc := .signalLeave, state := .running }
  | restart (hpc : c.pc = .signalLeave) :
      Outcome N nonblock d c .dequeue (c.goto (.returned (-ERESTARTSYS)))
  | settle (hpc : c.pc = .setRunning) :
      Outcome N nonblock d c .none { c with pc := .leaveQueue, state := .running }
  | part (hpc : c.pc = .leaveQueue) : Outcome N nonblock d c .dequeue (c.goto .down)
  | acquire (hpc : c.pc = .down) : Outcome N nonblock d c .down (c.goto .transfer)
  | move (hpc : c.pc = .transfer) :
      Outcome N nonblock d c (.store (transfer N c d).2.1)
        { c with pc := .up, i := (transfer N c d).1, buffer := (transfer N c d).2.2 }
  | free (hpc : c.pc = .up) : Outcome N nonblock d c .up (c.goto .wakeUp)
  | notify (hpc : c.pc = .wakeUp) (hi : 0 < c.i) :
      Outcome N nonblock d c .wakeUp (c.goto (.returned c.i))
  | silent (hpc : c.pc = .wakeUp) (hi : c.i = 0) :
      Outcome N nonblock d c .none (c.goto (.returned c.i))
  | leave (v : Int) (hpc : c.pc = .returned v) : Outcome N nonblock d c .leave c

/-- A statement has one of these outcomes. -/
theorem stmt_outcome (h : stmt N nonblock d c = some (e, c')) : Outcome N nonblock d c e c' := by
  -- The statement is fixed by the program counter; what remains is to say which
  -- of its branches was taken.
  cases hpc : c.pc with
  | firstTest =>
      simp only [stmt, hpc, Option.some.injEq, Prod.mk.injEq] at h
      rcases h with ⟨rfl, rfl⟩
      by_cases hb : blocked c.kind d = true ∧ nonblock = true
      · rw [if_pos hb]
        exact .refuse hpc hb.1 hb.2
      · rw [if_neg hb]
        exact .firstPass hpc fun h => Bool.not_eq_true _ ▸ fun hn => hb ⟨h, hn⟩
  | loopTest =>
      simp only [stmt, hpc, Option.some.injEq, Prod.mk.injEq] at h
      rcases h with ⟨rfl, rfl⟩
      cases hb : blocked c.kind d with
      | true => exact .enter hpc hb
      | false => exact .proceed (Or.inl hpc) hb
  | reTest =>
      simp only [stmt, hpc, Option.some.injEq, Prod.mk.injEq] at h
      rcases h with ⟨rfl, rfl⟩
      cases hb : blocked c.kind d with
      | true => exact .commit hpc hb
      | false => exact .proceed (Or.inr hpc) hb
  | schedule =>
      simp only [stmt, hpc] at h
      by_cases hs : c.state = .running ∨ c.signal = true
      · rw [if_pos hs, Option.some.injEq, Prod.mk.injEq] at h
        rcases h with ⟨rfl, rfl⟩
        exact .pass hpc hs
      · rw [if_neg hs, Option.some.injEq, Prod.mk.injEq] at h
        rcases h with ⟨rfl, rfl⟩
        refine .sleep hpc ?_
        cases hst : c.state with
        | running => exact absurd (Or.inl hst) hs
        | interruptible => rfl
  | asleep =>
      simp only [stmt, hpc, Option.ite_none_right_eq_some, Option.some.injEq,
        Prod.mk.injEq] at h
      rcases h with ⟨hs, rfl, rfl⟩
      exact .woken hpc hs
  | signalTest =>
      simp only [stmt, hpc, Option.some.injEq, Prod.mk.injEq] at h
      rcases h with ⟨rfl, rfl⟩
      cases hs : c.signal with
      | true => exact .interrupted hpc hs
      | false => exact .again hpc hs
  | wakeUp =>
      simp only [stmt, hpc, Option.some.injEq, Prod.mk.injEq] at h
      rcases h with ⟨rfl, rfl⟩
      by_cases hi : 0 < c.i
      · rw [if_pos hi]
        exact .notify hpc hi
      · rw [if_neg hi]
        exact .silent hpc (by omega)
  | _ =>
      -- The statements without a branch.
      simp only [stmt, hpc, Option.some.injEq, Prod.mk.injEq] at h
      rcases h with ⟨rfl, rfl⟩
      first
        | exact .join hpc
        | exact .prepare hpc
        | exact .giveUp hpc
        | exact .restart hpc
        | exact .settle hpc
        | exact .part hpc
        | exact .acquire hpc
        | exact .move hpc
        | exact .free hpc
        | exact .leave _ hpc

/-- A statement changes neither the arguments of the call nor its kind. -/
theorem stmt_frame (h : stmt N nonblock d c = some (e, c')) :
    c'.kind = c.kind ∧ c'.file = c.file ∧ c'.len = c.len := by
  cases stmt_outcome h <;> exact ⟨rfl, rfl, rfl⟩

/-- Only the transfer touches the device. -/
theorem stmt_store {d' : Dev} (h : stmt N nonblock d c = some (.store d', c')) :
    c.pc = .transfer ∧ d' = (transfer N c d).2.1 ∧ c'.pc = .up ∧ c'.i = (transfer N c d).1 := by
  cases stmt_outcome h with
  | move hpc => exact ⟨hpc, rfl, rfl, rfl⟩

/-- A call is in the part between joining and leaving its queue after a
    statement only if it was there before or has just joined. -/
theorem stmt_queued (h : stmt N nonblock d c = some (e, c')) (hq : c'.pc.Queued) :
    (c.pc.Queued ∧ e = .none) ∨ e = .enqueue := by
  cases stmt_outcome h with
  | join hpc => exact Or.inr rfl
  | proceed hpc hb =>
      rcases hpc with hpc | hpc <;> exact Or.inl ⟨by rw [hpc]; trivial, rfl⟩
  | leave v hpc =>
      rw [hpc] at hq
      exact hq.elim
  | _ => first
    -- Either the call is off the queue now, or the statement stands between
    -- joining and leaving and does nothing to the queue.
    | exact hq.elim
    | exact Or.inl ⟨by simp only [*, Pc.Queued], rfl⟩

end Statements

/-- The call `c'` is `c`, except that it may have been made running. -/
def Call.Kept (c c' : Call φ) : Prop := c' = c ∨ c' = c.awaken

theorem Call.Kept.fields {c c' : Call φ} (h : c.Kept c') :
    c'.pc = c.pc ∧ c'.kind = c.kind ∧ c'.file = c.file ∧ c'.len = c.len ∧ c'.i = c.i := by
  rcases h with rfl | rfl <;> exact ⟨rfl, rfl, rfl, rfl, rfl⟩

/-- A kept call that is still interruptible is the same call. -/
theorem Call.Kept.eq_of_interruptible {c c' : Call φ} (h : c.Kept c')
    (hs : c'.state = .interruptible) : c' = c := by
  rcases h with rfl | rfl
  · rfl
  · exact TaskState.noConfusion hs

section Effects

variable [DecidableEq ι] {s s' : Sys ι φ} {t u : ι} {c cu : Call φ} {e : Effect}

/-- The files, the inside tasks and, apart from a transfer, the device stay as
    they are, unless a task leaves. -/
theorem act_frame (h : act t c e s = some s') :
    s'.files = s.files ∧ (s'.dev = s.dev ∨ ∃ d, e = .store d ∧ s'.dev = d) ∧
      (s'.inside = s.inside ∨ s'.inside = s.inside.erase t) := by
  cases e with
  | store d =>
      rw [act, Option.some.injEq] at h
      rw [← h]
      exact ⟨rfl, Or.inr ⟨d, rfl, rfl⟩, Or.inl rfl⟩
  | down =>
      rw [act, Option.ite_none_right_eq_some, Option.some.injEq] at h
      rw [← h.2]
      exact ⟨rfl, Or.inl rfl, Or.inl rfl⟩
  | leave =>
      rw [act, Option.some.injEq] at h
      rw [← h]
      exact ⟨rfl, Or.inl rfl, Or.inr rfl⟩
  | _ =>
      rw [act, Option.some.injEq] at h
      rw [← h]
      exact ⟨rfl, Or.inl rfl, Or.inl rfl⟩

/-- The tasks after an effect. -/
def tasksAfter (t : ι) (c : Call φ) (s : Sys ι φ) : Effect → ι → Option (Call φ)
  | .leave => Function.update s.tasks t none
  | .wakeUp => wake (s.waitq c.kind.other) (Function.update s.tasks t (some c))
  | _ => Function.update s.tasks t (some c)

theorem act_tasks (h : act t c e s = some s') : s'.tasks = tasksAfter t c s e := by
  cases e with
  | down =>
      rw [act, Option.ite_none_right_eq_some, Option.some.injEq] at h
      rw [← h.2]
      rfl
  | _ =>
      rw [act, Option.some.injEq] at h
      rw [← h]
      rfl

/-- The task itself has its next call, if it did not leave. -/
theorem act_tasks_self (h : act t c e s = some s') (hc : s'.tasks t = some cu) : c.Kept cu := by
  rw [act_tasks h] at hc
  cases e with
  | leave =>
      simp only [tasksAfter, Function.update_self, reduceCtorEq] at hc
  | wakeUp =>
      -- The waker may be on the queue it wakes, and is then made running too.
      simp only [tasksAfter, wake, Function.update_self, Option.map_some] at hc
      split at hc
      · exact Or.inr (Option.some.inj hc).symm
      · exact Or.inl (Option.some.inj hc).symm
  | _ =>
      simp only [tasksAfter, Function.update_self, Option.some.injEq] at hc
      exact Or.inl hc.symm

/-- The other tasks are kept, and a wakeup makes those on the other queue
    running. -/
theorem act_tasks_other (h : act t c e s = some s') (hut : u ≠ t) (hc : s'.tasks u = some cu) :
    ∃ c₀, s.tasks u = some c₀ ∧ c₀.Kept cu ∧
      (e = .wakeUp → u ∈ s.waitq c.kind.other → cu.state = .running) := by
  rw [act_tasks h] at hc
  cases e with
  | wakeUp =>
      simp only [tasksAfter, wake, Function.update_of_ne hut] at hc
      by_cases hq : u ∈ s.waitq c.kind.other
      · rw [if_pos hq] at hc
        rcases Option.map_eq_some_iff.mp hc with ⟨c₀, hc₀, rfl⟩
        exact ⟨c₀, hc₀, Or.inr rfl, fun _ _ => rfl⟩
      · rw [if_neg hq] at hc
        exact ⟨cu, hc, Or.inl rfl, fun _ hin => absurd hin hq⟩
  | _ =>
      simp only [tasksAfter, Function.update_of_ne hut] at hc
      exact ⟨cu, hc, Or.inl rfl, fun he => Effect.noConfusion he⟩

/-- The other tasks stay inside. -/
theorem act_tasks_stay (h : act t c e s = some s') (hut : u ≠ t) (hc : s.tasks u = some cu) :
    ∃ c', s'.tasks u = some c' ∧ cu.Kept c' := by
  rw [act_tasks h]
  cases e with
  | wakeUp =>
      simp only [tasksAfter, wake, Function.update_of_ne hut, hc, Option.map_some]
      split
      · exact ⟨_, rfl, Or.inr rfl⟩
      · exact ⟨_, rfl, Or.inl rfl⟩
  | _ =>
      simp only [tasksAfter, Function.update_of_ne hut]
      exact ⟨cu, hc, Or.inl rfl⟩

/-- Only `t` joins or leaves a queue. -/
theorem act_waitq_other (h : act t c e s = some s') (hut : u ≠ t) (k : Kind) :
    u ∈ s'.waitq k ↔ u ∈ s.waitq k := by
  cases e with
  | enqueue =>
      rw [act, Option.some.injEq] at h
      rw [← h]
      by_cases hk : k = c.kind
      · rw [hk]
        simp only [Function.update_self, Finset.mem_insert, hut, false_or]
      · simp only [Function.update_of_ne hk]
  | dequeue =>
      rw [act, Option.some.injEq] at h
      rw [← h]
      by_cases hk : k = c.kind
      · rw [hk]
        simp only [Function.update_self, Finset.mem_erase, ne_eq, hut, not_false_eq_true,
          true_and]
      · simp only [Function.update_of_ne hk]
  | down =>
      rw [act, Option.ite_none_right_eq_some, Option.some.injEq] at h
      rw [← h.2]
      rfl
  | _ =>
      rw [act, Option.some.injEq] at h
      subst h
      exact Iff.rfl

theorem act_enqueue (h : act t c .enqueue s = some s') : t ∈ s'.waitq c.kind := by
  rw [act, Option.some.injEq] at h
  rw [← h]
  simp only [Function.update_self, Finset.mem_insert_self]

theorem act_none (h : act t c .none s = some s') : s' = s.put t c := by
  rw [act, Option.some.injEq] at h
  exact h.symm

end Effects

section Transfers

variable {N : Nat} {d : Dev} {c : Call φ}

theorem transfer_ok (hd : d.Ok N) : (transfer N c d).2.1.Ok N := by
  unfold transfer
  cases c.kind with
  | read => exact readTransfer_ok hd c.len c.buffer
  | write => exact writeTransfer_ok hd c.len c.buffer

theorem transfer_useCount (hd : d.Ok N) : (transfer N c d).2.1.useCount = d.useCount := by
  unfold transfer
  cases c.kind with
  | read => simp only [readTransfer_dev hd]
  | write => simp only [writeTransfer_eq hd]

/-- A transfer of nothing leaves the indices where they were. -/
theorem transfer_zero (hd : d.Ok N) (hi : (transfer N c d).1 = 0) :
    (transfer N c d).2.1.ir = d.ir ∧ (transfer N c d).2.1.iw = d.iw := by
  unfold transfer at hi ⊢
  cases hk : c.kind with
  | read =>
      simp only [hk, readTransfer_count hd] at hi
      simp only [readTransfer_dev hd, hi, Int.natCast_zero, Int.add_zero,
        Ring.wrap_of_lt hd.ir_lt, and_self]
  | write =>
      simp only [hk, writeTransfer_count hd] at hi
      simp only [writeTransfer_eq hd, hi, Int.natCast_zero, Int.add_zero,
        Ring.wrap_of_lt hd.iw_lt, and_self]

/-- The tests look at the indices only. -/
theorem blocked_congr {d d' : Dev} (k : Kind) (hir : d'.ir = d.ir) (hiw : d'.iw = d.iw) :
    blocked k d' = blocked k d := by
  cases k with
  | read => simp only [blocked, isBufferEmpty, hir, hiw]
  | write => simp only [blocked, bufferFull, hir, hiw]

/-- A call that finds its own test failing transfers nothing. -/
theorem transfer_blocked (hd : d.Ok N) (hb : blocked c.kind d = true) :
    (transfer N c d).1 = 0 := by
  unfold transfer
  cases hk : c.kind with
  | read =>
      rw [hk] at hb
      simp only [readTransfer_count hd, hd.held_eq_zero_iff.mpr hb, Nat.min_zero]
  | write =>
      rw [hk] at hb
      simp only [writeTransfer_count hd, (hd.bufferFull_iff_room.mp hb).1, Nat.min_zero]

/-- The call takes all there is: the bytes held, or the room where the test
    can see that it is gone. -/
def Exhausts (N : Nat) (c : Call φ) (d : Dev) : Prop :=
  match c.kind with
  | .read => d.held N ≤ c.len
  | .write => d.room N ≤ c.len ∧ d.ir ≠ 0

/-- After a transfer the call's own test fails exactly when the call took all
    there was. -/
theorem blocked_transfer_same (hd : d.Ok N) :
    blocked c.kind (transfer N c d).2.1 = true ↔ Exhausts N c d := by
  unfold transfer Exhausts
  cases c.kind with
  | read =>
      have hok := readTransfer_ok hd c.len c.buffer
      have hheld := readTransfer_held hd c.len c.buffer
      simp only [blocked]
      rw [← hok.held_eq_zero_iff, hheld]
      omega
  | write =>
      have hok := writeTransfer_ok hd c.len c.buffer
      have hheld := writeTransfer_held hd c.len c.buffer
      have hlt := hd.held_lt
      -- A write leaves `ir` alone, so it cannot get into the state that the
      -- test does not see, nor out of it.
      have hir : (writeTransfer N c.len d c.buffer).2.ir = d.ir := by
        rw [writeTransfer_eq hd]
      simp only [blocked]
      rw [hok.bufferFull_iff_room, hir]
      unfold Dev.room at hheld ⊢
      rw [hheld]
      refine and_congr_left fun _ => ?_
      omega

/-- A transfer of the other kind that was asked for a byte at least lets the
    test through. -/
theorem blocked_transfer_other (hN : 2 ≤ N) (hd : d.Ok N) (hlen : 1 ≤ c.len) :
    blocked c.kind.other (transfer N c d).2.1 = false := by
  have hlt := hd.held_lt
  unfold transfer
  cases c.kind with
  | read =>
      have hok := readTransfer_ok hd c.len c.buffer
      have hheld := readTransfer_held hd c.len c.buffer
      simp only [Kind.other, blocked]
      rw [← Bool.not_eq_true, hok.bufferFull_iff_room]
      unfold Dev.room
      omega
  | write =>
      have hok := writeTransfer_ok hd c.len c.buffer
      have hheld := writeTransfer_held hd c.len c.buffer
      simp only [Kind.other, blocked]
      rw [← Bool.not_eq_true, ← hok.held_eq_zero_iff, hheld]
      unfold Dev.room
      omega

/-- A transfer that was asked for nothing moves nothing. -/
theorem transfer_len_zero (hd : d.Ok N) (hlen : c.len = 0) : (transfer N c d).1 = 0 := by
  unfold transfer
  cases c.kind with
  | read => simp only [readTransfer_count hd, hlen, Nat.zero_min]
  | write => simp only [writeTransfer_count hd, hlen, Nat.zero_min]

end Transfers

section Invariant

variable {N : Nat} {s : Sys ι φ} {t u : ι} {cu : Call φ}

theorem init_ok (hN : 0 < N) : (Sys.init : Sys ι φ).Ok N where
  dev := ⟨Int.le_refl 0, Int.natCast_pos.mpr hN, Int.le_refl 0, Int.natCast_pos.mpr hN⟩
  useCount := by simp only [Sys.init, Dev.init, Finset.card_empty, Int.natCast_zero]
  inside := fun t c hc => by simp only [Sys.init, reduceCtorEq] at hc
  queued := fun t c hc => by simp only [Sys.init, reduceCtorEq] at hc

/-- A call on an open file keeps the use count from being zero, so an open
    that comes then leaves the indices alone. -/
theorem open_indices (hs : s.Ok N) (hu : s.tasks u = some cu) :
    deviceOpen s.dev = { s.dev with useCount := s.dev.useCount + 1 } := by
  refine deviceOpen_of_ne fun hzero => ?_
  -- With a use count of zero no file would be open, but the call is on one.
  rw [hs.useCount, Int.natCast_eq_zero, Finset.card_eq_zero] at hzero
  have hmem := (hs.inside u cu hu).2
  rw [hzero] at hmem
  exact absurd hmem (Finset.notMem_empty _)

/-- Putting a call that agrees with the old one on its file and its kind, and
    that is queued only if the old one was, keeps the invariant. -/
theorem put_ok [DecidableEq ι] {c c' : Call φ} (hs : s.Ok N) (hc : s.tasks t = some c)
    (hkind : c'.kind = c.kind) (hfile : c'.file = c.file) (hq : c'.pc.Queued → c.pc.Queued) :
    (s.put t c').Ok N := by
  refine ⟨hs.dev, hs.useCount, ?_, ?_⟩
  · intro u cu hu
    by_cases hut : u = t
    · rw [hut] at hu ⊢
      simp only [Sys.put, Function.update_self, Option.some.injEq] at hu
      rw [← hu, hfile]
      exact hs.inside t c hc
    · simp only [Sys.put, Function.update_of_ne hut] at hu
      exact hs.inside u cu hu
  · intro u cu hu hqu
    by_cases hut : u = t
    · rw [hut] at hu ⊢
      simp only [Sys.put, Function.update_self, Option.some.injEq] at hu
      rw [← hu] at hqu ⊢
      rw [hkind]
      exact hs.queued t c hc (hq hqu)
    · simp only [Sys.put, Function.update_of_ne hut] at hu
      exact hs.queued u cu hu hqu

end Invariant

section Runs

variable [DecidableEq ι] [DecidableEq φ] {N : Nat} {nonblock : φ → Bool} {s s' : Sys ι φ}
  {h : History (Sys ι φ) (Step ι φ)} {t u : ι} {cu : Call φ}

/-- A step of a task is a statement and its effect. -/
theorem step_run (hstep : step N nonblock (.run t) s = some s') :
    ∃ c e c', s.tasks t = some c ∧ stmt N (nonblock c.file) s.dev c = some (e, c') ∧
      act t c' e s = some s' := by
  simp only [step, Option.bind_eq_some_iff] at hstep
  rcases hstep with ⟨c, hc, ⟨e, c'⟩, hstmt, hact⟩
  exact ⟨c, e, c', hc, hstmt, hact⟩

theorem step_downFails (hstep : step N nonblock (.downFails t) s = some s') :
    ∃ c, s.tasks t = some c ∧ c.pc = .down ∧
      s' = s.put t (c.goto (.returned (-ERESTARTSYS))) := by
  simp only [step, Option.bind_eq_some_iff, Option.ite_none_right_eq_some,
    Option.some.injEq] at hstep
  rcases hstep with ⟨c, hc, hpc, rfl⟩
  exact ⟨c, hc, hpc, rfl⟩

theorem step_signal (hstep : step N nonblock (.signal t) s = some s') :
    ∃ c, s.tasks t = some c ∧ s' = s.put t { c with state := .running, signal := true } := by
  simp only [step, Option.map_eq_some_iff] at hstep
  rcases hstep with ⟨c, hc, rfl⟩
  exact ⟨c, hc, rfl⟩

theorem step_openFile {f : φ} (hstep : step N nonblock (.openFile f) s = some s') :
    f ∉ s.files ∧ s' = { s with dev := deviceOpen s.dev, files := insert f s.files } := by
  simp only [step, Option.ite_none_left_eq_some, Option.some.injEq] at hstep
  rcases hstep with ⟨hnew, rfl⟩
  exact ⟨hnew, rfl⟩

theorem step_releaseFile {f : φ} (hstep : step N nonblock (.releaseFile f) s = some s') :
    (f ∈ s.files ∧ ∀ t ∈ s.inside, ((s.tasks t).all fun c => c.file ≠ f) = true) ∧
      s' = { s with dev := deviceRelease s.dev, files := s.files.erase f } := by
  simp only [step, Option.ite_none_right_eq_some, Option.some.injEq] at hstep
  rcases hstep with ⟨hclosed, rfl⟩
  exact ⟨hclosed, rfl⟩

theorem step_call {kind : Kind} {f : φ} {len : Nat} {buffer : UserMem}
    (hstep : step N nonblock (.call t kind f len buffer) s = some s') :
    (f ∈ s.files ∧ (s.tasks t).isNone = true) ∧ s' = { s with
      inside := insert t s.inside
      tasks := Function.update s.tasks t (some
        { pc := .firstTest, kind := kind, file := f, len := len, buffer := buffer, i := 0,
          state := .running, signal := false }) } := by
  simp only [step, Option.ite_none_right_eq_some, Option.some.injEq] at hstep
  rcases hstep with ⟨hfree, rfl⟩
  exact ⟨hfree, rfl⟩

/-- A statement keeps the invariant. -/
theorem run_step_ok (hs : s.Ok N) (hstep : step N nonblock (.run t) s = some s') : s'.Ok N := by
  rcases step_run hstep with ⟨c, e, c', hc, hstmt, hact⟩
  rcases stmt_frame hstmt with ⟨hkind, hfile, -⟩
  rcases act_frame hact with ⟨hfiles, hdev, hinside⟩
  -- The device is the old one or the one a transfer left.
  have hdev' : s'.dev.Ok N ∧ s'.dev.useCount = s.dev.useCount := by
    rcases hdev with hdev | ⟨d, he, hdev⟩
    · rw [hdev]
      exact ⟨hs.dev, rfl⟩
    · rw [he] at hstmt
      rw [hdev, (stmt_store hstmt).2.1]
      exact ⟨transfer_ok hs.dev, transfer_useCount hs.dev⟩
  refine ⟨hdev'.1, by rw [hdev'.2, hfiles, hs.useCount], ?_, ?_⟩
  · intro u cu hu
    by_cases hut : u = t
    · -- Task `t` is still inside, on the file it was on.
      rw [hut] at hu ⊢
      have hkept := (act_tasks_self hact hu).fields
      rw [hkept.2.2.1, hfile, hfiles]
      refine ⟨?_, (hs.inside t c hc).2⟩
      cases e with
      | leave =>
          -- A task that left has no call.
          simp only [act_tasks hact, tasksAfter, Function.update_self, reduceCtorEq] at hu
      | down =>
          rw [act, Option.ite_none_right_eq_some, Option.some.injEq] at hact
          rw [← hact.2]
          exact (hs.inside t c hc).1
      | _ =>
          rw [act, Option.some.injEq] at hact
          rw [← hact]
          exact (hs.inside t c hc).1
    · rcases act_tasks_other hact hut hu with ⟨c₀, hc₀, hkept, -⟩
      rw [hkept.fields.2.2.1, hfiles]
      refine ⟨?_, (hs.inside u c₀ hc₀).2⟩
      rcases hinside with hin | hin
      · rw [hin]
        exact (hs.inside u c₀ hc₀).1
      · rw [hin]
        exact Finset.mem_erase.mpr ⟨hut, (hs.inside u c₀ hc₀).1⟩
  · intro u cu hu hqu
    by_cases hut : u = t
    · rw [hut] at hu ⊢
      have hkept := (act_tasks_self hact hu).fields
      rw [hkept.1] at hqu
      rw [hkept.2.1]
      -- It was on the queue before and the statement did not touch that, or
      -- it has just joined.
      rcases stmt_queued hstmt hqu with ⟨hq, he⟩ | he
      · rw [he] at hact
        rw [act_none hact, hkind]
        exact hs.queued t c hc hq
      · rw [he] at hact
        exact act_enqueue hact
    · rcases act_tasks_other hact hut hu with ⟨c₀, hc₀, hkept, -⟩
      rw [hkept.fields.1] at hqu
      rw [hkept.fields.2.1]
      exact (act_waitq_other hact hut _).mpr (hs.queued u c₀ hc₀ hqu)

/-- Every step keeps the invariant. -/
theorem step_ok (hN : 0 < N) (l : Step ι φ) (hs : s.Ok N)
    (hstep : step N nonblock l s = some s') : s'.Ok N := by
  cases l with
  | run t => exact run_step_ok hs hstep
  | downFails t =>
      -- The task has left its queue before it tries `sema`.
      rcases step_downFails hstep with ⟨c, hc, hpc, rfl⟩
      exact put_ok hs hc rfl rfl fun hq => hq.elim
  | signal t =>
      rcases step_signal hstep with ⟨c, hc, rfl⟩
      exact put_ok hs hc rfl rfl fun hq => hq
  | openFile f =>
      rcases step_openFile hstep with ⟨hnew, rfl⟩
      refine ⟨deviceOpen_ok hN hs.dev, ?_, ?_, hs.queued⟩
      · simp only [deviceOpen_useCount, hs.useCount, Finset.card_insert_of_notMem hnew,
          Int.natCast_add, Int.natCast_one]
      · intro u cu hu
        exact ⟨(hs.inside u cu hu).1, Finset.mem_insert_of_mem (hs.inside u cu hu).2⟩
  | releaseFile f =>
      rcases step_releaseFile hstep with ⟨⟨hf, hidle⟩, rfl⟩
      refine ⟨{ hs.dev with }, ?_, ?_, hs.queued⟩
      · have hpos := Finset.card_pos.mpr ⟨f, hf⟩
        simp only [deviceRelease, hs.useCount, Finset.card_erase_of_mem hf]
        omega
      · -- The released file has nobody inside.
        intro u cu hu
        rcases hs.inside u cu hu with ⟨hin, hfile⟩
        refine ⟨hin, Finset.mem_erase.mpr ⟨?_, hfile⟩⟩
        have hne := hidle u hin
        rw [hu, Option.all_some, decide_eq_true_iff] at hne
        exact hne
  | call t kind f len buffer =>
      rcases step_call hstep with ⟨⟨hf, hnone⟩, rfl⟩
      refine ⟨hs.dev, hs.useCount, ?_, ?_⟩
      · intro u cu hu
        by_cases hut : u = t
        · rw [hut] at hu ⊢
          simp only [Function.update_self, Option.some.injEq] at hu
          rw [← hu]
          exact ⟨Finset.mem_insert_self t _, hf⟩
        · simp only [Function.update_of_ne hut] at hu
          exact ⟨Finset.mem_insert_of_mem (hs.inside u cu hu).1, (hs.inside u cu hu).2⟩
      · intro u cu hu hqu
        by_cases hut : u = t
        · rw [hut] at hu
          simp only [Function.update_self, Option.some.injEq] at hu
          rw [← hu] at hqu
          exact hqu.elim
        · simp only [Function.update_of_ne hut] at hu
          exact hs.queued u cu hu hqu

theorem run_ok (hN : 0 < N) (hr : Run (step N nonblock) Sys.init h s) : s.Ok N :=
  hr.invariant (Sys.Ok N) (init_ok hN) (fun _ l _ hs => step_ok hN l hs)

/-- What one step makes of one task: it ran a statement, it was kept while
    another task ran or a signal came, its `down_interruptible` failed, or it
    has just called. -/
inductive Moved (N : Nat) (nonblock : φ → Bool) (s : Sys ι φ) (l : Step ι φ) (u : ι)
    (cu : Call φ) : Prop
  | ran (c : Call φ) (e : Effect) (c' : Call φ) (hl : l = .run u) (hc : s.tasks u = some c)
      (hstmt : stmt N (nonblock c.file) s.dev c = some (e, c')) (hkept : c'.Kept cu)
  | kept (c : Call φ) (hl : l ≠ .run u) (hc : s.tasks u = some c) (hpc : cu.pc = c.pc)
      (hkind : cu.kind = c.kind) (hfile : cu.file = c.file) (hlen : cu.len = c.len)
      (hi : cu.i = c.i)
  | failed (hpc : cu.pc = .returned (-ERESTARTSYS))
  | called (hpc : cu.pc = .firstTest)

omit [DecidableEq φ] in
theorem moved_put {l : Step ι φ} {c : Call φ} (hl : l ≠ .run u)
    (hself : u = t → Moved N nonblock s l u c) (hu : (s.put t c).tasks u = some cu) :
    Moved N nonblock s l u cu := by
  by_cases hut : u = t
  · rw [hut] at hu
    simp only [Sys.put, Function.update_self, Option.some.injEq] at hu
    rw [← hu]
    exact hself hut
  · simp only [Sys.put, Function.update_of_ne hut] at hu
    exact .kept cu hl hu rfl rfl rfl rfl rfl

theorem step_moved {l : Step ι φ} (hstep : step N nonblock l s = some s')
    (hu : s'.tasks u = some cu) : Moved N nonblock s l u cu := by
  -- Whichever step it is, it is about one task at most, so the question is
  -- whether `u` is that task.
  cases l with
  | run t =>
      rcases step_run hstep with ⟨c, e, c', hc, hstmt, hact⟩
      by_cases hut : u = t
      · rw [← hut] at hc hact ⊢
        exact .ran c e c' rfl hc hstmt (act_tasks_self hact hu)
      · rcases act_tasks_other hact hut hu with ⟨c₀, hc₀, hkept, -⟩
        rcases hkept.fields with ⟨hpc, hkind, hfile, hlen, hi⟩
        refine .kept c₀ (fun h => hut ?_) hc₀ hpc hkind hfile hlen hi
        rw [Step.run.injEq] at h
        exact h.symm
  | downFails t =>
      rcases step_downFails hstep with ⟨c, hc, -, rfl⟩
      exact moved_put (by simp only [ne_eq, reduceCtorEq, not_false_eq_true])
        (fun _ => .failed rfl) hu
  | signal t =>
      rcases step_signal hstep with ⟨c, hc, rfl⟩
      have hl : Step.signal t ≠ Step.run (φ := φ) u := by
        simp only [ne_eq, reduceCtorEq, not_false_eq_true]
      refine moved_put hl (fun hut => ?_) hu
      rw [← hut] at hc
      exact .kept c hl hc rfl rfl rfl rfl rfl
  | openFile f =>
      rcases step_openFile hstep with ⟨-, rfl⟩
      exact .kept cu (by simp only [ne_eq, reduceCtorEq, not_false_eq_true]) hu rfl rfl rfl rfl rfl
  | releaseFile f =>
      rcases step_releaseFile hstep with ⟨-, rfl⟩
      exact .kept cu (by simp only [ne_eq, reduceCtorEq, not_false_eq_true]) hu rfl rfl rfl rfl rfl
  | call t kind f len buffer =>
      rcases step_call hstep with ⟨-, rfl⟩
      exact moved_put (by simp only [ne_eq, reduceCtorEq, not_false_eq_true])
        (fun _ => .called rfl) hu

/-- The step is the transfer of task `t`. -/
def Transfers (s : Sys ι φ) (l : Step ι φ) (t : ι) (c : Call φ) : Prop :=
  l = .run t ∧ s.tasks t = some c ∧ c.pc = .transfer

/-- While a task is inside, transfers are the only steps that move the
    indices. -/
theorem step_indices {l : Step ι φ} {c : Call φ} (hs : s.Ok N)
    (hstep : step N nonblock l s = some s') (hu : s.tasks u = some c) :
    ((∀ t c, ¬ Transfers s l t c) ∧ s'.dev.ir = s.dev.ir ∧ s'.dev.iw = s.dev.iw) ∨
      ∃ t c, Transfers s l t c ∧ s'.dev = (transfer N c s.dev).2.1 := by
  by_cases hrun : ∃ t, l = .run t
  · rcases hrun with ⟨t, rfl⟩
    rcases step_run hstep with ⟨c, e, c', hc, hstmt, hact⟩
    by_cases hpc : c.pc = .transfer
    · rw [stmt, hpc, Option.some.injEq, Prod.mk.injEq] at hstmt
      rw [← hstmt.1, act, Option.some.injEq] at hact
      refine Or.inr ⟨t, c, ⟨rfl, hc, hpc⟩, ?_⟩
      rw [← hact]
    · refine Or.inl ⟨fun t' c₁ ⟨hl, hc₁, hpc₁⟩ => hpc ?_, ?_⟩
      · rw [Step.run.injEq] at hl
        rw [← hl, hc, Option.some.injEq] at hc₁
        rw [hc₁]
        exact hpc₁
      · -- Only a transfer stores to the device.
        rcases (act_frame hact).2.1 with hdev | ⟨d, he, -⟩
        · rw [hdev]
          exact ⟨rfl, rfl⟩
        · rw [he] at hstmt
          exact absurd (stmt_store hstmt).1 hpc
  · have hno : ∀ t c, ¬ Transfers s l t c := fun t c ht => hrun ⟨t, ht.1⟩
    refine Or.inl ⟨hno, ?_⟩
    cases l with
    | run t => exact absurd ⟨t, rfl⟩ hrun
    | openFile f =>
        rcases step_openFile hstep with ⟨-, rfl⟩
        -- The task inside keeps the open from resetting the indices.
        have hdev := open_indices hs hu
        exact ⟨by rw [hdev], by rw [hdev]⟩
    | releaseFile f =>
        rcases step_releaseFile hstep with ⟨-, rfl⟩
        exact ⟨rfl, rfl⟩
    | downFails t =>
        rcases step_downFails hstep with ⟨c, -, -, rfl⟩
        exact ⟨rfl, rfl⟩
    | signal t =>
        rcases step_signal hstep with ⟨c, -, rfl⟩
        exact ⟨rfl, rfl⟩
    | call t kind f len buffer =>
        rcases step_call hstep with ⟨-, rfl⟩
        exact ⟨rfl, rfl⟩

end Runs

end Tasks

end Poll

end KernelModules
