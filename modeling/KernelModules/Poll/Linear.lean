import KernelModules.Lib.Fifo
import KernelModules.Poll.Exit

/-!
# Concurrent Calls as Operations of a Queue

What a task gets from the poll device when others are inside with it. Seen
from outside a call begins when it is made and ends when it returns, and in
between any statements of other calls may be executed. The question is whether
the calls can nevertheless be explained one after the other, as operations of
a queue that serves requests as far as it can.

They can, and the order is that of the transfers. A call that returns a count
has executed one transfer since it was made, so its operation lies between its
beginning and its end; it was served in full, as far as the queue went at that
moment; and the bytes are those that are in the caller's buffer when the call
returns. A call that returns an error has executed none. The tests of the wait
loops have no part in this: they decide how long a call waits, and whether its
operation finds anything to move.

## Main definitions

* `Call.request`: What a call asks of the queue.
* `moved`, `operation`, `operations`: What a step, and a run, does to it.
* `sinceCall`: What a task has done to it since its call.
* `Linear`: Calls are operations of one queue.

## Theorems

* `transfer_serve`: A transfer is the queue's way to serve its request.
* `run_answers`: The transfers of a run are served by one queue.
* `run_performed`: A call executes its operation once, and then returns.
* `run_linear`: Both together, for every run.
-/

namespace KernelModules

namespace Poll

namespace Tasks

open Kernel Lib

variable {ι φ : Type*}

/-- What a call asks of the queue. -/
def Call.request (c : Call φ) : Fifo.Request UInt8 :=
  match c.kind with
  | .read => .get c.len
  | .write => .put (bytes c.buffer 0 c.len)

/-- The bytes the transfer of a call takes out of the ring or puts into it. -/
def moved (N : Nat) (c : Call φ) (d : Dev) : List UInt8 :=
  match c.kind with
  | .read => (d.contents N).take (transfer N c d).1
  | .write => bytes c.buffer 0 (transfer N c d).1

/-- What a step does to the queue: the first open empties it, and a transfer
    serves a request. -/
def operation (N : Nat) : Sys ι φ × Step ι φ → Option (Fifo.Request UInt8 × List UInt8)
  | (s, .openFile _) => if s.dev.useCount = 0 then some (.reset, []) else none
  | (s, .run t) => (s.tasks t).bind fun c =>
    if c.pc = .transfer then some (c.request, moved N c s.dev) else none
  | _ => none

/-- What a run does to the queue, the most recent first. -/
def operations (N : Nat) (h : History (Sys ι φ) (Step ι φ)) :
    List (Fifo.Request UInt8 × List UInt8) :=
  h.filterMap (operation N)

/-- What a task has done to the queue since its call, the most recent first. -/
def sinceCall [DecidableEq ι] (N : Nat) (t : ι) :
    History (Sys ι φ) (Step ι φ) → List (Fifo.Request UInt8 × List UInt8)
  | [] => []
  | (s, .run u) :: h =>
    if u = t then (operation N (s, .run u)).toList ++ sinceCall N t h else sinceCall N t h
  | (_, .call u _ _ _ _) :: h => if u = t then [] else sinceCall N t h
  | (_, .downFails _) :: h | (_, .signal _) :: h | (_, .openFile _) :: h
  | (_, .releaseFile _) :: h => sinceCall N t h

/-- A call has had its request served: the block is as long as its count, and
    it is what its buffer holds. -/
def Served (es : List (Fifo.Request UInt8 × List UInt8)) (c : Call φ) : Prop :=
  ∃ block, es = [(c.request, block)] ∧ block.length = c.i ∧
    (NoFault c.buffer c.i → bytes c.buffer 0 c.i = block)

/-- What a call has done to the queue when it stands at a statement. -/
def Performed (es : List (Fifo.Request UInt8 × List UInt8)) (c : Call φ) : Prop :=
  match c.pc with
  | .up | .wakeUp => Served es c
  | .returned v => (v < 0 → es = []) ∧ (0 ≤ v → v = c.i ∧ Served es c)
  | _ => es = []

/-- The calls of a run are operations of one queue of capacity `N - 1`, in the
    order of their transfers. -/
structure Linear [DecidableEq ι] (N : Nat) (h : History (Sys ι φ) (Step ι φ)) (s : Sys ι φ) :
    Prop where
  /-- One queue gives all the responses, and is left with what the ring holds. -/
  served : ∃ hq, Run (Fifo.answer (N - 1)) [] hq (s.dev.contents N) ∧
    hq.map Prod.snd = operations N h
  /-- What went in since the last reset has come out or is in the ring. -/
  conserved : Fifo.accepted ((operations N h).map Fifo.served) =
    Fifo.returned ((operations N h).map Fifo.served) ++ s.dev.contents N
  /-- A call that failed has had no part in it. -/
  error : ∀ t c v, s.tasks t = some c → c.pc = .returned v → v < 0 → sinceCall N t h = []
  /-- A call that returns a count has had its request served, once, since it
      was made. -/
  count : ∀ t c v, s.tasks t = some c → c.pc = .returned v → 0 ≤ v →
    ∃ block, sinceCall N t h = [(c.request, block)] ∧ (block.length : Int) = v ∧
      (NoFault c.buffer block.length → bytes c.buffer 0 block.length = block)

section Transfers

variable {N : Nat} {d : Dev} {c : Call φ}

theorem moved_length (hd : d.Ok N) : (moved N c d).length = (transfer N c d).1 := by
  unfold moved
  cases hk : c.kind with
  | read =>
      simp only [transfer, hk, readTransfer_count hd, List.length_take, contents_length]
      omega
  | write => exact bytes_length _ _ _

/-- A transfer is the queue's way to serve the request of its call. -/
theorem transfer_serve (hd : d.Ok N) :
    Fifo.serve (N - 1) c.request (d.contents N) =
      (moved N c d, (transfer N c d).2.1.contents N) := by
  unfold moved Call.request transfer
  cases c.kind with
  | read =>
      -- Asking for more than is held is asking for all of it.
      simp only [Fifo.serve, readTransfer_count hd, readTransfer_contents hd, Prod.mk.injEq]
      rw [← contents_length N d]
      exact ⟨List.take_eq_take_min, List.drop_eq_drop_min⟩
  | write =>
      simp only [Fifo.serve, writeTransfer_count hd, writeTransfer_contents hd, contents_length,
        bytes_take, Dev.room]

/-- The transfer of a read leaves the block in the buffer, that of a write has
    taken it from there. -/
theorem transfer_buffer (hd : d.Ok N)
    (hu : NoFault (transfer N c d).2.2 (transfer N c d).1) :
    bytes (transfer N c d).2.2 0 (transfer N c d).1 = moved N c d := by
  unfold moved transfer at *
  cases hk : c.kind with
  | read =>
      simp only [hk, readTransfer_count hd] at hu ⊢
      refine readTransfer_bytes hd c.len c.buffer fun k hlt => ?_
      have hsome := hu k hlt
      rw [readTransfer, readLoop_eq c.len 0 d c.buffer hd, putUsers_isSome] at hsome
      exact hsome
  | write => rfl

end Transfers

section Statements

variable {N : Nat} {nonblock : Bool} {d : Dev} {c c' : Call φ} {e : Effect}
  {es : List (Fifo.Request UInt8 × List UInt8)}

theorem Call.Kept.request (h : c.Kept c') : c'.request = c.request ∧ c'.buffer = c.buffer := by
  rcases h with rfl | rfl <;> exact ⟨rfl, rfl⟩

/-- A statement does not change what the call asks for. -/
theorem stmt_request (h : stmt N nonblock d c = some (e, c')) : c'.request = c.request := by
  cases stmt_outcome h with
  | move hpc =>
      -- Only a read stores to its buffer, and it does not ask by it.
      unfold Call.request transfer
      cases hk : c.kind <;> rfl
  | _ => rfl

/-- The operation of the transfer is performed by it, and any other statement
    leaves what the call has performed as it was. -/
theorem stmt_performed (hd : d.Ok N) (h : stmt N nonblock d c = some (e, c'))
    (hp : Performed es c) (hstay : e ≠ .leave) :
    Performed (if c.pc = .transfer then (c.request, moved N c d) :: es else es) c' := by
  have hreq := stmt_request h
  cases stmt_outcome h with
  | move hpc =>
      rw [if_pos hpc]
      simp only [Performed, hpc] at hp
      rw [hp]
      exact ⟨_, by rw [hreq], moved_length hd, transfer_buffer hd⟩
  | free hpc =>
      rw [if_neg (by rw [hpc]; exact Pc.noConfusion)]
      simp only [Performed, hpc] at hp
      exact hp
  | notify hpc hi | silent hpc hi =>
      rw [if_neg (by rw [hpc]; exact Pc.noConfusion)]
      simp only [Performed, hpc] at hp
      exact ⟨fun hneg => absurd hneg (by omega), fun _ => ⟨rfl, hp⟩⟩
  | refuse hpc hb hn =>
      rw [if_neg (by rw [hpc]; exact Pc.noConfusion)]
      simp only [Performed, hpc] at hp
      exact ⟨fun _ => hp, fun hpos => absurd hpos (by decide)⟩
  | restart hpc =>
      rw [if_neg (by rw [hpc]; exact Pc.noConfusion)]
      simp only [Performed, hpc] at hp
      exact ⟨fun _ => hp, fun hpos => absurd hpos (by decide)⟩
  | proceed hpc hb =>
      rcases hpc with hpc | hpc <;> rw [if_neg (by rw [hpc]; exact Pc.noConfusion)] <;>
        simp only [Performed, hpc] at hp <;> exact hp
  | leave v hpc => exact absurd rfl hstay
  | _ =>
      -- On the way to the transfer nothing has been performed.
      simp only [*, Performed, reduceCtorEq, if_false] at hp ⊢
      exact hp

/-- Being made running does not change what a call has performed. -/
theorem Call.Kept.performed (h : c.Kept c') (hp : Performed es c) : Performed es c' := by
  rcases h with rfl | rfl <;> exact hp

end Statements

section Steps

variable [DecidableEq ι] {N : Nat} {nonblock : φ → Bool} {s s' : Sys ι φ} {t : ι} {c : Call φ}
  {h : History (Sys ι φ) (Step ι φ)}

omit [DecidableEq ι] in
theorem operation_run (hc : s.tasks t = some c) :
    operation N (s, .run t) =
      if c.pc = .transfer then some (c.request, moved N c s.dev) else none := by
  rw [operation, hc, Option.bind_some]

theorem sinceCall_run (hc : s.tasks t = some c) :
    sinceCall N t ((s, .run t) :: h) =
      if c.pc = .transfer then (c.request, moved N c s.dev) :: sinceCall N t h
      else sinceCall N t h := by
  rw [sinceCall, if_pos rfl, operation_run hc]
  split <;> rfl

/-- The transfers of a run are served by one queue, in their order. -/
theorem run_answers [DecidableEq φ] (hN : 0 < N) (hr : Run (step N nonblock) Sys.init h s) :
    ∃ hq, Run (Fifo.answer (N - 1)) [] hq (s.dev.contents N) ∧
      hq.map Prod.snd = operations N h := by
  refine hr.simulate (fun s => s.dev.contents N) (operation N) (fun h s l s' hr hstep => ?_)
  have hs := run_ok hN hr
  cases l with
  | run t =>
      rcases step_run hstep with ⟨c, e, c', hc, hstmt, hact⟩
      rw [operation_run hc]
      by_cases hpc : c.pc = .transfer
      · rw [stmt, hpc, Option.some.injEq, Prod.mk.injEq] at hstmt
        rw [← hstmt.1, act, Option.some.injEq] at hact
        refine .inr ⟨_, if_pos hpc, Fifo.answer_iff.mpr ?_⟩
        rw [transfer_serve hs.dev, ← hact]
        exact ⟨rfl, rfl⟩
      · -- Only a transfer stores to the device.
        refine .inl ⟨if_neg hpc, ?_⟩
        rcases (act_frame hact).2.1 with hdev | ⟨d, rfl, -⟩
        · rw [hdev]
        · exact absurd (stmt_store hstmt).1 hpc
  | openFile f =>
      rcases step_openFile hstep with ⟨-, rfl⟩
      by_cases hu : s.dev.useCount = 0
      · refine .inr ⟨_, if_pos hu, Fifo.answer_iff.mpr ⟨rfl, ?_⟩⟩
        exact deviceOpen_contents_first hu
      · refine .inl ⟨if_neg hu, ?_⟩
        simp only [deviceOpen_of_ne hu]
        rfl
  | releaseFile f =>
      rcases step_releaseFile hstep with ⟨-, rfl⟩
      exact .inl ⟨rfl, rfl⟩
  | downFails t =>
      rcases step_downFails hstep with ⟨c, -, -, rfl⟩
      exact .inl ⟨rfl, rfl⟩
  | signal t =>
      rcases step_signal hstep with ⟨c, -, rfl⟩
      exact .inl ⟨rfl, rfl⟩
  | call t kind f len buffer =>
      rcases step_call hstep with ⟨-, rfl⟩
      exact .inl ⟨rfl, rfl⟩

/-- A statement of the task itself performs what it should, if the task is
    still inside after it. -/
theorem run_step_performed [DecidableEq φ] {cu : Call φ} (hs : s.Ok N)
    (hp : ∀ c, s.tasks t = some c → Performed (sinceCall N t h) c)
    (hstep : step N nonblock (.run t) s = some s') (hcu : s'.tasks t = some cu) :
    Performed (sinceCall N t ((s, .run t) :: h)) cu := by
  rcases step_run hstep with ⟨c, e, c', hc, hstmt, hact⟩
  rw [sinceCall_run hc]
  refine (act_tasks_self hact hcu).performed (stmt_performed hs.dev hstmt (hp c hc) ?_)
  rintro rfl
  rw [act_tasks hact, tasksAfter, Function.update_self] at hcu
  exact absurd hcu.symm (Option.some_ne_none cu)

/-- What a task has done to the queue since its call is what a call does that
    stands where it stands. -/
theorem run_performed [DecidableEq φ] (hN : 0 < N) (hr : Run (step N nonblock) Sys.init h s) :
    ∀ c, s.tasks t = some c → Performed (sinceCall N t h) c := by
  induction hr with
  | start => exact fun c hc => absurd hc.symm (Option.some_ne_none c)
  | next l hr hstep ih =>
      intro cu hcu
      cases l with
      | run u =>
          by_cases hut : t = u
          · rw [← hut] at hstep ⊢
            exact run_step_performed (run_ok hN hr) ih hstep hcu
          · rcases step_run hstep with ⟨c, e, c', -, -, hact⟩
            rcases act_tasks_other hact hut hcu with ⟨c₀, hc₀, hkept, -⟩
            rw [sinceCall, if_neg (Ne.symm hut)]
            exact hkept.performed (ih c₀ hc₀)
      | downFails u =>
          rcases step_downFails hstep with ⟨c, hc, hpc, rfl⟩
          by_cases hut : t = u
          · have hp := ih c (hut ▸ hc)
            simp only [Performed, hpc] at hp
            rw [hut] at hcu
            simp only [Sys.put, Function.update_self, Option.some.injEq] at hcu
            rw [← hcu]
            exact ⟨fun _ => hp, fun hpos => absurd hpos (by decide)⟩
          · simp only [Sys.put, Function.update_of_ne hut] at hcu
            exact ih cu hcu
      | signal u =>
          rcases step_signal hstep with ⟨c, hc, rfl⟩
          by_cases hut : t = u
          · have hp := ih c (hut ▸ hc)
            rw [hut] at hcu
            simp only [Sys.put, Function.update_self, Option.some.injEq] at hcu
            rw [← hcu]
            exact hp
          · simp only [Sys.put, Function.update_of_ne hut] at hcu
            exact ih cu hcu
      | call u kind f len buffer =>
          rcases step_call hstep with ⟨-, rfl⟩
          by_cases hut : t = u
          · rw [hut] at hcu ⊢
            simp only [Function.update_self, Option.some.injEq] at hcu
            rw [← hcu, sinceCall, if_pos rfl]
            rfl
          · simp only [Function.update_of_ne hut] at hcu
            rw [sinceCall, if_neg (Ne.symm hut)]
            exact ih cu hcu
      | openFile f =>
          rcases step_openFile hstep with ⟨-, rfl⟩
          exact ih cu hcu
      | releaseFile f =>
          rcases step_releaseFile hstep with ⟨-, rfl⟩
          exact ih cu hcu

/-- The calls of every run are operations of one queue. -/
theorem run_linear [DecidableEq φ] (hN : 0 < N) (hr : Run (step N nonblock) Sys.init h s) :
    Linear N h s := by
  rcases run_answers hN hr with ⟨hq, hrq, hops⟩
  refine ⟨⟨hq, hrq, hops⟩, ?_, ?_, ?_⟩
  · rcases Fifo.simulates_step hrq with ⟨h', hr', hev⟩
    rw [← hops, List.map_map, show Fifo.served ∘ Prod.snd = fun p => Fifo.served p.2 from rfl,
      ← hev]
    exact Fifo.conservation hr'
  · intro t c v hc hpc hneg
    have hp := run_performed hN hr c hc
    simp only [Performed, hpc] at hp
    exact hp.1 hneg
  · intro t c v hc hpc hpos
    have hp := run_performed hN hr c hc
    simp only [Performed, hpc] at hp
    rcases hp.2 hpos with ⟨hv, block, hes, hlen, hbytes⟩
    exact ⟨block, hes, by rw [hv, hlen], by rw [hlen]; exact hbytes⟩

/-- A reader waits, two writers are inside together, and the reader is woken
    by the first and returns a byte of each of them. -/
theorem run_linear_three : ∃ (h : History (Sys Nat Nat) (Step Nat Nat)) (s : Sys Nat Nat)
    (c : Call Nat), Linear 23 h s ∧ s.tasks 0 = some c ∧ c.pc = .returned 2 ∧
      (operations 23 h).length = 4 := by
  rcases exists_run_of_exec (step 23 fun _ => false) (Sys.init : Sys Nat Nat)
    (List.flatten [
      [.openFile 0, .call 0 .read 0 2 (fun _ => some 0)], List.replicate 6 (.run 0),
      [.call 1 .write 0 1 (fun _ => some 7), .call 2 .write 0 2 (fun _ => some 8)],
      List.replicate 8 (.run 1), List.replicate 8 (.run 2), [.run 1], List.replicate 9 (.run 0)])
    (fun h s => (∃ c ∈ s.tasks 0, c.pc = .returned 2) ∧ (operations 23 h).length = 4) (by decide)
    with ⟨h, s, hr, hp⟩
  rcases of_decide_eq_true hp with ⟨⟨c, hc, hpc⟩, hlen⟩
  exact ⟨h, s, c, run_linear (by decide) hr, hc, hpc, hlen⟩

end Steps

end Tasks

end Poll

end KernelModules
