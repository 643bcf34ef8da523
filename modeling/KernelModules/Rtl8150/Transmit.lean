import KernelModules.Kernel.User
import KernelModules.Lib.Pool
import KernelModules.Lib.Run

/-!
# Packets of the RTL8150 Driver

`rtl8150_start_xmit` and the completion of its URB, over any number of packets
and any statuses. A packet is the driver's from the call on that submits its
URB, and the completion should free it and let the stack go on. What the source
leaves to the reader is taken from its comments: `start_xmit` stops the queue,
keeps the packet in `tx_skb` and submits the URB, and starts the queue again
if that fails, in which case the packet stays with the stack.

`write_bulk_callback` frees the packet on its way to `reenable` for the status
0 only. The other statuses jump over it or return. So the books of the packets
are in order as long as all completions are successful, and from the first one
that is not the packet is lost (`run_freed_iff`).

## Main definitions

* `Sys`, `Step`, `step`: The driver, its callers and the USB core.
* `writeBulkCallback`: The callback.
* `Freed`: Exactly the completed packets were freed, each of them once.
* `Reenables`: The queue runs after a completion that is no unlink.
* `Succeeds`: The condition on a completion.

## Theorems

* `reenables`: The queue is started again whatever happened.
* `run_freed_iff`: When every completed packet is freed.
* `run_leaked`: A packet that is not.
-/

namespace KernelModules

namespace Rtl8150

namespace Transmit

open Kernel Lib

/-- The packets that the stack has handed over, the one behind `tx_skb`, the one
    whose URB the USB core has, those completed, and the queue. -/
structure Sys where
  skbs : Pool
  txSkb : Option Nat
  inFlight : Option Nat
  completed : List Nat
  queueStopped : Bool

/-- The interface as opened. -/
def Sys.opened : Sys :=
  { skbs := .empty, txSkb := none, inFlight := none, completed := [], queueStopped := false }

/-- A packet, with what `usb_submit_urb` returns for it; a completion, with the
    status of the URB; and a new open of the interface. -/
inductive Step where
  | startXmit (res : Int)
  | complete (status : Int)
  | reopen

/-- `rtl8150_start_xmit`. -/
def rtl8150StartXmit (res : Int) (s : Sys) : Sys :=
  let s' := { s with skbs := s.skbs.make, txSkb := some s.skbs.made, queueStopped := true }
  if res = 0 then { s' with inFlight := some s.skbs.made }
  -- The packet stays with the stack, which gets the error.
  else { s' with queueStopped := false }

/-- `write_bulk_callback`. -/
def writeBulkCallback (status : Int) (s : Sys) : Sys :=
  if status = 0 then { s with skbs := s.skbs.releaseOpt s.txSkb, queueStopped := false }
  -- The URB was unlinked.
  else if status = -ENOENT then s
  -- `-ETIME` and the rest go to `reenable`.
  else { s with queueStopped := false }

/-- The stack hands over a packet while the queue runs, and opens the interface
    again when no URB is left from before. -/
def step : Step → Sys → Option Sys
  | .startXmit res, s => if s.queueStopped then none else some (rtl8150StartXmit res s)
  | .complete status, s => s.inFlight.map fun n =>
    { writeBulkCallback status s with inFlight := none, completed := n :: s.completed }
  | .reopen, s => if s.inFlight = none then some { s with queueStopped := false } else none

/-- Every completed packet has been freed exactly once, and no other has. -/
def Freed (s : Sys) : Prop := s.skbs.Owns fun n => n < s.skbs.made ∧ n ∉ s.completed

/-- After a completion that is no unlink, the queue runs. -/
def Reenables (s : Sys) : Step → Prop
  | .complete status => status ≠ -ENOENT → (writeBulkCallback status s).queueStopped = false
  | _ => True

/-- The completion is successful. -/
def Succeeds : Step → Prop
  | .complete status => status = 0
  | _ => True

instance : (l : Step) → Decidable (Succeeds l)
  | .complete _ => inferInstanceAs (Decidable (_ = _))
  | .startXmit _ | .reopen => .isTrue trivial

variable {s s' : Sys} {l : Step} {h : History Sys Step}

/-- The packet in flight is the one behind `tx_skb`, and while there is one the
    queue is stopped. -/
structure Held (s : Sys) : Prop where
  flying : ∀ n, s.inFlight = some n →
    s.txSkb = some n ∧ n < s.skbs.made ∧ n ∉ s.completed ∧ s.queueStopped = true
  made : ∀ n ∈ s.completed, n < s.skbs.made

theorem opened_held : Held Sys.opened where
  flying := fun _ h => by simp only [Sys.opened, reduceCtorEq] at h
  made := fun _ h => absurd h List.not_mem_nil

theorem callback_made (status : Int) (s : Sys) :
    (writeBulkCallback status s).skbs.made = s.skbs.made := by
  unfold writeBulkCallback
  split
  · exact Pool.releaseOpt_made _ _
  · split <;> rfl

theorem step_held (hs : Held s) (hstep : step l s = some s') : Held s' := by
  cases l with
  | startXmit res =>
      simp only [step, Option.ite_none_left_eq_some, Option.some.injEq] at hstep
      rcases hstep with ⟨hruns, rfl⟩
      unfold rtl8150StartXmit
      split
      · refine ⟨fun n hn => ?_, fun n hn => Nat.lt_succ_of_lt (hs.made n hn)⟩
        cases hn
        exact ⟨rfl, Nat.lt_succ_self _, fun hmem => Nat.lt_irrefl _ (hs.made _ hmem), rfl⟩
      · -- No packet is in flight while the queue runs.
        refine ⟨fun n hn => absurd (hs.flying n hn).2.2.2 hruns, fun n hn => ?_⟩
        exact Nat.lt_succ_of_lt (hs.made n hn)
  | complete status =>
      rcases Option.map_eq_some_iff.mp hstep with ⟨n, hn, rfl⟩
      refine ⟨fun m hm => by simp only [reduceCtorEq] at hm, fun m hm => ?_⟩
      rw [callback_made]
      rcases List.mem_cons.mp hm with rfl | hm
      · exact (hs.flying _ hn).2.1
      · exact hs.made m hm
  | reopen =>
      simp only [step, Option.ite_none_right_eq_some, Option.some.injEq] at hstep
      rcases hstep with ⟨hidle, rfl⟩
      exact ⟨fun n hn => by rw [hidle] at hn; simp only [reduceCtorEq] at hn, hs.made⟩

/-- A completion frees its packet exactly if it is successful. -/
theorem complete_freed_iff {status : Int} (hs : Held s) (hfreed : Freed s)
    (hstep : step (.complete status) s = some s') : Freed s' ↔ status = 0 := by
  rcases Option.map_eq_some_iff.mp hstep with ⟨n, hn, rfl⟩
  rcases hs.flying n hn with ⟨htx, hmade, hopen, _⟩
  simp only [Freed, callback_made]
  by_cases hstatus : status = 0
  · refine iff_of_true ?_ hstatus
    rw [writeBulkCallback, if_pos hstatus, htx]
    refine (hfreed.release ⟨hmade, hopen⟩).congr fun m => ?_
    rw [List.mem_cons, not_or, and_assoc, and_comm (a := m ≠ n)]
  · -- The packet is completed now and was not freed.
    refine iff_of_false (fun howns => ?_) hstatus
    have hsame : (writeBulkCallback status s).skbs = s.skbs := by
      rw [writeBulkCallback, if_neg hstatus]
      split <;> rfl
    rw [hsame] at howns
    have honce := howns.once n hmade fun h => h.2 List.mem_cons_self
    rw [hfreed.held n ⟨hmade, hopen⟩] at honce
    exact absurd honce Nat.zero_ne_one

theorem step_freed_iff (hs : Held s) (hfreed : Freed s) (hstep : step l s = some s') :
    Freed s' ↔ Succeeds l := by
  cases l with
  | startXmit res =>
      refine iff_of_true ?_ trivial
      simp only [step, Option.ite_none_left_eq_some, Option.some.injEq] at hstep
      rcases hstep with ⟨_, rfl⟩
      have hmade : s.skbs.make.Owns fun n => n < s.skbs.made + 1 ∧ n ∉ s.completed := by
        refine hfreed.make.congr fun n => ?_
        constructor
        · rintro ⟨hlt, hopen⟩
          rcases Nat.lt_succ_iff_lt_or_eq.mp hlt with hlt | rfl
          · exact .inr ⟨hlt, hopen⟩
          · exact .inl rfl
        · rintro (rfl | ⟨hlt, hopen⟩)
          · exact ⟨Nat.lt_succ_self _, fun hmem => Nat.lt_irrefl _ (hs.made _ hmem)⟩
          · exact ⟨Nat.lt_succ_of_lt hlt, hopen⟩
      unfold rtl8150StartXmit
      split <;> exact hmade
  | complete status => exact complete_freed_iff hs hfreed hstep
  | reopen =>
      refine iff_of_true ?_ trivial
      simp only [step, Option.ite_none_right_eq_some, Option.some.injEq] at hstep
      rcases hstep with ⟨_, rfl⟩
      exact hfreed

/-- On every path but that of an unlink, the queue is started again. -/
theorem reenables (s : Sys) (l : Step) : Reenables s l := by
  cases l with
  | complete status =>
      intro hlinked
      unfold writeBulkCallback
      by_cases hstatus : status = 0
      · rw [if_pos hstatus]
      · rw [if_neg hstatus, if_neg hlinked]
  | startXmit res => trivial
  | reopen => trivial

/-- Every completed packet is freed once, and the queue started again, in the
    runs in which all completions are successful, and in no others. -/
theorem run_freed_iff (hr : Run step Sys.opened h s) :
    EveryState Freed h s ∧ EveryStep (fun _ => Reenables) h ↔
      EveryStep (fun _ _ => Succeeds) h := by
  have hqueue : EveryStep (fun _ => Reenables) h :=
    hr.everyStep_of fun _ s l _ _ _ => reenables s l
  rw [and_iff_left hqueue]
  refine hr.everyState_iff_everyStep ?_ ?_
  · exact Pool.empty_owns.congr fun n => iff_of_false (fun hn => Nat.not_lt_zero n hn.1) id
  · intro h s l s' hr hfreed hstep
    exact step_freed_iff (hr.invariant Held opened_held fun _ _ _ => step_held) hfreed hstep

/-- Two packets and a submission that fails. -/
theorem run_freed_twice : ∃ h s, Run step Sys.opened h s ∧ s.completed = [2, 0] ∧
    EveryState Freed h s ∧ EveryStep (fun _ => Reenables) h := by
  rcases exists_run_of_exec step Sys.opened
    [.startXmit 0, .complete 0, .startXmit (-ENOMEM), .startXmit 0, .complete 0]
    (fun h s => EveryStep (fun _ _ => Succeeds) h ∧ s.completed = [2, 0])
    (by decide) with ⟨h, s, hr, hp⟩
  rcases of_decide_eq_true hp with ⟨hsucceed, hcompleted⟩
  exact ⟨h, s, hr, hcompleted, (run_freed_iff hr).mpr hsucceed⟩

/-- The URB of a packet times out. The queue goes on, `tx_skb` is pointed to the
    next packet, and nothing refers to the first one any more. -/
theorem run_leaked : ∃ h s, Run step Sys.opened h s ∧ s.completed = [1, 0] ∧ s.txSkb = some 1 ∧
    s.skbs.released 0 = 0 ∧ ¬ Freed s := by
  rcases exists_run_of_exec step Sys.opened
    [.startXmit 0, .complete (-ETIME), .startXmit 0, .complete 0]
    (fun _ s => s.completed = [1, 0] ∧ s.txSkb = some 1 ∧ s.skbs.released 0 = 0 ∧ s.skbs.made = 2)
    (by decide) with ⟨h, s, hr, hp⟩
  rcases of_decide_eq_true hp with ⟨hcompleted, htx, hzero, hmade⟩
  refine ⟨h, s, hr, hcompleted, htx, hzero, fun hfreed => ?_⟩
  have honce := hfreed.once 0 (by omega) fun hopen => hopen.2 (by rw [hcompleted]; decide)
  rw [hzero] at honce
  exact absurd honce Nat.zero_ne_one

end Transmit

end Rtl8150

end KernelModules
