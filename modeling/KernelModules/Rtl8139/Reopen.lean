import KernelModules.Lib.Run
import KernelModules.Rtl8139.Device

/-!
# Opening the Interface Again

Runs of open, `start_xmit`, interrupts and stop in any order, with any answers
of the TSD registers. The card is reset by every open, and starts over with
the first descriptor. The driver should start there too, with an empty ring.

`rtl8139_open` sets `dirty_tx` and not `cur_tx`, and nothing else ever sets
`cur_tx` back. So `cur_tx` is the number of packets accepted since the
structure was allocated, modulo the four descriptors, and an open finds it at
the first descriptor exactly if that number is a multiple of four.

## Main definitions

* `Step`, `step`: The events.
* `accepted`: The number of packets accepted, by the history.
* `StartsOver`: An open leaves both indices at the first descriptor.
* `WholeTurns`: The condition on an open.

## Theorems

* `run_curTx`: `cur_tx` counts the packets accepted.
* `run_startsOver_iff`: When every open starts over.
* `run_kept_index`: An open that does not.
-/

namespace KernelModules

namespace Rtl8139

namespace Reopen

open Lib

variable {α : Type*}

inductive Step (α : Type*) where
  | openDevice
  | startXmit (skb : α) (len : Nat)
  | interrupt (isr : BitVec 16) (tsd : Nat → BitVec 32) (fuel : Nat)
      (received : List ((Nat → BitVec 32) × Bool))
  | stop

/-- Every event may come at any time: what follows does not need what the
    stack promises of their order. -/
def step : Step α → Dev α → Option (Dev α)
  | .openDevice, d => some (rtl8139Open d)
  | .startXmit skb len, d => some (rtl8139StartXmit skb len d)
  | .interrupt isr tsd fuel received, d => (rtl8139Interrupt isr tsd fuel received d).map Prod.snd
  | .stop, d => some (rtl8139Stop d)

/-- How many packets have been accepted since the structure was allocated. -/
def accepted : History (Dev α) (Step α) → Nat
  | [] => 0
  | (_, .startXmit _ len) :: h => if len < TX_BUF_SIZE then accepted h + 1 else accepted h
  | (_, .openDevice) :: h | (_, .interrupt _ _ _ _) :: h | (_, .stop) :: h => accepted h

/-- An open leaves `cur_tx` and `dirty_tx` at the first descriptor. -/
def StartsOver (d : Dev α) : Step α → Prop
  | .openDevice => (rtl8139Open d).curTx = 0 ∧ (rtl8139Open d).dirtyTx = 0
  | _ => True

/-- An open comes after a multiple of four packets. -/
def WholeTurns (h : History (Dev α) (Step α)) : Step α → Prop
  | .openDevice => accepted h % NUM_TX_DESC = 0
  | _ => True

instance (h : History (Dev α) (Step α)) : (l : Step α) → Decidable (WholeTurns h l)
  | .openDevice => inferInstanceAs (Decidable (_ = _))
  | .startXmit _ _ | .interrupt _ _ _ _ | .stop => .isTrue trivial

variable {h : History (Dev α) (Step α)} {d : Dev α}

/-- `cur_tx` counts the packets accepted, through all opens and stops. -/
theorem run_curTx (hr : Run step Dev.zeroed h d) : d.curTx = accepted h % NUM_TX_DESC := by
  refine hr.historyInvariant (fun h d => d.curTx = accepted h % NUM_TX_DESC) rfl ?_
  intro h d l d' _ hd hstep
  cases l with
  | openDevice | stop =>
      cases hstep
      exact hd
  | startXmit skb len =>
      cases hstep
      by_cases hlen : len < TX_BUF_SIZE
      · rw [(startXmit_accepts skb d hlen).1, hd, accepted, if_pos hlen, Nat.mod_add_mod]
      · rw [rtl8139StartXmit, if_neg hlen, accepted, if_neg hlen]
        exact hd
  | interrupt isr tsd fuel received =>
      rcases Option.map_eq_some_iff.mp hstep with ⟨⟨rs, q⟩, hcall, heq⟩
      cases heq
      rcases rtl8139Interrupt_tx hcall with ⟨t, receive, htx, hsame⟩
      rw [hsame.curTx, (interruptTx_kept htx).1, hd]
      rfl

/-- Every open starts over in the runs in which each of them comes after a
    multiple of four packets, and in no others. -/
theorem run_startsOver_iff (hr : Run step Dev.zeroed h d) :
    EveryStep (fun _ => StartsOver) h ↔ EveryStep (fun h _ => WholeTurns h) h := by
  refine hr.everyStep_iff ?_
  intro h d l d' hr _
  cases l with
  | openDevice =>
      rw [StartsOver, WholeTurns, ← run_curTx hr]
      exact and_iff_left rfl
  | startXmit skb len => exact Iff.rfl
  | interrupt isr tsd fuel received => exact Iff.rfl
  | stop => exact Iff.rfl

/-- Four packets between an open and the next. -/
theorem run_startsOver_four : ∃ (h : History (Dev Nat) (Step Nat)) (d : Dev Nat),
    Run step Dev.zeroed h d ∧ accepted h = 4 ∧ EveryStep (fun _ => StartsOver) h := by
  rcases exists_run_of_exec step (Dev.zeroed : Dev Nat)
    [.openDevice, .startXmit 0 60, .startXmit 1 60, .startXmit 2 60, .startXmit 3 60,
      .interrupt TxOK (fun _ => TxStatOK) 4 [], .stop, .openDevice]
    (fun h _ => EveryStep (fun h _ => WholeTurns h) h ∧ accepted h = 4) (by decide) with
    ⟨h, d, hr, hp⟩
  rcases of_decide_eq_true hp with ⟨hturns, hfour⟩
  exact ⟨h, d, hr, hfour, (run_startsOver_iff hr).mpr hturns⟩

/-- One packet is sent and reclaimed before the interface is stopped and opened
    again: `cur_tx` is 1 then and `dirty_tx` 0, and the reclaim loop takes the
    first descriptor of the reset card for a packet that it has. -/
theorem run_kept_index : ∃ (h : History (Dev Nat) (Step Nat)) (d : Dev Nat),
    Run step Dev.zeroed h d ∧ d.curTx = 1 ∧ d.dirtyTx = 0 ∧ d.Unreclaimed ∧
      ¬ EveryStep (fun _ => StartsOver) h := by
  rcases exists_run_of_exec step (Dev.zeroed : Dev Nat)
    [.openDevice, .startXmit 0 60, .interrupt TxOK (fun _ => TxStatOK) 4 [], .stop, .openDevice]
    (fun h d => d.curTx = 1 ∧ d.dirtyTx = 0 ∧ d.Unreclaimed ∧
      ¬ EveryStep (fun h _ => WholeTurns h) h) (by decide) with ⟨h, d, hr, hp⟩
  rcases of_decide_eq_true hp with ⟨hcur, hdirty, hloop, hturns⟩
  exact ⟨h, d, hr, hcur, hdirty, hloop, fun hall => hturns ((run_startsOver_iff hr).mp hall)⟩

end Reopen

end Rtl8139

end KernelModules
