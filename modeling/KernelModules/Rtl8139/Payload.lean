import KernelModules.Rtl8139.Receive

/-!
# Packets Inside the Ring Memory

Runs of the driver with any contents of the ring. The receive loop takes the
size of a packet from the header that the card left in front of it, and hands
on the packet without its checksum: `rx_size - 4` bytes behind the header. The
memory of the ring is longer than the ring, so that a packet that starts near
the end may go beyond it.

The loop believes every header. A size below 4 wraps around, and a large one
leads out of the memory. From where it does depends on the headers read
before, so the position of the next header is a function of the history
(`run_rxOffset`), and the condition on a run speaks of headers alone. Sizes
from 4 up to the spare memory fit at any position (`run_inside_of_spare`), and
those of the card's frames are among them.

## Main definitions

* `TOTAL_RX_BUF_SIZE`: The memory of the ring.
* `Sys`, `Step`, `step`: The driver and its handler, iteration by iteration.
* `position`: Where the next header is read, by the history.
* `handedOn`: The packets handed on, by the history.
* `Inside`: A packet is handed on from inside the memory.
* `Fits`: The condition on an iteration.

## Theorems

* `run_interrupt`: A call of the handler is a run of these steps.
* `run_rxOffset`: The loop reads its headers at `position`.
* `pktSize_iff`: What a size means for the packet.
* `run_inside_iff`: When every packet is handed on from inside.
* `run_inside_of_spare`: Packets that the spare memory is made for.
* `run_outside`: A header of size 0.
-/

namespace KernelModules

namespace Rtl8139

namespace Payload

open Lib

open Receive (ringLen rxOffset_eq rxOffset_le rxIteration_curRx)

variable {α : Type*}

def RX_BUF_PAD : Nat := 16
def RX_BUF_WRAP_PAD : Nat := 2048
def TOTAL_RX_BUF_SIZE : Nat := RX_BUF_LEN.toNat + RX_BUF_PAD + RX_BUF_WRAP_PAD

/-- The driver, and whether its handler is in the receive loop. -/
structure Sys (α : Type*) where
  dev : Dev α
  receiving : Bool

/-- The structure as allocated, before the first open. -/
def Sys.zeroed : Sys α := { dev := Dev.zeroed, receiving := false }

inductive Step (α : Type*) where
  | openDevice
  | startXmit (skb : α) (len : Nat)
  | stop
  | enter (isr : BitVec 16) (tsd : Nat → BitVec 32) (fuel : Nat)
  | iterate (ring : Nat → BitVec 32) (skb : Bool)
  | leave

/-- The handler is entered, makes iterations of its receive loop over the ring
    as the card has left it, and leaves. The other entry points may be called
    at any time. -/
def step : Step α → Sys α → Option (Sys α)
  | .openDevice, s => some { s with dev := rtl8139Open s.dev }
  | .startXmit skb len, s => some { s with dev := rtl8139StartXmit skb len s.dev }
  | .stop, s => some { s with dev := rtl8139Stop s.dev }
  | .enter isr tsd fuel, s =>
    if s.receiving then none
    else (interruptTx isr tsd fuel s.dev).map fun r => { dev := r.2.1, receiving := r.2.2 }
  | .iterate ring skb, s =>
    if s.receiving then some { s with dev := (rxIteration ring skb s.dev).2 } else none
  | .leave, s => if s.receiving then some { s with receiving := false } else none

/-- The address wrap, as a number. -/
def wrapped (offset : Nat) : Nat := if offset > ringLen then offset % ringLen else offset

/-- The offset of the next header, by the headers that were read since the last
    open. -/
def position : History (Sys α) (Step α) → Nat
  | [] | (_, .openDevice) :: _ => 0
  | (_, .iterate ring _) :: h =>
    wrapped ((position h + 4 + (rxSize (ring (position h))).toNat + 3) / 4 * 4)
  | (_, .startXmit _ _) :: h | (_, .stop) :: h | (_, .enter _ _ _) :: h | (_, .leave) :: h =>
    position h

/-- The packets handed on, each with its offset and its size, the last one
    first. -/
def handedOn : History (Sys α) (Step α) → List (Nat × BitVec 16)
  | [] => []
  | (s, .iterate ring skb) :: h => (rxIteration ring skb s.dev).1.toList ++ handedOn h
  | (_, .openDevice) :: h | (_, .startXmit _ _) :: h | (_, .stop) :: h | (_, .enter _ _ _) :: h
  | (_, .leave) :: h => handedOn h

/-- A packet that is handed on has the size in its header less 4, and lies in
    the memory of the ring. -/
def Inside (s : Sys α) : Step α → Prop
  | .iterate ring skb => ∀ p ∈ (rxIteration ring skb s.dev).1,
    p.2.toNat + 4 = (rxSize (ring s.dev.rxOffset)).toNat ∧ p.1 + p.2.toNat ≤ TOTAL_RX_BUF_SIZE
  | _ => True

/-- The size in a header that is read for a buffer is at least 4, and does not
    lead from the position out of the memory. -/
def Fits (h : History (Sys α) (Step α)) : Step α → Prop
  | .iterate ring true =>
    4 ≤ (rxSize (ring (position h))).toNat ∧
      position h + (rxSize (ring (position h))).toNat ≤ TOTAL_RX_BUF_SIZE
  | _ => True

instance (h : History (Sys α) (Step α)) : (l : Step α) → Decidable (Fits h l)
  | .iterate _ true => inferInstanceAs (Decidable (_ ∧ _))
  | .iterate _ false | .openDevice | .startXmit _ _ | .stop | .enter _ _ _ | .leave =>
    .isTrue trivial

variable {init s : Sys α} {h : History (Sys α) (Step α)} {d d' : Dev α}

/-- The receive loop is a run of its iterations. -/
theorem run_iterations (received : List ((Nat → BitVec 32) × Bool)) :
    ∀ (h : History (Sys α) (Step α)) (d : Dev α), Run step init h ⟨d, true⟩ →
      ∃ h', Run step init h'
        ⟨received.foldl (fun d q => (rxIteration q.1 q.2 d).2) d, true⟩ := by
  induction received with
  | nil => intro h d hr; exact ⟨h, hr⟩
  | cons q received ih => intro h d hr; exact ih _ _ (.next (.iterate q.1 q.2) hr rfl)

/-- A call of the handler is a run of these steps. -/
theorem run_interrupt {isr : BitVec 16} {tsd : Nat → BitVec 32} {fuel : Nat}
    {received : List ((Nat → BitVec 32) × Bool)} {rs : List (Int × Option α)}
    (hr : Run step init h ⟨d, false⟩)
    (hcall : rtl8139Interrupt isr tsd fuel received d = some (rs, d')) :
    ∃ h', Run step init h' ⟨d', false⟩ := by
  rcases Option.map_eq_some_iff.mp hcall with ⟨⟨qs, t, receive⟩, htx, heq⟩
  cases heq
  have henter : step (.enter isr tsd fuel) ⟨d, false⟩ = some ⟨t, receive⟩ := by
    simp only [step, Bool.false_eq_true, if_false, htx, Option.map_some]
  have hentered := Run.next _ hr henter
  cases receive with
  | false => exact ⟨_, hentered⟩
  | true =>
      rcases run_iterations received _ t hentered with ⟨h', hr'⟩
      exact ⟨_, .next .leave hr' rfl⟩

/-- The loop reads its headers where the ones before lead. -/
theorem run_rxOffset (hr : Run step Sys.zeroed h s) : s.dev.rxOffset = position h := by
  refine hr.historyInvariant (fun h s => s.dev.rxOffset = position h) rfl ?_
  intro h s l s' _ hs hstep
  cases l with
  | openDevice =>
      cases hstep
      rfl
  | stop =>
      cases hstep
      exact hs
  | startXmit skb len =>
      cases hstep
      rw [position, ← hs, Dev.rxOffset, (startXmit_kept skb len s.dev).1, Dev.rxOffset]
  | enter isr tsd fuel =>
      simp only [step, Option.ite_none_left_eq_some] at hstep
      rcases Option.map_eq_some_iff.mp hstep.2 with ⟨⟨rs, d, receive⟩, hcall, rfl⟩
      rw [position, ← hs, Dev.rxOffset, (interruptTx_kept hcall).2, Dev.rxOffset]
  | iterate ring skb =>
      simp only [step, Option.ite_none_right_eq_some, Option.some.injEq] at hstep
      rcases hstep with ⟨_, rfl⟩
      rw [position, rxOffset_eq, rxIteration_curRx, hs, wrapped]
  | leave =>
      simp only [step, Option.ite_none_right_eq_some, Option.some.injEq] at hstep
      rcases hstep with ⟨_, rfl⟩
      exact hs

/-- A packet has the size in its header less 4 and ends in the memory exactly
    if the size is at least 4 and does not lead out of it. -/
theorem pktSize_iff (size : BitVec 16) (offset total : Nat) :
    (size - 4).toNat + 4 = size.toNat ∧ offset + 4 + (size - 4).toNat ≤ total ↔
      4 ≤ size.toNat ∧ offset + size.toNat ≤ total := by
  by_cases hsize : 4 ≤ size.toNat
  · have hpkt : (size - 4).toNat = size.toNat - 4 := by bv_omega
    rw [hpkt]
    omega
  · -- The difference has wrapped around, and is no smaller than the size.
    refine iff_of_false (fun hinside => hsize ?_) fun hfits => hsize hfits.1
    omega

/-- An iteration at `position` hands on from inside exactly if its header
    fits. -/
theorem inside_iff (hs : s.dev.rxOffset = position h) (l : Step α) : Inside s l ↔ Fits h l := by
  cases l with
  | openDevice => exact Iff.rfl
  | startXmit skb len => exact Iff.rfl
  | stop => exact Iff.rfl
  | enter isr tsd fuel => exact Iff.rfl
  | leave => exact Iff.rfl
  | iterate ring skb =>
      cases skb with
      | false =>
          simp only [Inside, Fits, rxIteration, Bool.false_eq_true, if_false, Option.mem_def,
            reduceCtorEq, false_implies, implies_true]
      | true =>
          simp only [Inside, Fits, rxIteration, if_true, Option.mem_def, Option.some.injEq,
            forall_eq', hs, pktSize_iff]

/-- Packets are handed on from inside the memory in the runs in which the
    headers fit, and in no others. -/
theorem run_inside_iff (hr : Run step Sys.zeroed h s) :
    EveryStep (fun _ => Inside) h ↔ EveryStep (fun h _ => Fits h) h := by
  refine hr.everyStep_iff ?_
  intro h s l _ hr _
  exact inside_iff (run_rxOffset hr) l

/-- A size of at least 4 that the spare memory is made for fits wherever the
    loop gets to. -/
theorem run_inside_of_spare (hr : Run step Sys.zeroed h s) (ring : Nat → BitVec 32) (skb : Bool)
    (hmin : 4 ≤ (rxSize (ring (position h))).toNat)
    (hmax : (rxSize (ring (position h))).toNat ≤ RX_BUF_PAD + RX_BUF_WRAP_PAD) :
    Inside s (.iterate ring skb) := by
  have hposition := run_rxOffset hr
  have hlast := rxOffset_le s.dev
  have hlen : RX_BUF_LEN.toNat = ringLen := by decide
  rw [inside_iff hposition]
  cases skb with
  | false => exact trivial
  | true =>
      refine ⟨hmin, ?_⟩
      rw [TOTAL_RX_BUF_SIZE, hlen]
      omega

/-- An iteration over a ring that has the header of a packet of this size
    wherever it is read. -/
def readSize (rxSize : Nat) : Step Nat :=
  .iterate (fun _ => BitVec.ofNat 32 (rxSize * 65536 + 1)) true

/-- Two frames, the second one behind the first. -/
theorem run_inside_two : ∃ (h : History (Sys Nat) (Step Nat)) (s : Sys Nat),
    Run step Sys.zeroed h s ∧ handedOn h = [(72, 1514), (4, 60)] ∧
      EveryStep (fun _ => Inside) h := by
  rcases exists_run_of_exec step (Sys.zeroed : Sys Nat)
    [.openDevice, .enter RxOK (fun _ => 0) 0, readSize 64, readSize 1518, .leave]
    (fun h _ => EveryStep (fun h _ => Fits h) h ∧ handedOn h = [(72, 1514), (4, 60)])
    (by decide) with ⟨h, s, hr, hp⟩
  rcases of_decide_eq_true hp with ⟨hfits, hhanded⟩
  exact ⟨h, s, hr, hhanded, (run_inside_iff hr).mpr hfits⟩

/-- From a header of size 0 the loop hands on 65532 bytes, more than the memory
    has. -/
theorem run_outside : ∃ (h : History (Sys Nat) (Step Nat)) (s : Sys Nat),
    Run step Sys.zeroed h s ∧ handedOn h = [(4, 65532)] ∧ TOTAL_RX_BUF_SIZE = 34832 ∧
      ¬ EveryStep (fun _ => Inside) h := by
  rcases exists_run_of_exec step (Sys.zeroed : Sys Nat)
    [.openDevice, .enter RxOK (fun _ => 0) 0, readSize 0, .leave]
    (fun h _ => ¬ EveryStep (fun h _ => Fits h) h ∧ handedOn h = [(4, 65532)])
    (by decide) with ⟨h, s, hr, hp⟩
  rcases of_decide_eq_true hp with ⟨hfits, hhanded⟩
  exact ⟨h, s, hr, hhanded, rfl, fun hall => hfits ((run_inside_iff hr).mp hall)⟩

end Payload

end Rtl8139

end KernelModules
