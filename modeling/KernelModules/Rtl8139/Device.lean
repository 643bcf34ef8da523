import KernelModules.Lib.Ring

/-!
# The Driver of the RTL8139 Card

The private structure of the RTL8139 driver and the functions of its second
phase that use it: the interrupt handler, `start_xmit`, and open and stop. The
queue of the network stack is the one flag that the driver stops and wakes.

The source leaves some statements to the reader and says in a comment what
they do. Of these the model has `cur_tx` pointing to the next descriptor, the
packet copied to the buffer of its descriptor, and the queue started by open
and stopped by stop. The statistics that elided statements keep are left out.

What the handler reads from the card is an argument: the interrupt status, the
answers of the TSD registers, and the words in the receive ring. A register
may give another answer each time, so the answers come in the order of the
reads. The reclaim loop runs on fuel, one unit an iteration, and is `none` if
it would go on.

## Main definitions

* `Stats`, `Dev`: The private structure and the queue.
* `Concluded`, `reclaimOne`, `reclaimLoop`: The loop over concluded
  transmissions.
* `rxWrap`, `Dev.rxOffset`, `rxIteration`: The loop over received packets.
* `interruptTx`, `rtl8139Interrupt`: The handler.
* `rtl8139StartXmit`, `rtl8139Open`, `rtl8139Stop`: The other entry points.

## Theorems

* `reclaimOne_concluded`, `reclaimOne_waits`, `reclaimOne_passes`: What an
  iteration does.
* `reclaimLoop_succ`: How the loop goes on.
* `reclaimLoop_kept`, `interruptTx_kept`: What the transmit part leaves alone.
* `rtl8139Interrupt_tx`: What an interrupt is to the transmit side.
* `startXmit_accepts`: What becomes of a packet that is not too long.
* `startXmit_kept`: What `start_xmit` leaves alone.
-/

namespace KernelModules

namespace Rtl8139

open Lib

def MAX_ETH_FRAME_SIZE : Nat := 1536
def TX_BUF_SIZE : Nat := MAX_ETH_FRAME_SIZE
def NUM_TX_DESC : Nat := 4

def RX_BUF_LEN_IDX : Nat := 2
def RX_BUF_LEN : BitVec 32 := 8192 <<< RX_BUF_LEN_IDX

def TxUnderrun : BitVec 32 := 0x4000
def TxStatOK : BitVec 32 := 0x8000
def TxOutOfWindow : BitVec 32 := 0x20000000
def TxAborted : BitVec 32 := 0x40000000
def TxCarrierLost : BitVec 32 := 0x80000000

def RxOK : BitVec 16 := 0x01
def RxErr : BitVec 16 := 0x02
def TxOK : BitVec 16 := 0x04
def TxErr : BitVec 16 := 0x08
def RxOverFlow : BitVec 16 := 0x10
def RxUnderrun : BitVec 16 := 0x20
def RxFIFOOver : BitVec 16 := 0x40
def CableLen : BitVec 16 := 0x2000
def TimeOut : BitVec 16 := 0x4000
def SysErr : BitVec 16 := 0x8000

def INT_MASK : BitVec 16 :=
  RxOK ||| RxErr ||| TxOK ||| TxErr ||| RxOverFlow ||| RxUnderrun ||| RxFIFOOver ||| CableLen |||
    TimeOut ||| SysErr

/-- The counters of `net_device_stats` that the source keeps in the open. They
    are `unsigned long` there, and none of them is taken to wrap. -/
structure Stats where
  collisions : Nat
  txAbortedErrors : Nat
  txFifoErrors : Nat
  txWindowErrors : Nat
  txCarrierErrors : Nat
  multicast : Nat
  rxLengthErrors : Nat
  rxCrcErrors : Nat
  rxFrameErrors : Nat

def Stats.zero : Stats :=
  { collisions := 0, txAbortedErrors := 0, txFifoErrors := 0, txWindowErrors := 0,
    txCarrierErrors := 0, multicast := 0, rxLengthErrors := 0, rxCrcErrors := 0,
    rxFrameErrors := 0 }

/-- The private structure, and whether the queue is stopped. A transmit buffer
    holds the packet last copied to it. -/
structure Dev (α : Type*) where
  curTx : Nat
  dirtyTx : Nat
  txBuf : Int → Option α
  curRx : BitVec 32
  stats : Stats
  queueStopped : Bool

variable {α : Type*}

/-- The structure as allocated. -/
def Dev.zeroed : Dev α :=
  { curTx := 0, dirtyTx := 0, txBuf := fun _ => none, curRx := 0, stats := Stats.zero,
    queueStopped := false }

/-- The packet in the buffer of a descriptor. -/
def Dev.slot (d : Dev α) (i : Int) : Int × Option α := (i, d.txBuf i)

/-- The counters of a transmission that failed. -/
def Stats.txError (txstatus : BitVec 32) (st : Stats) : Stats :=
  { st with
    txAbortedErrors := st.txAbortedErrors + if txstatus &&& TxAborted ≠ 0 then 1 else 0
    txFifoErrors := st.txFifoErrors + if txstatus &&& TxUnderrun ≠ 0 then 1 else 0
    -- The source multiplies in these two, where the others mask.
    txWindowErrors := st.txWindowErrors + if txstatus * TxOutOfWindow ≠ 0 then 1 else 0
    txCarrierErrors := st.txCarrierErrors + if txstatus * TxCarrierLost ≠ 0 then 1 else 0 }

/-- A status with which a descriptor is reclaimed. -/
def Concluded (txstatus : BitVec 32) : Prop :=
  txstatus &&& (TxStatOK ||| TxAborted ||| TxUnderrun) ≠ 0

instance (txstatus : BitVec 32) : Decidable (Concluded txstatus) :=
  inferInstanceAs (Decidable (_ ≠ _))

/-- The body of the reclaim loop, and whether it gets to its end. -/
def reclaimOne (txstatus : BitVec 32) (d : Dev α) : Bool × Dev α :=
  let stats :=
    { d.stats with collisions := d.stats.collisions + (txstatus >>> 24 &&& 0xF).toNat }
  -- The packet is still with the card.
  if txstatus &&& (TxStatOK ||| TxAborted ||| TxUnderrun) = 0 then
    (false, { d with stats := stats })
  else
    let d' := { d with
      stats := if txstatus &&& TxStatOK ≠ 0 then stats else stats.txError txstatus
      dirtyTx := (d.dirtyTx + 1) % NUM_TX_DESC }
    (true,
      if d'.dirtyTx = d'.curTx ∧ d'.queueStopped then { d' with queueStopped := false } else d')

/-- The guard of the reclaim loop. -/
def Dev.Unreclaimed (d : Dev α) : Prop := d.dirtyTx ≠ d.curTx ∨ d.queueStopped = true

instance (d : Dev α) : Decidable d.Unreclaimed := inferInstanceAs (Decidable (_ ∨ _))

/-- The reclaim loop from its iteration `i` on: the descriptors it goes past,
    each with its packet, and the device. -/
def reclaimLoop (tsd : Nat → BitVec 32) :
    (fuel i : Nat) → Dev α → Option (List (Int × Option α) × Dev α)
  | 0, _, d => if d.Unreclaimed then none else some ([], d)
  | fuel + 1, i, d =>
    if d.Unreclaimed then
      let r := reclaimOne (tsd i) d
      if r.1 then
        (reclaimLoop tsd fuel (i + 1) r.2).map fun q => (d.slot d.dirtyTx :: q.1, q.2)
      else some ([], r.2)
    else some ([], d)

/-- The interrupts for which the handler gets to its reclaim loop. -/
def Reclaims (isr : BitVec 16) : Prop :=
  isr &&& INT_MASK ≠ 0 ∧ isr ≠ 0xFFFF ∧ (isr &&& TxOK ≠ 0 ∨ isr &&& TxErr ≠ 0)

instance (isr : BitVec 16) : Decidable (Reclaims isr) :=
  inferInstanceAs (Decidable (_ ∧ _ ∧ (_ ∨ _)))

/-- The handler up to its receive part: what it reclaims, the device, and
    whether it goes on to receive. -/
def interruptTx (isr : BitVec 16) (tsd : Nat → BitVec 32) (fuel : Nat) (d : Dev α) :
    Option (List (Int × Option α) × Dev α × Bool) :=
  if isr &&& INT_MASK = 0 then some ([], d, false)
  -- The hardware is gone.
  else if isr = 0xFFFF then some ([], d, false)
  else
    (if isr &&& TxOK ≠ 0 ∨ isr &&& TxErr ≠ 0 then reclaimLoop tsd fuel 0 d
      else some ([], d)).map fun r => (r.1, r.2, decide (isr &&& RxOK ≠ 0))

/-- The address wrap at the head of the receive loop. -/
def rxWrap (curRx : BitVec 32) : BitVec 32 :=
  if curRx > RX_BUF_LEN then curRx % RX_BUF_LEN else curRx

/-- The offset at which the loop reads the next packet header. -/
def Dev.rxOffset (d : Dev α) : Nat := (rxWrap d.curRx).toNat

/-- `rx_size`, in the upper half of a packet header. -/
def rxSize (rxStatus : BitVec 32) : BitVec 16 := (rxStatus >>> 16).setWidth 16

/-- The counters of a packet that is dropped. -/
def Stats.rxDropped (rxStatus : BitVec 32) (st : Stats) : Stats :=
  { st with
    multicast := st.multicast + if rxStatus &&& (1 <<< 15) ≠ 0 then 1 else 0
    rxLengthErrors :=
      st.rxLengthErrors + if rxStatus &&& (1 <<< 4 ||| 1 <<< 3) ≠ 0 then 1 else 0
    rxCrcErrors := st.rxCrcErrors + if rxStatus &&& (1 <<< 2) ≠ 0 then 1 else 0
    rxFrameErrors := st.rxFrameErrors + if rxStatus &&& (1 <<< 1) ≠ 0 then 1 else 0 }

/-- The body of the receive loop over the words of the ring, by byte offset,
    with a buffer for the packet or without: what it hands to the stack, as an
    offset in the ring and a length, and the device. -/
def rxIteration (ring : Nat → BitVec 32) (skb : Bool) (d : Dev α) :
    Option (Nat × BitVec 16) × Dev α :=
  let rxStatus := ring d.rxOffset
  let pktSize := rxSize rxStatus - 4
  (if skb then some (d.rxOffset + 4, pktSize) else none,
    { d with
      stats := if skb then d.stats else d.stats.rxDropped rxStatus
      curRx := (rxWrap d.curRx + (rxSize rxStatus).setWidth 32 + 4 + 3) &&& ~~~3 })

/-- The interrupt handler. The receive loop makes an iteration for each time
    that it finds the ring not empty, with the ring as it is then. -/
def rtl8139Interrupt (isr : BitVec 16) (tsd : Nat → BitVec 32) (fuel : Nat)
    (received : List ((Nat → BitVec 32) × Bool)) (d : Dev α) :
    Option (List (Int × Option α) × Dev α) :=
  (interruptTx isr tsd fuel d).map fun r =>
    (r.1, if r.2.2 then received.foldl (fun d q => (rxIteration q.1 q.2 d).2) r.2.1 else r.2.1)

/-- The descriptor that `start_xmit` uses. -/
def Dev.entry (d : Dev α) : Nat := d.curTx % NUM_TX_DESC

/-- `start_xmit` of a packet of `len` bytes. -/
def rtl8139StartXmit (skb : α) (len : Nat) (d : Dev α) : Dev α :=
  if len < TX_BUF_SIZE then
    let d' := { d with
      txBuf := Function.update d.txBuf d.entry (some skb)
      curTx := (d.curTx + 1) % NUM_TX_DESC }
    if d'.curTx = d'.dirtyTx then { d' with queueStopped := true } else d'
  -- An oversized packet is dropped.
  else d

/-- `rtl8139_open`, which starts with fresh buffers and ends by starting the
    queue. -/
def rtl8139Open (d : Dev α) : Dev α :=
  { d with curRx := 0, dirtyTx := 0, txBuf := fun _ => none, queueStopped := false }

/-- `rtl8139_stop`, as far as the structure goes. -/
def rtl8139Stop (d : Dev α) : Dev α := { d with queueStopped := true }

section Frame

variable {tsd : Nat → BitVec 32} {d d' : Dev α} {rs : List (Int × Option α)}

/-- Whether the loop goes past a descriptor is a matter of the status. -/
theorem reclaimOne_concluded (txstatus : BitVec 32) (d : Dev α) :
    (reclaimOne txstatus d).1 = true ↔ Concluded txstatus := by
  unfold reclaimOne Concluded
  by_cases hwaits : txstatus &&& (TxStatOK ||| TxAborted ||| TxUnderrun) = 0
  · rw [if_pos hwaits]
    exact iff_of_false Bool.false_ne_true fun hne => hne hwaits
  · rw [if_neg hwaits]
    exact iff_of_true rfl hwaits

/-- A packet that the card still has stays where it is. -/
theorem reclaimOne_waits {txstatus : BitVec 32} (h : (reclaimOne txstatus d).1 = false) :
    (reclaimOne txstatus d).2.dirtyTx = d.dirtyTx ∧
      (reclaimOne txstatus d).2.queueStopped = d.queueStopped := by
  unfold reclaimOne at h ⊢
  split at h
  · rename_i hwaits
    rw [if_pos hwaits]
    exact ⟨rfl, rfl⟩
  · simp only [Bool.true_eq_false] at h

/-- A descriptor is passed, and the last one wakes the queue. -/
theorem reclaimOne_passes {txstatus : BitVec 32} (h : (reclaimOne txstatus d).1 = true) :
    (reclaimOne txstatus d).2.dirtyTx = (d.dirtyTx + 1) % NUM_TX_DESC ∧
      ((reclaimOne txstatus d).2.queueStopped = true ↔
        d.queueStopped = true ∧ (d.dirtyTx + 1) % NUM_TX_DESC ≠ d.curTx) := by
  unfold reclaimOne at h ⊢
  split at h
  · simp only [Bool.false_eq_true] at h
  · rename_i hpasses
    rw [if_neg hpasses]
    simp only
    split
    · rename_i hwake
      exact ⟨rfl, iff_of_false (fun h => Bool.noConfusion h) fun h => h.2 hwake.1⟩
    · rename_i hsleep
      exact ⟨rfl, ⟨fun hq => ⟨hq, fun heq => hsleep ⟨heq, hq⟩⟩, fun h => h.1⟩⟩

/-- The loop leaves alone `cur_tx`, the packets and the receive ring. -/
theorem reclaimOne_kept (txstatus : BitVec 32) (d : Dev α) :
    (reclaimOne txstatus d).2.curTx = d.curTx ∧ (reclaimOne txstatus d).2.txBuf = d.txBuf ∧
      (reclaimOne txstatus d).2.curRx = d.curRx := by
  unfold reclaimOne
  split
  · exact ⟨rfl, rfl, rfl⟩
  · simp only
    split <;> exact ⟨rfl, rfl, rfl⟩

/-- What the loop does next: nothing more, or it stops at a packet that the card
    still has, or it goes past one. -/
theorem reclaimLoop_succ {fuel i : Nat} (h : reclaimLoop tsd (fuel + 1) i d = some (rs, d')) :
    (rs = [] ∧ d' = d) ∨
    ((reclaimOne (tsd i) d).1 = false ∧ rs = [] ∧ d' = (reclaimOne (tsd i) d).2) ∨
    (d.Unreclaimed ∧ (reclaimOne (tsd i) d).1 = true ∧ ∃ qs, rs = d.slot d.dirtyTx :: qs ∧
      reclaimLoop tsd fuel (i + 1) (reclaimOne (tsd i) d).2 = some (qs, d')) := by
  rw [reclaimLoop] at h
  split at h
  · rename_i hguard
    simp only at h
    split at h
    · rename_i hpasses
      rcases Option.map_eq_some_iff.mp h with ⟨⟨qs, q⟩, hq, heq⟩
      cases heq
      exact .inr (.inr ⟨hguard, hpasses, qs, rfl, hq⟩)
    · rename_i hwaits
      cases h
      exact .inr (.inl ⟨Bool.eq_false_iff.mpr hwaits, rfl, rfl⟩)
  · cases h
    exact .inl ⟨rfl, rfl⟩

/-- Nothing is left to the loop when it gets to its end without fuel. -/
theorem reclaimLoop_zero {i : Nat} (h : reclaimLoop tsd 0 i d = some (rs, d')) :
    rs = [] ∧ d' = d := by
  rw [reclaimLoop] at h
  split at h <;> cases h
  exact ⟨rfl, rfl⟩

/-- Nothing happens in a loop whose guard does not hold. -/
theorem reclaimLoop_done (tsd : Nat → BitVec 32) (fuel i : Nat) (hguard : ¬ d.Unreclaimed) :
    reclaimLoop tsd fuel i d = some ([], d) := by
  cases fuel <;> rw [reclaimLoop, if_neg hguard]

theorem reclaimLoop_kept (fuel : Nat) : ∀ (i : Nat) (d : Dev α),
    reclaimLoop tsd fuel i d = some (rs, d') → d'.curTx = d.curTx ∧ d'.curRx = d.curRx := by
  -- Every iteration starts from another device.
  induction fuel generalizing rs with
  | zero =>
      intro i d h
      rcases reclaimLoop_zero h with ⟨_, rfl⟩
      exact ⟨rfl, rfl⟩
  | succ fuel ih =>
      intro i d h
      rcases reclaimOne_kept (tsd i) d with ⟨hcur, _, hrx⟩
      rcases reclaimLoop_succ h with ⟨_, rfl⟩ | ⟨_, _, rfl⟩ | ⟨_, _, qs, _, hq⟩
      · exact ⟨rfl, rfl⟩
      · exact ⟨hcur, hrx⟩
      · rcases ih (i + 1) _ hq with ⟨hcur', hrx'⟩
        exact ⟨hcur'.trans hcur, hrx'.trans hrx⟩

/-- The transmit part of the handler is nothing or the loop. -/
theorem interruptTx_cases {isr : BitVec 16} {fuel : Nat} {receive : Bool}
    (h : interruptTx isr tsd fuel d = some (rs, d', receive)) :
    (rs = [] ∧ d' = d) ∨ (Reclaims isr ∧ reclaimLoop tsd fuel 0 d = some (rs, d')) := by
  unfold interruptTx at h
  split at h
  · cases h
    exact .inl ⟨rfl, rfl⟩
  · rename_i hknown
    split at h
    · cases h
      exact .inl ⟨rfl, rfl⟩
    · rename_i hpresent
      rcases Option.map_eq_some_iff.mp h with ⟨⟨qs, q⟩, hq, heq⟩
      cases heq
      split at hq
      · rename_i htype
        exact .inr ⟨⟨hknown, hpresent, htype⟩, hq⟩
      · cases hq
        exact .inl ⟨rfl, rfl⟩

theorem interruptTx_kept {isr : BitVec 16} {fuel : Nat} {receive : Bool}
    (h : interruptTx isr tsd fuel d = some (rs, d', receive)) :
    d'.curTx = d.curTx ∧ d'.curRx = d.curRx := by
  rcases interruptTx_cases h with ⟨_, rfl⟩ | ⟨_, h⟩
  · exact ⟨rfl, rfl⟩
  · exact reclaimLoop_kept fuel 0 d h

/-- The receive loop leaves the transmit side alone. -/
structure Dev.SameTx (d d' : Dev α) : Prop where
  curTx : d'.curTx = d.curTx
  dirtyTx : d'.dirtyTx = d.dirtyTx
  txBuf : d'.txBuf = d.txBuf
  queueStopped : d'.queueStopped = d.queueStopped

theorem rxIterations_sameTx (received : List ((Nat → BitVec 32) × Bool)) : ∀ d : Dev α,
    d.SameTx (received.foldl (fun d q => (rxIteration q.1 q.2 d).2) d) := by
  induction received with
  | nil => intro d; exact ⟨rfl, rfl, rfl, rfl⟩
  | cons q received ih =>
      intro d
      rcases ih (rxIteration q.1 q.2 d).2 with ⟨hcur, hdirty, hbuf, hqueue⟩
      exact ⟨hcur, hdirty, hbuf, hqueue⟩

/-- An interrupt is its transmit part, as far as the transmit side goes. -/
theorem rtl8139Interrupt_tx {isr : BitVec 16} {fuel : Nat}
    {received : List ((Nat → BitVec 32) × Bool)}
    (h : rtl8139Interrupt isr tsd fuel received d = some (rs, d')) :
    ∃ t receive, interruptTx isr tsd fuel d = some (rs, t, receive) ∧ t.SameTx d' := by
  rcases Option.map_eq_some_iff.mp h with ⟨⟨qs, t, receive⟩, hq, heq⟩
  cases heq
  refine ⟨t, receive, hq, ?_⟩
  split
  · exact rxIterations_sameTx received t
  · exact ⟨rfl, rfl, rfl, rfl⟩

/-- A packet that is not too long gets the next descriptor, and stops the queue
    if that was the last one. -/
theorem startXmit_accepts (skb : α) {len : Nat} (d : Dev α) (hlen : len < TX_BUF_SIZE) :
    (rtl8139StartXmit skb len d).curTx = (d.curTx + 1) % NUM_TX_DESC ∧
      (rtl8139StartXmit skb len d).dirtyTx = d.dirtyTx ∧
      (rtl8139StartXmit skb len d).txBuf = Function.update d.txBuf d.entry (some skb) ∧
      ((rtl8139StartXmit skb len d).queueStopped = true ↔
        d.queueStopped = true ∨ (d.curTx + 1) % NUM_TX_DESC = d.dirtyTx) := by
  simp only [rtl8139StartXmit, if_pos hlen]
  split
  · rename_i hfull
    exact ⟨rfl, rfl, rfl, iff_of_true rfl (.inr hfull)⟩
  · rename_i hroom
    exact ⟨rfl, rfl, rfl, (or_iff_left hroom).symm⟩

/-- `start_xmit` leaves alone the receive ring and the counters. -/
theorem startXmit_kept (skb : α) (len : Nat) (d : Dev α) :
    (rtl8139StartXmit skb len d).curRx = d.curRx ∧
      (rtl8139StartXmit skb len d).stats = d.stats := by
  unfold rtl8139StartXmit
  split
  · simp only
    split <;> exact ⟨rfl, rfl⟩
  · exact ⟨rfl, rfl⟩

end Frame

end Rtl8139

end KernelModules
