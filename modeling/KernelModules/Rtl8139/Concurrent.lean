import KernelModules.Rtl8139.Transmit

/-!
# Transmitting While an Interrupt is Handled

`start_xmit` and the interrupt handler statement by statement, on processors
of their own. The stack has one call of `start_xmit` going at a time, and the
handler runs once at a time. They share the two indices and the queue of the
stack. `start_xmit` holds the spin lock with interrupts off while it hands its
packet to the card, but the handler, as far as it is written, does not take
the lock, so that on another processor its statements may come between.

Both sides compare the indices and then act on what they saw, the one to stop
the queue of a full ring, the other to wake that of an empty one. In between
the other side may have been through the ring. Then a queue is stopped that
nothing will wake, since the card has no packet any more, or one is woken
while the card has all four descriptors, and the next packet overwrites one
that is still to be sent. These are the only two things that can go wrong
(`run_txLaw_iff`), and neither does while the lock keeps the handler out, as
it does on one processor (`run_txLaw_of_exclusive`).

Every read and every write of something shared is a statement of its own. The
answers of the card come with the labels.

## Main definitions

* `Xmit`, `Handler`: The next statement of the call and of the handler.
* `xmitStmt`, `handlerStmt`, `Sys`, `Step`, `step`: The statements.
* `event`, `accepted`, `reclaimed`, `outstanding`: What the history says.
* `concluded`: How many answers of the card have concluded a transmission.
* `Xmit.next`: The descriptor that the next packet will be written to.
* `TxLaw`: The law of the descriptors.
* `Timely`: No queue is stopped or woken too late.
* `Exclusive`: The handler is kept out of the locked statements.
* `RingInv`, `XmitInv`, `HandlerInv`: The ring, and what each side knows of it.
* `Apart`: What each side knows while the lock keeps the other out.
* `Reaches`: An exclusive run, by the packets that went through it.

## Theorems

* `step_xmit_inv`, `step_handler_inv`: What a statement keeps.
* `step_answered`: A packet is reclaimed for each answer that concludes.
* `run_txLaw_iff`: The law holds exactly in the runs that are timely.
* `run_stuck`, `run_overwritten`: The two ways to break the law.
* `step_apart`: What a statement keeps of what the sides know.
* `run_timely_of_exclusive`, `run_txLaw_of_exclusive`: The lock is enough.
* `Reaches.startXmit`, `Reaches.interrupt`: Either side alone.
* `run_expanded`: Whole calls and interrupts are runs of their statements.
-/

namespace KernelModules

namespace Rtl8139

open Lib

variable {α : Type*}

namespace Concurrent

/-- The next statement of `start_xmit`. -/
inductive Xmit (α : Type*) where
  | idle
  | entry (skb : α) (len : Nat)
  | copy (skb : α) (len entry : Nat)
  | lock (entry : Nat)
  | writeTsd (entry : Nat)
  | advance
  | test
  | stop
  | unlock
  deriving DecidableEq

/-- The next statement of the handler. -/
inductive Handler where
  | idle
  | enter
  | guardCur
  | guardStopped
  | readTsd
  | advance
  | testCur
  | testStopped (same : Bool)
  | wake
  | receive
  deriving DecidableEq

/-- The device, the two sides, and the status that the handler has read. -/
structure Sys (α : Type*) where
  dev : Dev α
  xmit : Xmit α
  handler : Handler
  isr : BitVec 16

/-- The device while neither side is at work. -/
def Sys.rest (d : Dev α) : Sys α := { dev := d, xmit := .idle, handler := .idle, isr := 0 }

inductive Step (α : Type*) where
  | startXmit (skb : α) (len : Nat)
  | xmit
  | interrupt (isr : BitVec 16)
  | handler (txstatus : BitVec 32) (received : List ((Nat → BitVec 32) × Bool))

/-- A statement of `start_xmit`. -/
def xmitStmt : Xmit α → Dev α → Option (Dev α × Xmit α)
  | .idle, _ => none
  -- `entry = (priv->cur_tx) % NUM_TX_DESC;`
  | .entry skb len, d => some (d, .copy skb len d.entry)
  | .copy skb len i, d =>
    if len < TX_BUF_SIZE then
      some ({ d with txBuf := Function.update d.txBuf i (some skb) }, .lock i)
    -- An oversized packet is dropped.
    else some (d, .idle)
  -- `spin_lock_irqsave`, which nobody else takes
  | .lock i, d => some (d, .writeTsd i)
  | .writeTsd _, d => some (d, .advance)
  | .advance, d => some ({ d with curTx := (d.curTx + 1) % NUM_TX_DESC }, .test)
  -- `if(priv->cur_tx == priv->dirty_tx)`
  | .test, d => some (d, if d.curTx = d.dirtyTx then .stop else .unlock)
  | .stop, d => some ({ d with queueStopped := true }, .unlock)
  | .unlock, d => some (d, .idle)

/-- A statement of the handler, with an answer of a TSD register and what the
    receive loop finds. -/
def handlerStmt (isr : BitVec 16) (txstatus : BitVec 32)
    (received : List ((Nat → BitVec 32) × Bool)) : Handler → Dev α → Option (Dev α × Handler)
  | .idle, _ => none
  | .enter, d =>
    some (d,
      if isr &&& INT_MASK = 0 then .idle
      else if isr = 0xFFFF then .idle
      else if isr &&& TxOK ≠ 0 ∨ isr &&& TxErr ≠ 0 then .guardCur
      else .receive)
  -- `while((priv->dirty_tx != priv->cur_tx) || netif_queue_stopped(netdev))`
  | .guardCur, d => some (d, if d.dirtyTx ≠ d.curTx then .readTsd else .guardStopped)
  | .guardStopped, d => some (d, if d.queueStopped then .readTsd else .receive)
  | .readTsd, d =>
    let stats :=
      { d.stats with collisions := d.stats.collisions + (txstatus >>> 24 &&& 0xF).toNat }
    if txstatus &&& (TxStatOK ||| TxAborted ||| TxUnderrun) = 0 then
      some ({ d with stats := stats }, .receive)
    else
      some ({ d with
        stats := if txstatus &&& TxStatOK ≠ 0 then stats else stats.txError txstatus }, .advance)
  | .advance, d => some ({ d with dirtyTx := (d.dirtyTx + 1) % NUM_TX_DESC }, .testCur)
  -- `if((priv->dirty_tx == priv->cur_tx) & netif_queue_stopped(netdev))`
  | .testCur, d => some (d, .testStopped (d.dirtyTx = d.curTx))
  | .testStopped same, d => some (d, if same && d.queueStopped then .wake else .guardCur)
  | .wake, d => some ({ d with queueStopped := false }, .guardCur)
  | .receive, d =>
    some (if isr &&& RxOK ≠ 0 then received.foldl (fun d q => (rxIteration q.1 q.2 d).2) d else d,
      .idle)

/-- The stack calls `start_xmit` while the queue runs. -/
def step : Step α → Sys α → Option (Sys α)
  | .startXmit skb len, s =>
    match s.xmit with
    | .idle => if s.dev.queueStopped then none else some { s with xmit := .entry skb len }
    | _ => none
  | .xmit, s => (xmitStmt s.xmit s.dev).map fun r => { s with dev := r.1, xmit := r.2 }
  | .interrupt isr, s =>
    match s.handler with
    | .idle => some { s with handler := .enter, isr := isr }
    | _ => none
  | .handler txstatus received, s =>
    (handlerStmt s.isr txstatus received s.handler s.dev).map fun r =>
      { s with dev := r.1, handler := r.2 }

/-- A packet goes to the card with the write of its size, as it lies in its
    buffer then, and comes back when `dirty_tx` passes it. -/
def event : Sys α × Step α → Option (Fifo.Event (Int × Option α))
  | (s, .xmit) =>
    match s.xmit with
    | .writeTsd i => some (.put [s.dev.slot i])
    | _ => none
  | (s, .handler _ _) =>
    match s.handler with
    | .advance => some (.get [s.dev.slot s.dev.dirtyTx])
    | _ => none
  | _ => none

/-- The history of a run as the queue of packets sees it. -/
def events (h : History (Sys α) (Step α)) : List (Fifo.Event (Int × Option α)) := h.filterMap event

/-- The packets handed to the card so far, each with its descriptor. -/
def accepted (h : History (Sys α) (Step α)) : List (Int × Option α) := Fifo.accepted (events h)

/-- The packets reclaimed so far. -/
def reclaimed (h : History (Sys α) (Step α)) : List (Int × Option α) := Fifo.returned (events h)

/-- The packets accepted after those that were reclaimed. -/
def outstanding (h : History (Sys α) (Step α)) : List (Int × Option α) :=
  (accepted h).drop (reclaimed h).length

/-- How many answers of the TSD registers have concluded a transmission. -/
def concluded : History (Sys α) (Step α) → Nat
  | [] => 0
  | (s, .handler txstatus _) :: h =>
    if s.handler = .readTsd ∧ Concluded txstatus then concluded h + 1 else concluded h
  | (_, .startXmit _ _) :: h | (_, .xmit) :: h | (_, .interrupt _) :: h => concluded h

/-- The descriptor of the next packet that goes to the card: the one that the
    call in progress has chosen, or the one that a call may choose now. -/
def Xmit.next (d : Dev α) : Xmit α → Option Nat
  | .idle | .unlock => if d.queueStopped then none else some d.entry
  | .entry _ _ => some d.entry
  | .copy _ _ i | .lock i | .writeTsd i => some i
  | .advance | .test | .stop => none

/-- The handler is about to wake a queue that is stopped. -/
def Handler.Waking : Handler → Prop
  | .testCur | .testStopped true | .wake => True
  | _ => False

instance : (k : Handler) → Decidable k.Waking
  | .testCur | .testStopped true | .wake => .isTrue trivial
  | .idle | .enter | .guardCur | .guardStopped | .readTsd | .advance | .testStopped false
  | .receive => .isFalse not_false

/-- How many answers have concluded without their packet being reclaimed yet. -/
def Handler.owed : Handler → Nat
  | .advance => 1
  | _ => 0

/-- A packet has been reclaimed for each answer that concluded, but for the one
    that the handler is working on. -/
def Answered (h : History (Sys α) (Step α)) (s : Sys α) : Prop :=
  concluded h = (reclaimed h).length + s.handler.owed

/-- The law of the descriptors, for a run that ended in `s` with history `h`. -/
structure TxLaw (h : History (Sys α) (Step α)) (s : Sys α) : Prop where
  /-- Each accepted packet is reclaimed once and in order, as it was handed to
      the card, or is outstanding. -/
  inOrder : accepted h = reclaimed h ++ outstanding h
  bounded : (outstanding h).length ≤ NUM_TX_DESC
  answered : Answered h s
  /-- The descriptor of the next packet is none of those that the card has. -/
  free : ∀ i ∈ s.xmit.next s.dev, ∀ p ∈ outstanding h, p.1 ≠ i
  /-- The card has a packet while the queue is stopped, or it is being woken. -/
  stopped : s.dev.queueStopped = true → outstanding h ≠ [] ∨ s.handler.Waking

/-- A queue is stopped only while there is someone to wake it, and woken only
    while there is a descriptor for a packet. -/
def Timely (h : History (Sys α) (Step α)) (s : Sys α) : Step α → Prop
  | .xmit => s.xmit = .stop → outstanding h ≠ [] ∨ s.handler.Waking
  | .handler _ _ => s.handler = .wake → (outstanding h).length < NUM_TX_DESC
  | _ => True

/-- The statements between `spin_lock_irqsave` and `spin_unlock_irqrestore`. -/
def Xmit.Locked : Xmit α → Prop
  | .writeTsd _ | .advance | .test | .stop | .unlock => True
  | _ => False

/-- The lock is not taken while the handler is at work, and no interrupt is
    handled while it is held. -/
def Exclusive (_ : History (Sys α) (Step α)) (s : Sys α) : Step α → Prop
  | .xmit =>
    match s.xmit with
    | .lock _ => s.handler = .idle
    | _ => True
  | .interrupt _ => ¬ s.xmit.Locked
  | _ => True

instance : (x : Xmit α) → Decidable x.Locked
  | .writeTsd _ | .advance | .test | .stop | .unlock => .isTrue trivial
  | .idle | .entry _ _ | .copy _ _ _ | .lock _ => .isFalse not_false

instance [DecidableEq α] (h : History (Sys α) (Step α)) (s : Sys α) : (l : Step α) →
    Decidable (Timely h s l)
  | .xmit => inferInstanceAs (Decidable (_ → _))
  | .handler _ _ => inferInstanceAs (Decidable (_ → _))
  | .startXmit _ _ | .interrupt _ => .isTrue trivial

instance (h : History (Sys α) (Step α)) (s : Sys α) : (l : Step α) → Decidable (Exclusive h s l)
  | .xmit =>
    match hx : s.xmit with
    | .lock _ => decidable_of_iff (s.handler = .idle) (by simp only [Exclusive, hx])
    | .idle | .entry _ _ | .copy _ _ _ | .writeTsd _ | .advance | .test | .stop | .unlock =>
      .isTrue (by simp only [Exclusive, hx])
  | .interrupt _ => inferInstanceAs (Decidable (¬ _))
  | .startXmit _ _ | .handler _ _ => .isTrue trivial

/-- The call has been through its test, if there is one. -/
def Xmit.Returned : Xmit α → Prop
  | .idle | .unlock => True
  | _ => False

/-- How many packets the card has that `cur_tx` does not count yet. -/
def Xmit.sent : Xmit α → Nat
  | .advance => 1
  | _ => 0

/-- There are `v` packets between the indices, and the card has these and the
    one that is not counted yet. -/
structure RingInv (h : History (Sys α) (Step α)) (d : Dev α) (sent v : Nat) : Prop where
  ok : d.Ok
  lead : (d.dirtyTx + v) % NUM_TX_DESC = d.curTx
  le : v + sent ≤ NUM_TX_DESC
  queue : accepted h = reclaimed h ++ Ring.window NUM_TX_DESC d.slot d.dirtyTx (v + sent)

/-- A call has room for its packet, and goes on only while the queue runs. -/
structure XmitInv (d : Dev α) (x : Xmit α) (v : Nat) : Prop where
  next : ∀ i ∈ x.next d, i = d.curTx ∧ v < NUM_TX_DESC
  running : d.queueStopped = true → x.Returned

/-- The handler works on a packet that the card has, and a queue that is
    stopped will be woken. -/
structure HandlerInv (d : Dev α) (k : Handler) (v : Nat) : Prop where
  working : k = .readTsd ∨ k = .advance → v ≠ 0
  waking : k = .wake → d.queueStopped = true
  stopped : d.queueStopped = true → v ≠ 0 ∨ k.Waking

/-- The handler is about to compare the indices, or has compared them. -/
def Handler.Comparing : Handler → Prop
  | .testCur | .testStopped _ | .wake => True
  | _ => False

/-- A call is about to compare the indices, or is about to stop the queue. -/
def Xmit.Comparing : Xmit α → Prop
  | .test | .stop => True
  | _ => False

/-- While the lock keeps the handler out, neither side sees the ring change
    between its test and what it does about it. -/
structure Apart (h : History (Sys α) (Step α)) (s : Sys α) : Prop where
  locked : s.xmit.Locked → s.handler = .idle
  room : s.handler.Comparing → (outstanding h).length < NUM_TX_DESC
  held : s.xmit.Comparing → outstanding h ≠ []

/-- All three, for the same packets. -/
def Inv (h : History (Sys α) (Step α)) (s : Sys α) : Prop :=
  ∃ v, RingInv h s.dev s.xmit.sent v ∧ XmitInv s.dev s.xmit v ∧ HandlerInv s.dev s.handler v

section Law

variable {h : History (Sys α) (Step α)} {s s' : Sys α} {d : Dev α} {sent v : Nat}

/-- The packets outstanding are those in the ring. -/
theorem RingInv.outstanding_eq (hs : RingInv h d sent v) :
    outstanding h = Ring.window NUM_TX_DESC d.slot d.dirtyTx (v + sent) := by
  rw [outstanding, hs.queue, List.drop_left]

theorem RingInv.length_eq (hs : RingInv h d sent v) : (outstanding h).length = v + sent := by
  rw [hs.outstanding_eq, Ring.window_length]

theorem RingInv.ne_nil_iff (hs : RingInv h d sent v) : outstanding h ≠ [] ↔ v + sent ≠ 0 := by
  rw [← hs.length_eq, ne_eq, ne_eq, List.length_eq_zero_iff]

/-- The packets in the ring lie behind one another, up to `cur_tx`. -/
theorem RingInv.wrap_cur (hs : RingInv h d sent v) :
    Ring.wrap NUM_TX_DESC ((d.dirtyTx : Int) + v) = d.curTx := by
  have hle := hs.le
  rw [← desc_add hs.ok.dirtyTx (by omega), hs.lead]

/-- A slot that `cur_tx` leads to is none of the ring's while there is room. -/
theorem RingInv.free (hs : RingInv h d 0 v) (hv : v < NUM_TX_DESC) :
    ∀ p ∈ outstanding h, p.1 ≠ (d.curTx : Int) := by
  intro p hp
  rw [hs.outstanding_eq] at hp
  rcases List.mem_map.mp hp with ⟨k, hk, rfl⟩
  rw [← hs.wrap_cur]
  exact Ring.wrap_add_ne (List.mem_range.mp hk) (by omega)

/-- A call whose packet is still to be handed over has sent nothing that is not
    counted. -/
theorem Xmit.sent_of_next {x : Xmit α} {i : Nat} (hi : i ∈ x.next d) : x.sent = 0 := by
  cases x with
  | advance => simp only [Xmit.next, Option.mem_def, reduceCtorEq] at hi
  | _ => rfl

/-- A call that has returned, or is about to, has sent nothing that is not
    counted. -/
theorem XmitInv.sent_eq {x : Xmit α} (hs : XmitInv d x v) (hd : d.queueStopped = true) :
    x.sent = 0 := by
  have hreturned := hs.running hd
  cases x with
  | advance => exact hreturned.elim
  | _ => rfl

theorem Inv.bounded (hs : Inv h s) : (outstanding h).length ≤ NUM_TX_DESC := by
  rcases hs with ⟨v, hring, -, -⟩
  rw [hring.length_eq]
  exact hring.le

/-- The invariants give the law. -/
theorem Inv.txLaw (hs : Inv h s) (hanswered : Answered h s) : TxLaw h s := by
  have hbounded := hs.bounded
  rcases hs with ⟨v, hring, hxmit, hhandler⟩
  refine ⟨?_, hbounded, hanswered, ?_, ?_⟩
  · rw [hring.outstanding_eq]
    exact hring.queue
  · intro i hi
    rcases hxmit.next i hi with ⟨rfl, hv⟩
    rw [Xmit.sent_of_next hi] at hring
    exact hring.free hv
  · intro hstopped
    rw [hring.ne_nil_iff, hxmit.sent_eq hstopped]
    exact hhandler.stopped hstopped

end Law

section Ring

variable {h : History (Sys α) (Step α)} {s : Sys α} {l : Step α} {d d' : Dev α} {sent v : Nat}

theorem accepted_none (hev : event (s, l) = none) :
    accepted ((s, l) :: h) = accepted h ∧ reclaimed ((s, l) :: h) = reclaimed h := by
  simp only [accepted, reclaimed, events, List.filterMap_cons_none hev, and_self]

theorem accepted_put {block : List (Int × Option α)} (hev : event (s, l) = some (.put block)) :
    accepted ((s, l) :: h) = accepted h ++ block ∧ reclaimed ((s, l) :: h) = reclaimed h := by
  simp only [accepted, reclaimed, events, List.filterMap_cons_some hev, Fifo.accepted,
    Fifo.returned, and_self]

theorem accepted_get {block : List (Int × Option α)} (hev : event (s, l) = some (.get block)) :
    accepted ((s, l) :: h) = accepted h ∧ reclaimed ((s, l) :: h) = reclaimed h ++ block := by
  simp only [accepted, reclaimed, events, List.filterMap_cons_some hev, Fifo.accepted,
    Fifo.returned, and_self]

/-- A statement that leaves the indices and the buffers alone. -/
theorem RingInv.quiet (hs : RingInv h d sent v) (hev : event (s, l) = none)
    (hcur : d'.curTx = d.curTx) (hdirty : d'.dirtyTx = d.dirtyTx) (hbuf : d'.txBuf = d.txBuf) :
    RingInv ((s, l) :: h) d' sent v := by
  have hslot : d'.slot = d.slot := by
    unfold Dev.slot
    rw [hbuf]
  refine ⟨⟨?_, ?_⟩, ?_, hs.le, ?_⟩
  · rw [hcur]
    exact hs.ok.curTx
  · rw [hdirty]
    exact hs.ok.dirtyTx
  · rw [hcur, hdirty]
    exact hs.lead
  · rw [(accepted_none hev).1, (accepted_none hev).2, hslot, hdirty]
    exact hs.queue

/-- A packet is copied to a buffer that none of the ring's packets is in. -/
theorem RingInv.copy (hs : RingInv h d 0 v) (hv : v < NUM_TX_DESC) (hev : event (s, l) = none)
    (skb : α) :
    RingInv ((s, l) :: h) { d with txBuf := Function.update d.txBuf d.curTx (some skb) } 0 v where
  ok := ⟨hs.ok.curTx, hs.ok.dirtyTx⟩
  lead := hs.lead
  le := hs.le
  queue := by
    rw [(accepted_none hev).1, (accepted_none hev).2, hs.queue]
    congr 1
    refine List.map_congr_left fun k hk => ?_
    have hne : Ring.wrap NUM_TX_DESC ((d.dirtyTx : Int) + k) ≠ d.curTx := by
      rw [← hs.wrap_cur]
      exact Ring.wrap_add_ne (List.mem_range.mp hk) (by omega)
    simp only [Dev.slot, Function.update_of_ne hne]

/-- The packet in the buffer that `cur_tx` leads to goes to the card. -/
theorem RingInv.put (hs : RingInv h d 0 v) (hv : v < NUM_TX_DESC)
    (hev : event (s, l) = some (.put [d.slot d.curTx])) : RingInv ((s, l) :: h) d 1 v where
  ok := hs.ok
  lead := hs.lead
  le := hv
  queue := by
    have hdirty := hs.ok.dirtyTx
    have hfirst : (d.dirtyTx : Int) < NUM_TX_DESC := by omega
    have hadd := Ring.window_add (j := v) (k := 1) d.slot hfirst (by omega)
    have hlast : Ring.window NUM_TX_DESC d.slot (d.curTx : Int) 1 = [d.slot d.curTx] := by
      have hcur := hs.ok.curTx
      rw [Ring.window_succ d.slot (by omega) (by decide), Ring.window_zero]
    rw [hs.wrap_cur, hlast] at hadd
    rw [(accepted_put hev).1, (accepted_put hev).2, hadd, hs.queue, List.append_assoc,
      Nat.add_zero]

/-- The packet that the card has been given is counted. -/
theorem RingInv.count (hs : RingInv h d 1 v) (hev : event (s, l) = none) :
    RingInv ((s, l) :: h) { d with curTx := (d.curTx + 1) % NUM_TX_DESC } 0 (v + 1) where
  ok := ⟨Nat.mod_lt _ (by decide), hs.ok.dirtyTx⟩
  lead := by
    have hlead := hs.lead
    simp only [NUM_TX_DESC] at hlead ⊢
    omega
  le := hs.le
  queue := by
    rw [(accepted_none hev).1, (accepted_none hev).2]
    exact hs.queue

/-- The first packet of the ring is reclaimed. -/
theorem RingInv.get (hs : RingInv h d sent v) (hv : v ≠ 0)
    (hev : event (s, l) = some (.get [d.slot d.dirtyTx])) :
    RingInv ((s, l) :: h) { d with dirtyTx := (d.dirtyTx + 1) % NUM_TX_DESC } sent (v - 1) where
  ok := ⟨hs.ok.curTx, Nat.mod_lt _ (by decide)⟩
  lead := by
    have hlead := hs.lead
    simp only [NUM_TX_DESC] at hlead ⊢
    omega
  le := by
    have hle := hs.le
    omega
  queue := by
    have hdirty := hs.ok.dirtyTx
    have hle := hs.le
    have hnext := desc_add (n := 1) hdirty (by decide)
    rw [Int.natCast_one] at hnext
    have hlt : (d.dirtyTx : Int) < NUM_TX_DESC := by omega
    have hsplit := Ring.window_succ (k := v - 1 + sent) d.slot hlt (by omega)
    have hcount : v - 1 + sent + 1 = v + sent := by omega
    rw [hcount, ← hnext] at hsplit
    rw [(accepted_get hev).1, (accepted_get hev).2, hs.queue, hsplit, List.append_assoc,
      List.singleton_append]
    rfl

end Ring

section Statements

variable {h : History (Sys α) (Step α)} {s s' : Sys α} {d d' : Dev α} {v : Nat}

/-- What a call knows does not depend on the handler's work. -/
theorem XmitInv.of_le {x : Xmit α} {w : Nat} (hs : XmitInv d x v) (hw : w ≤ v)
    (hcur : d'.curTx = d.curTx) (hstopped : d'.queueStopped = d.queueStopped) :
    XmitInv d' x w := by
  have hnext : x.next d' = x.next d := by
    cases x <;> simp only [Xmit.next, Dev.entry, hcur, hstopped]
  refine ⟨fun i hi => ?_, fun hd => ?_⟩
  · rw [hnext] at hi
    rcases hs.next i hi with ⟨heq, hv⟩
    exact ⟨by rw [heq, hcur], Nat.lt_of_le_of_lt hw hv⟩
  · rw [hstopped] at hd
    exact hs.running hd

/-- What the handler knows does not depend on the packets behind. -/
theorem HandlerInv.of_le {k : Handler} {w : Nat} (hs : HandlerInv d k v) (hw : v ≤ w)
    (hstopped : d'.queueStopped = d.queueStopped) : HandlerInv d' k w where
  working := fun hk => by
    have hv := hs.working hk
    omega
  waking := fun hk => by
    rw [hstopped]
    exact hs.waking hk
  stopped := fun hd => by
    rw [hstopped] at hd
    rcases hs.stopped hd with hv | hwaking
    · exact Or.inl (by omega)
    · exact Or.inr hwaking

theorem step_startXmit {skb : α} {len : Nat} (hstep : step (.startXmit skb len) s = some s') :
    s.xmit = .idle ∧ s.dev.queueStopped = false ∧ s' = { s with xmit := .entry skb len } := by
  cases hx : s.xmit <;> simp only [step, hx, reduceCtorEq] at hstep
  rw [Option.ite_none_left_eq_some, Bool.not_eq_true, Option.some.injEq] at hstep
  exact ⟨rfl, hstep.1, hstep.2.symm⟩

theorem step_interrupt {isr : BitVec 16} (hstep : step (.interrupt isr) s = some s') :
    s.handler = .idle ∧ s' = { s with handler := .enter, isr := isr } := by
  cases hk : s.handler <;> simp only [step, hk, reduceCtorEq, Option.some.injEq] at hstep
  exact ⟨rfl, hstep.symm⟩

/-- A statement of a call keeps the invariants, if it does not stop the queue
    too late. -/
theorem step_xmit_inv (hs : Inv h s) (hstep : step .xmit s = some s')
    (htimely : Timely h s .xmit) : Inv ((s, .xmit) :: h) s' := by
  rcases hs with ⟨v, hring, hxmit, hhandler⟩
  rcases Option.map_eq_some_iff.mp hstep with ⟨⟨d, x⟩, hstmt, rfl⟩
  have hev : ∀ y, s.xmit = y → event (s, .xmit) =
      match y with
      | .writeTsd i => some (.put [s.dev.slot i])
      | _ => none := by
    rintro y rfl
    rfl
  have hentry : s.dev.entry = s.dev.curTx := hring.ok.entry
  cases hx : s.xmit with
  | idle => simp only [xmitStmt, hx, reduceCtorEq] at hstmt
  | entry skb len =>
      simp only [xmitStmt, hx, Option.some.injEq, Prod.mk.injEq] at hstmt
      rcases hstmt with ⟨rfl, rfl⟩
      rw [hx] at hring hxmit
      exact ⟨v, hring.quiet (hev _ hx) rfl rfl rfl, ⟨hxmit.next, hxmit.running⟩, hhandler⟩
  | copy skb len i =>
      rw [hx] at hring hxmit
      rcases hxmit.next i rfl with ⟨rfl, hv⟩
      have hruns : ¬ s.dev.queueStopped = true := hxmit.running
      by_cases hlen : len < TX_BUF_SIZE
      · simp only [xmitStmt, hx, if_pos hlen, Option.some.injEq, Prod.mk.injEq] at hstmt
        rcases hstmt with ⟨rfl, rfl⟩
        exact ⟨v, hring.copy hv (hev _ hx) skb, ⟨hxmit.next, hxmit.running⟩,
          hhandler.of_le (Nat.le_refl v) rfl⟩
      · simp only [xmitStmt, hx, if_neg hlen, Option.some.injEq, Prod.mk.injEq] at hstmt
        rcases hstmt with ⟨rfl, rfl⟩
        refine ⟨v, hring.quiet (hev _ hx) rfl rfl rfl, ⟨fun i hi => ?_, fun _ => trivial⟩,
          hhandler⟩
        simp only [Xmit.next, if_neg hruns, Option.mem_def, Option.some.injEq] at hi
        exact ⟨by rw [← hi, hentry], hv⟩
  | lock i =>
      simp only [xmitStmt, hx, Option.some.injEq, Prod.mk.injEq] at hstmt
      rcases hstmt with ⟨rfl, rfl⟩
      rw [hx] at hring hxmit
      exact ⟨v, hring.quiet (hev _ hx) rfl rfl rfl, ⟨hxmit.next, hxmit.running⟩, hhandler⟩
  | writeTsd i =>
      simp only [xmitStmt, hx, Option.some.injEq, Prod.mk.injEq] at hstmt
      rcases hstmt with ⟨rfl, rfl⟩
      rw [hx] at hring hxmit
      rcases hxmit.next i rfl with ⟨rfl, hv⟩
      refine ⟨v, hring.put hv (hev _ hx), ⟨fun i hi => ?_, hxmit.running⟩, hhandler⟩
      simp only [Xmit.next, Option.mem_def, reduceCtorEq] at hi
  | advance =>
      simp only [xmitStmt, hx, Option.some.injEq, Prod.mk.injEq] at hstmt
      rcases hstmt with ⟨rfl, rfl⟩
      rw [hx] at hring hxmit
      refine ⟨v + 1, hring.count (hev _ hx), ⟨fun i hi => ?_, hxmit.running⟩,
        hhandler.of_le (Nat.le_succ v) rfl⟩
      simp only [Xmit.next, Option.mem_def, reduceCtorEq] at hi
  | test =>
      simp only [xmitStmt, hx, Option.some.injEq, Prod.mk.injEq] at hstmt
      rcases hstmt with ⟨rfl, rfl⟩
      rw [hx] at hring hxmit
      have hruns : ¬ s.dev.queueStopped = true := hxmit.running
      have hring' : RingInv ((s, .xmit) :: h) s.dev 0 v := hring.quiet (hev _ hx) rfl rfl rfl
      by_cases hfull : s.dev.curTx = s.dev.dirtyTx
      · rw [if_pos hfull]
        refine ⟨v, hring', ⟨fun i hi => ?_, hxmit.running⟩, hhandler⟩
        simp only [Xmit.next, Option.mem_def, reduceCtorEq] at hi
      · -- The ring is not full where the indices differ.
        have hlead := hring.lead
        have hle := hring.le
        have hdirty := hring.ok.dirtyTx
        have hv : v < NUM_TX_DESC := by
          simp only [NUM_TX_DESC, Xmit.sent] at hlead hle hdirty ⊢
          omega
        rw [if_neg hfull]
        refine ⟨v, hring', ⟨fun i hi => ?_, fun _ => trivial⟩, hhandler⟩
        simp only [Xmit.next, if_neg hruns, Option.mem_def, Option.some.injEq] at hi
        exact ⟨by rw [← hi, hentry], hv⟩
  | stop =>
      simp only [xmitStmt, hx, Option.some.injEq, Prod.mk.injEq] at hstmt
      rcases hstmt with ⟨rfl, rfl⟩
      rw [hx] at hring hxmit
      have hkept := htimely hx
      rw [hring.ne_nil_iff] at hkept
      refine ⟨v, hring.quiet (hev _ hx) rfl rfl rfl, ⟨fun i hi => ?_, fun _ => trivial⟩, ?_⟩
      · simp only [Xmit.next, if_true, Option.mem_def, reduceCtorEq] at hi
      · exact ⟨hhandler.working, fun _ => rfl, fun _ => hkept⟩
  | unlock =>
      simp only [xmitStmt, hx, Option.some.injEq, Prod.mk.injEq] at hstmt
      rcases hstmt with ⟨rfl, rfl⟩
      rw [hx] at hring hxmit
      exact ⟨v, hring.quiet (hev _ hx) rfl rfl rfl, ⟨hxmit.next, fun _ => trivial⟩, hhandler⟩

/-- Statements that neither look at a packet nor wake the queue. -/
theorem HandlerInv.pass {k k' : Handler} (hs : HandlerInv d k v) (hk : ¬ k.Waking)
    (hread : k' ≠ .readTsd) (hadvance : k' ≠ .advance) (hwake : k' ≠ .wake) :
    HandlerInv d k' v where
  working := fun hk' => by
    rcases hk' with hk' | hk'
    · exact absurd hk' hread
    · exact absurd hk' hadvance
  waking := fun hk' => absurd hk' hwake
  stopped := fun hd => Or.inl ((hs.stopped hd).resolve_right hk)

/-- The two indices are the same when there is no packet between them. -/
theorem RingInv.ne_zero {sent : Nat} (hs : RingInv h d sent v) (hne : d.dirtyTx ≠ d.curTx) :
    v ≠ 0 := by
  rintro rfl
  have hlead := hs.lead
  rw [Nat.add_zero, Nat.mod_eq_of_lt hs.ok.dirtyTx] at hlead
  exact hne hlead

/-- A statement of the handler keeps the invariants, if it does not wake the
    queue of a full ring. -/
theorem step_handler_inv {txstatus : BitVec 32} {received : List ((Nat → BitVec 32) × Bool)}
    (hs : Inv h s) (hstep : step (.handler txstatus received) s = some s')
    (htimely : Timely h s (.handler txstatus received)) :
    Inv ((s, .handler txstatus received) :: h) s' := by
  rcases hs with ⟨v, hring, hxmit, hhandler⟩
  rcases Option.map_eq_some_iff.mp hstep with ⟨⟨d, k⟩, hstmt, rfl⟩
  have hev : ∀ y, s.handler = y → event (s, .handler txstatus received) =
      match y with
      | .advance => some (.get [s.dev.slot s.dev.dirtyTx])
      | _ => none := by
    rintro y rfl
    rfl
  cases hk : s.handler with
  | idle => simp only [handlerStmt, hk, reduceCtorEq] at hstmt
  | enter =>
      simp only [handlerStmt, hk, Option.some.injEq, Prod.mk.injEq] at hstmt
      rcases hstmt with ⟨rfl, rfl⟩
      rw [hk] at hhandler
      refine ⟨v, hring.quiet (hev _ hk) rfl rfl rfl, hxmit, hhandler.pass id ?_ ?_ ?_⟩ <;>
        split_ifs <;> simp only [ne_eq, reduceCtorEq, not_false_eq_true]
  | guardCur =>
      simp only [handlerStmt, hk, Option.some.injEq, Prod.mk.injEq] at hstmt
      rcases hstmt with ⟨rfl, rfl⟩
      rw [hk] at hhandler
      refine ⟨v, hring.quiet (hev _ hk) rfl rfl rfl, hxmit, ?_⟩
      by_cases hne : s.dev.dirtyTx ≠ s.dev.curTx
      · have hv := hring.ne_zero hne
        rw [if_pos hne]
        exact ⟨fun _ => hv, fun hwake => Handler.noConfusion hwake, fun _ => Or.inl hv⟩
      · rw [if_neg hne]
        exact hhandler.pass id Handler.noConfusion Handler.noConfusion Handler.noConfusion
  | guardStopped =>
      simp only [handlerStmt, hk, Option.some.injEq, Prod.mk.injEq] at hstmt
      rcases hstmt with ⟨rfl, rfl⟩
      rw [hk] at hhandler
      refine ⟨v, hring.quiet (hev _ hk) rfl rfl rfl, hxmit, ?_⟩
      by_cases hd : s.dev.queueStopped = true
      · -- A stopped queue has a packet, or it would be woken by now.
        have hv := (hhandler.stopped hd).resolve_right id
        rw [if_pos hd]
        exact ⟨fun _ => hv, fun hwake => Handler.noConfusion hwake, fun _ => Or.inl hv⟩
      · rw [if_neg hd]
        exact hhandler.pass id Handler.noConfusion Handler.noConfusion Handler.noConfusion
  | readTsd =>
      rw [hk] at hhandler
      have hv := hhandler.working (Or.inl rfl)
      by_cases hwaits : txstatus &&& (TxStatOK ||| TxAborted ||| TxUnderrun) = 0
      · simp only [handlerStmt, hk, if_pos hwaits, Option.some.injEq, Prod.mk.injEq] at hstmt
        rcases hstmt with ⟨rfl, rfl⟩
        refine ⟨v, hring.quiet (hev _ hk) rfl rfl rfl, hxmit.of_le (Nat.le_refl v) rfl rfl, ?_⟩
        exact ⟨fun _ => hv, fun hwake => Handler.noConfusion hwake, fun _ => Or.inl hv⟩
      · simp only [handlerStmt, hk, if_neg hwaits, Option.some.injEq, Prod.mk.injEq] at hstmt
        rcases hstmt with ⟨rfl, rfl⟩
        refine ⟨v, hring.quiet (hev _ hk) rfl rfl rfl, hxmit.of_le (Nat.le_refl v) rfl rfl, ?_⟩
        exact ⟨fun _ => hv, fun hwake => Handler.noConfusion hwake, fun _ => Or.inl hv⟩
  | advance =>
      simp only [handlerStmt, hk, Option.some.injEq, Prod.mk.injEq] at hstmt
      rcases hstmt with ⟨rfl, rfl⟩
      have hv := hhandler.working (Or.inr hk)
      refine ⟨v - 1, hring.get hv (hev _ hk), hxmit.of_le (Nat.sub_le v 1) rfl rfl, ?_⟩
      refine ⟨fun hwork => ?_, fun hwake => Handler.noConfusion hwake, fun _ => Or.inr trivial⟩
      rcases hwork with hwork | hwork <;> exact Handler.noConfusion hwork
  | testCur =>
      simp only [handlerStmt, hk, Option.some.injEq, Prod.mk.injEq] at hstmt
      rcases hstmt with ⟨rfl, rfl⟩
      refine ⟨v, hring.quiet (hev _ hk) rfl rfl rfl, hxmit, ?_⟩
      refine ⟨fun hwork => ?_, fun hwake => Handler.noConfusion hwake, fun _ => ?_⟩
      · rcases hwork with hwork | hwork <;> exact Handler.noConfusion hwork
      · by_cases hsame : s.dev.dirtyTx = s.dev.curTx
        · rw [decide_eq_true hsame]
          exact Or.inr trivial
        · exact Or.inl (hring.ne_zero hsame)
  | testStopped same =>
      simp only [handlerStmt, hk, Option.some.injEq, Prod.mk.injEq] at hstmt
      rcases hstmt with ⟨rfl, rfl⟩
      rw [hk] at hhandler
      refine ⟨v, hring.quiet (hev _ hk) rfl rfl rfl, hxmit, ?_⟩
      by_cases hwake : (same && s.dev.queueStopped) = true
      · rw [if_pos hwake]
        have hstopped := (Bool.and_eq_true_iff.mp hwake).2
        refine ⟨fun hwork => ?_, fun _ => hstopped, fun _ => Or.inr trivial⟩
        rcases hwork with hwork | hwork <;> exact Handler.noConfusion hwork
      · rw [if_neg hwake]
        refine ⟨fun hwork => ?_, fun hgo => Handler.noConfusion hgo, fun hd => Or.inl ?_⟩
        · rcases hwork with hwork | hwork <;> exact Handler.noConfusion hwork
        · cases same with
          | true => exact absurd hd hwake
          | false => exact (hhandler.stopped hd).resolve_right id
  | wake =>
      simp only [handlerStmt, hk, Option.some.injEq, Prod.mk.injEq] at hstmt
      rcases hstmt with ⟨rfl, rfl⟩
      have hreturned := hxmit.running (hhandler.waking hk)
      have hroom := htimely hk
      rw [hring.length_eq] at hroom
      have hentry : s.dev.entry = s.dev.curTx := hring.ok.entry
      refine ⟨v, hring.quiet (hev _ hk) rfl rfl rfl, ⟨fun i hi => ⟨?_, by omega⟩, ?_⟩, ?_⟩
      · cases hx : s.xmit with
        | idle =>
            simp only [hx, Xmit.next, Option.mem_def] at hi
            exact (Option.some.inj hi).symm.trans hentry
        | unlock =>
            simp only [hx, Xmit.next, Option.mem_def] at hi
            exact (Option.some.inj hi).symm.trans hentry
        | _ =>
            rw [hx] at hreturned
            exact hreturned.elim
      · exact fun hd => Bool.noConfusion hd
      · refine ⟨fun hwork => ?_, fun hgo => Handler.noConfusion hgo, fun hd => Bool.noConfusion hd⟩
        rcases hwork with hwork | hwork <;> exact Handler.noConfusion hwork
  | receive =>
      simp only [handlerStmt, hk, Option.some.injEq, Prod.mk.injEq] at hstmt
      rcases hstmt with ⟨rfl, rfl⟩
      rw [hk] at hhandler
      have hsame : s.dev.SameTx (if s.isr &&& RxOK ≠ 0 then
          received.foldl (fun d q => (rxIteration q.1 q.2 d).2) s.dev else s.dev) := by
        split
        · exact rxIterations_sameTx received s.dev
        · exact ⟨rfl, rfl, rfl, rfl⟩
      refine ⟨v, hring.quiet (hev _ hk) hsame.curTx hsame.dirtyTx hsame.txBuf,
        hxmit.of_le (Nat.le_refl v) hsame.curTx hsame.queueStopped, ?_⟩
      have hpass : HandlerInv s.dev .idle v :=
        hhandler.pass id Handler.noConfusion Handler.noConfusion Handler.noConfusion
      exact hpass.of_le (Nat.le_refl v) hsame.queueStopped

end Statements

/-- One statement of `start_xmit` after the other. -/
def xmits (n : Nat) : List (Step Nat) := List.replicate n .xmit

/-- The statements of the handler for as many answers. -/
def handles (ts : List (BitVec 32)) : List (Step Nat) := ts.map fun t => .handler t []

section Runs

variable {init d : Dev α} {h : History (Sys α) (Step α)} {s s' : Sys α} {l : Step α}

/-- A step that is timely keeps the invariants. -/
theorem step_inv (hs : Inv h s) (hstep : step l s = some s') (htimely : Timely h s l) :
    Inv ((s, l) :: h) s' := by
  cases l with
  | startXmit skb len =>
      rcases hs with ⟨v, hring, hxmit, hhandler⟩
      rcases step_startXmit hstep with ⟨hx, hruns, rfl⟩
      rw [hx] at hring hxmit
      refine ⟨v, hring.quiet rfl rfl rfl rfl, ⟨fun i hi => hxmit.next i ?_, fun hd => ?_⟩, hhandler⟩
      · simp only [Xmit.next, hruns, Bool.false_eq_true, if_false]
        exact hi
      · rw [hruns] at hd
        exact Bool.noConfusion hd
  | xmit => exact step_xmit_inv hs hstep htimely
  | interrupt isr =>
      rcases hs with ⟨v, hring, hxmit, hhandler⟩
      rcases step_interrupt hstep with ⟨hk, rfl⟩
      rw [hk] at hhandler
      exact ⟨v, hring.quiet rfl rfl rfl rfl, hxmit,
        hhandler.pass id Handler.noConfusion Handler.noConfusion Handler.noConfusion⟩
  | handler txstatus received => exact step_handler_inv hs hstep htimely

/-- A call of `start_xmit` reclaims nothing. -/
theorem reclaimed_xmit : reclaimed ((s, .xmit) :: h) = reclaimed h := by
  cases hx : s.xmit with
  | writeTsd i =>
      have hev : event (s, .xmit) = some (.put [s.dev.slot i]) := by
        simp only [event, hx]
      exact (accepted_put hev).2
  | _ =>
      have hev : event (s, .xmit) = none := by
        simp only [event, hx]
      exact (accepted_none hev).2

/-- The handler gets to its write of `dirty_tx` from an answer only. -/
theorem handlerStmt_owed {isr : BitVec 16} {txstatus : BitVec 32}
    {received : List ((Nat → BitVec 32) × Bool)} {k k' : Handler} {d d' : Dev α}
    (hstmt : handlerStmt isr txstatus received k d = some (d', k')) :
    k'.owed = if k = .readTsd ∧ Concluded txstatus then 1 else 0 := by
  cases k with
  | idle => simp only [handlerStmt, reduceCtorEq] at hstmt
  | readTsd =>
      by_cases hwaits : txstatus &&& (TxStatOK ||| TxAborted ||| TxUnderrun) = 0
      · simp only [handlerStmt, if_pos hwaits, Option.some.injEq, Prod.mk.injEq] at hstmt
        rw [← hstmt.2, if_neg fun h => h.2 hwaits]
        rfl
      · simp only [handlerStmt, if_neg hwaits, Option.some.injEq, Prod.mk.injEq] at hstmt
        rw [← hstmt.2, if_pos ⟨rfl, hwaits⟩]
        rfl
  | _ =>
      simp only [handlerStmt, Option.some.injEq, Prod.mk.injEq] at hstmt
      refine Eq.trans ?_ (if_neg fun h => Handler.noConfusion h.1).symm
      rw [← hstmt.2]
      first | rfl | (split_ifs <;> rfl)

/-- Every statement keeps the packets reclaimed in step with the answers. -/
theorem step_answered (hs : Answered h s) (hstep : step l s = some s') :
    Answered ((s, l) :: h) s' := by
  unfold Answered at hs ⊢
  cases l with
  | startXmit skb len =>
      rcases step_startXmit hstep with ⟨-, -, rfl⟩
      rw [(accepted_none rfl).2]
      exact hs
  | xmit =>
      rcases Option.map_eq_some_iff.mp hstep with ⟨⟨d, x⟩, -, rfl⟩
      rw [reclaimed_xmit]
      exact hs
  | interrupt isr =>
      rcases step_interrupt hstep with ⟨hk, rfl⟩
      rw [hk] at hs
      rw [(accepted_none rfl).2]
      exact hs
  | handler txstatus received =>
      rcases Option.map_eq_some_iff.mp hstep with ⟨⟨d, k⟩, hstmt, rfl⟩
      rw [concluded, handlerStmt_owed hstmt]
      by_cases hadvance : s.handler = .advance
      · -- The packet of the last answer is reclaimed.
        have hget : event (s, .handler txstatus received) =
            some (.get [s.dev.slot s.dev.dirtyTx]) := by
          simp only [event, hadvance]
        have hnot : ¬ (s.handler = .readTsd ∧ Concluded txstatus) := by
          rw [hadvance]
          exact fun h => Handler.noConfusion h.1
        rw [hadvance] at hs
        rw [(accepted_get hget).2, if_neg hnot, if_neg hnot, List.length_append, hs]
        rfl
      · have hnone : event (s, .handler txstatus received) = none := by
          cases hk : s.handler <;> simp only [event, hk]
          exact absurd hk hadvance
        have howed : s.handler.owed = 0 := by
          cases hk : s.handler with
          | advance => exact absurd hk hadvance
          | _ => rfl
        rw [howed] at hs
        rw [(accepted_none hnone).2]
        split_ifs
        · rw [hs]
        · exact hs

theorem outstanding_none (hev : event (s, l) = none) :
    outstanding ((s, l) :: h) = outstanding h := by
  rw [outstanding, outstanding, (accepted_none hev).1, (accepted_none hev).2]

/-- The queue of a full ring is not woken in a run that keeps the law: the next
    packet would be written to a descriptor of the ring. -/
theorem wake_timely (hs : Inv h s) {txstatus : BitVec 32}
    {received : List ((Nat → BitVec 32) × Bool)} (hk : s.handler = .wake)
    (hstep : step (.handler txstatus received) s = some s')
    (hlaw : TxLaw ((s, .handler txstatus received) :: h) s') :
    (outstanding h).length < NUM_TX_DESC := by
  rcases hs with ⟨v, hring, hxmit, hhandler⟩
  simp only [step, hk, handlerStmt, Option.map_some, Option.some.injEq] at hstep
  have hstopped := hhandler.waking hk
  have hsent := hxmit.sent_eq hstopped
  have hreturned := hxmit.running hstopped
  have hnone : event (s, .handler txstatus received) = none := by
    simp only [event, hk]
  have hnext : s'.xmit.next s'.dev = some s.dev.entry := by
    rw [← hstep]
    cases hx : s.xmit with
    | idle => rfl
    | unlock => rfl
    | _ =>
        rw [hx] at hreturned
        exact hreturned.elim
  by_contra hfull
  rw [hsent] at hring
  have hle := hring.le
  have hlead := hring.lead
  have hdirty := hring.ok.dirtyTx
  rw [hring.length_eq] at hfull
  have hcur : s.dev.dirtyTx = s.dev.curTx := by
    simp only [NUM_TX_DESC] at *
    omega
  -- The first packet of the ring is in the descriptor that comes next.
  have hmem : s.dev.slot s.dev.dirtyTx ∈ outstanding h := by
    have hcount : v + 0 = v - 1 + 1 := by
      simp only [NUM_TX_DESC] at *
      omega
    have hlt : (s.dev.dirtyTx : Int) < NUM_TX_DESC := by omega
    have hsplit := Ring.window_succ (k := v - 1) s.dev.slot hlt (by omega)
    rw [hring.outstanding_eq, hcount, hsplit]
    exact List.mem_cons_self
  rw [← outstanding_none hnone] at hmem
  refine hlaw.free s.dev.entry ?_ _ hmem ?_
  · rw [hnext]
    exact Option.mem_some_self _
  · rw [hring.ok.entry, ← hcur]
    rfl

/-- A step that keeps the law is timely. -/
theorem step_timely (hs : Inv h s) (hstep : step l s = some s') (hlaw : TxLaw ((s, l) :: h) s') :
    Timely h s l := by
  cases l with
  | startXmit skb len => trivial
  | interrupt isr => trivial
  | xmit =>
      intro hx
      have hnone : event (s, .xmit) = none := by
        simp only [event, hx]
      simp only [step, hx, xmitStmt, Option.map_some, Option.some.injEq] at hstep
      have hafter := hlaw.stopped (by rw [← hstep])
      rw [outstanding_none hnone, ← hstep] at hafter
      exact hafter
  | handler txstatus received => exact fun hk => wake_timely hs hk hstep hlaw

theorem inv_rest (hinit : init.Started) : Inv [] (Sys.rest init) := by
  refine ⟨0, ⟨(Transmit.started_ok hinit).1, ?_, Nat.zero_le _, rfl⟩, ⟨fun i hi => ?_, ?_⟩, ?_⟩
  · simp only [Sys.rest, hinit.curTx, hinit.dirtyTx]
    rfl
  · simp only [Sys.rest, Xmit.next, hinit.queueStopped, Bool.false_eq_true, if_false,
      Option.mem_def, Option.some.injEq] at hi
    exact ⟨hi.symm.trans (Transmit.started_ok hinit).1.entry, by decide⟩
  · exact fun _ => trivial
  · refine ⟨fun hk => ?_, fun hk => Handler.noConfusion hk, fun hd => ?_⟩
    · rcases hk with hk | hk <;> exact Handler.noConfusion hk
    · rw [Sys.rest, hinit.queueStopped] at hd
      exact Bool.noConfusion hd

/-- In a run the law of the descriptors holds in every state exactly when no
    queue is stopped or woken too late. -/
theorem run_txLaw_iff (hinit : init.Started) (hr : Run step (Sys.rest init) h s) :
    EveryPoint TxLaw h s ↔ EveryStep Timely h := by
  refine hr.everyPoint_iff_under (fun h s => Inv h s ∧ Answered h s) ⟨inv_rest hinit, rfl⟩
    (fun _ _ hs => hs.1.txLaw hs.2) ?_
  rintro h s l s' _ ⟨hs, hanswered⟩ hstep
  exact ⟨fun htimely => ⟨step_inv hs hstep htimely, step_answered hanswered hstep⟩,
    step_timely hs hstep⟩

/-- The handler is at work between two statements of a call, and no harm
    done. -/
theorem run_txLaw_between : ∃ (h : History (Sys Nat) (Step Nat)) (s : Sys Nat),
    EveryPoint TxLaw h s ∧ ¬ EveryStep Exclusive h ∧ (reclaimed h).length = 1 := by
  rcases exists_run_of_exec step (Sys.rest Dev.zeroed)
    (.startXmit 10 60 :: xmits 5 ++ .interrupt TxOK :: handles [0, 0] ++ xmits 2 ++
      handles [TxStatOK, 0, 0])
    (fun h _ => EveryStep Timely h ∧ ¬ EveryStep Exclusive h ∧ (reclaimed h).length = 1)
    (by decide) with ⟨h, s, hr, hp⟩
  rcases of_decide_eq_true hp with ⟨htimely, hexcl, hone⟩
  exact ⟨h, s, (run_txLaw_iff Transmit.zeroed_started hr).mpr htimely, hexcl, hone⟩

/-- The card has sent a packet, and the handler has reclaimed it, between the
    statement that counts the packet and the test that compares the indices.
    The queue is stopped while the ring is empty and the handler is gone. -/
theorem run_stuck : ∃ (h : History (Sys Nat) (Step Nat)) (s : Sys Nat),
    Run step (Sys.rest Dev.zeroed) h s ∧ s.dev.queueStopped = true ∧ outstanding h = [] ∧
      s.xmit = .idle ∧ s.handler = .idle ∧ ¬ TxLaw h s := by
  rcases exists_run_of_exec step (Sys.rest Dev.zeroed)
    (.startXmit 10 60 :: xmits 5 ++ .interrupt TxOK :: handles (List.replicate 9 TxStatOK) ++
      xmits 3)
    (fun h s => s.dev.queueStopped = true ∧ outstanding h = [] ∧ s.xmit = .idle ∧
      s.handler = .idle) (by decide) with ⟨h, s, hr, hp⟩
  rcases of_decide_eq_true hp with ⟨hstopped, hnone, hx, hk⟩
  refine ⟨h, s, hr, hstopped, hnone, hx, hk, fun hlaw => ?_⟩
  rcases hlaw.stopped hstopped with hsome | hwaking
  · exact hsome hnone
  · rw [hk] at hwaking
    exact hwaking

/-- Between the write of `dirty_tx` and the test behind it two packets have
    filled the ring and stopped the queue. The handler wakes it, and the next
    packet is copied over one that the card has still to send. -/
theorem run_overwritten : ∃ (h : History (Sys Nat) (Step Nat)) (s : Sys Nat),
    Run step (Sys.rest Dev.zeroed) h s ∧ (outstanding h).length = NUM_TX_DESC ∧
      (1, some 11) ∈ outstanding h ∧ s.dev.txBuf 1 = some 15 ∧ ¬ TxLaw h s := by
  rcases exists_run_of_exec step (Sys.rest Dev.zeroed)
    (.startXmit 10 60 :: xmits 7 ++ .startXmit 11 60 :: xmits 7 ++ .startXmit 12 60 :: xmits 7 ++
      .interrupt TxOK :: handles [0, 0, TxStatOK, 0] ++
      .startXmit 13 60 :: xmits 7 ++ .startXmit 14 60 :: xmits 8 ++ handles [0, 0, 0] ++
      .startXmit 15 60 :: xmits 2)
    (fun h s => (outstanding h).length = NUM_TX_DESC ∧ (1, some 11) ∈ outstanding h ∧
      s.dev.txBuf 1 = some 15 ∧ s.xmit = .lock 1) (by decide) with ⟨h, s, hr, hp⟩
  rcases of_decide_eq_true hp with ⟨hfull, hmem, hbuf, hx⟩
  refine ⟨h, s, hr, hfull, hmem, hbuf, fun hlaw => ?_⟩
  refine hlaw.free 1 ?_ _ hmem rfl
  rw [hx]
  exact Option.mem_some_self 1

/-- What a side has seen is still so when it acts. -/
theorem Apart.timely (hs : Apart h s) : Timely h s l := by
  cases l with
  | startXmit skb len => trivial
  | interrupt isr => trivial
  | xmit =>
      intro hx
      refine Or.inl (hs.held ?_)
      rw [hx]
      trivial
  | handler txstatus received =>
      intro hk
      refine hs.room ?_
      rw [hk]
      trivial

/-- A statement of a call is the lock or one behind it, with the handler away,
    or it leaves the ring as it is. -/
theorem step_xmit_apart (hinv : Inv h s) (hs : Apart h s) (hexcl : Exclusive h s .xmit)
    (hstep : step .xmit s = some s') : Apart ((s, .xmit) :: h) s' := by
  rcases Option.map_eq_some_iff.mp hstep with ⟨⟨d, x⟩, hstmt, rfl⟩
  -- With the handler away only the call's own test is left to be asked.
  have haway : ∀ {y : Xmit α}, s.handler = .idle →
      (y.Comparing → outstanding ((s, .xmit) :: h) ≠ []) →
      Apart ((s, .xmit) :: h) { s with dev := d, xmit := y } := by
    intro y hidle hheld
    refine ⟨fun _ => hidle, fun hk => ?_, hheld⟩
    rw [hidle] at hk
    exact hk.elim
  have hlocked : s.xmit.Locked → s.handler = .idle := hs.locked
  have hheld := hs.held
  cases hx : s.xmit <;> rw [hx] at hlocked hheld
  case idle => simp only [xmitStmt, hx, reduceCtorEq] at hstmt
  case entry skb len =>
    simp only [xmitStmt, hx, Option.some.injEq, Prod.mk.injEq] at hstmt
    rcases hstmt with ⟨rfl, rfl⟩
    have hnone : event (s, .xmit) = none := by simp only [event, hx]
    refine ⟨False.elim, ?_, False.elim⟩
    rw [outstanding_none hnone]
    exact hs.room
  case copy skb len i =>
    have hnone : event (s, .xmit) = none := by simp only [event, hx]
    by_cases hlen : len < TX_BUF_SIZE
    · simp only [xmitStmt, hx, if_pos hlen, Option.some.injEq, Prod.mk.injEq] at hstmt
      rcases hstmt with ⟨rfl, rfl⟩
      refine ⟨False.elim, ?_, False.elim⟩
      rw [outstanding_none hnone]
      exact hs.room
    · simp only [xmitStmt, hx, if_neg hlen, Option.some.injEq, Prod.mk.injEq] at hstmt
      rcases hstmt with ⟨rfl, rfl⟩
      refine ⟨False.elim, ?_, False.elim⟩
      rw [outstanding_none hnone]
      exact hs.room
  case lock i =>
    simp only [xmitStmt, hx, Option.some.injEq, Prod.mk.injEq] at hstmt
    rcases hstmt with ⟨rfl, rfl⟩
    simp only [Exclusive, hx] at hexcl
    exact haway hexcl False.elim
  case writeTsd i =>
    simp only [xmitStmt, hx, Option.some.injEq, Prod.mk.injEq] at hstmt
    rcases hstmt with ⟨rfl, rfl⟩
    exact haway (hlocked trivial) False.elim
  case advance =>
    simp only [xmitStmt, hx, Option.some.injEq, Prod.mk.injEq] at hstmt
    rcases hstmt with ⟨rfl, rfl⟩
    have hnone : event (s, .xmit) = none := by simp only [event, hx]
    refine haway (hlocked trivial) fun _ => ?_
    -- The packet that the call has handed over is still with the card.
    rcases hinv with ⟨v, hring, -, -⟩
    rw [hx] at hring
    rw [outstanding_none hnone, hring.ne_nil_iff]
    exact Nat.succ_ne_zero v
  case test =>
    simp only [xmitStmt, hx, Option.some.injEq, Prod.mk.injEq] at hstmt
    rcases hstmt with ⟨rfl, rfl⟩
    have hnone : event (s, .xmit) = none := by simp only [event, hx]
    refine haway (hlocked trivial) fun _ => ?_
    rw [outstanding_none hnone]
    exact hheld trivial
  case stop =>
    simp only [xmitStmt, hx, Option.some.injEq, Prod.mk.injEq] at hstmt
    rcases hstmt with ⟨rfl, rfl⟩
    exact haway (hlocked trivial) False.elim
  case unlock =>
    simp only [xmitStmt, hx, Option.some.injEq, Prod.mk.injEq] at hstmt
    rcases hstmt with ⟨rfl, rfl⟩
    exact haway (hlocked trivial) False.elim

/-- There is room in the ring behind a packet that is reclaimed. -/
theorem outstanding_get {p : Int × Option α} (hinv : Inv h s)
    (hev : event (s, l) = some (.get [p])) :
    (outstanding ((s, l) :: h)).length < NUM_TX_DESC := by
  have hbounded := hinv.bounded
  rw [outstanding, List.length_drop] at hbounded
  rw [outstanding, (accepted_get hev).1, (accepted_get hev).2, List.length_drop,
    List.length_append, List.length_singleton]
  simp only [NUM_TX_DESC] at *
  omega

/-- The handler gets to its test from `dirty_tx` only. -/
theorem handlerStmt_comparing {isr : BitVec 16} {txstatus : BitVec 32}
    {received : List ((Nat → BitVec 32) × Bool)} {k k' : Handler} {d d' : Dev α}
    (hstmt : handlerStmt isr txstatus received k d = some (d', k')) (hk : k'.Comparing) :
    k = .advance ∨ k.Comparing := by
  cases k with
  | idle => simp only [handlerStmt, reduceCtorEq] at hstmt
  | advance => exact Or.inl rfl
  | testCur => exact Or.inr trivial
  | testStopped same => exact Or.inr trivial
  | wake => exact Or.inr trivial
  | enter =>
      simp only [handlerStmt, Option.some.injEq, Prod.mk.injEq] at hstmt
      rw [← hstmt.2] at hk
      split_ifs at hk <;> exact hk.elim
  | guardCur =>
      simp only [handlerStmt, Option.some.injEq, Prod.mk.injEq] at hstmt
      rw [← hstmt.2] at hk
      split_ifs at hk <;> exact hk.elim
  | guardStopped =>
      simp only [handlerStmt, Option.some.injEq, Prod.mk.injEq] at hstmt
      rw [← hstmt.2] at hk
      split_ifs at hk <;> exact hk.elim
  | readTsd =>
      simp only [handlerStmt] at hstmt
      split at hstmt <;> simp only [Option.some.injEq, Prod.mk.injEq] at hstmt <;>
        rw [← hstmt.2] at hk <;> exact hk.elim
  | receive =>
      simp only [handlerStmt, Option.some.injEq, Prod.mk.injEq] at hstmt
      rw [← hstmt.2] at hk
      exact hk.elim

/-- While the handler is at work no call is behind its lock, and no packet is
    added to the ring. -/
theorem step_handler_apart {txstatus : BitVec 32} {received : List ((Nat → BitVec 32) × Bool)}
    (hinv : Inv h s) (hs : Apart h s) (hstep : step (.handler txstatus received) s = some s') :
    Apart ((s, .handler txstatus received) :: h) s' := by
  rcases Option.map_eq_some_iff.mp hstep with ⟨⟨d, k⟩, hstmt, rfl⟩
  have hbusy : s.handler ≠ .idle := by
    intro hidle
    simp only [handlerStmt, hidle, reduceCtorEq] at hstmt
  have hopen : ¬ s.xmit.Locked := fun hlocked => hbusy (hs.locked hlocked)
  have hheld : ¬ s.xmit.Comparing := by
    intro hcomparing
    refine hopen ?_
    cases hx : s.xmit <;> rw [hx] at hcomparing <;> first | exact hcomparing.elim | trivial
  refine ⟨fun hlocked => absurd hlocked hopen, fun hcomparing => ?_,
    fun hcomparing => absurd hcomparing hheld⟩
  by_cases hadvance : s.handler = .advance
  · have hget : event (s, .handler txstatus received) =
        some (.get [s.dev.slot s.dev.dirtyTx]) := by
      simp only [event, hadvance]
    exact outstanding_get hinv hget
  · have hbefore : s.handler.Comparing :=
      (handlerStmt_comparing hstmt hcomparing).resolve_left hadvance
    have hnone : event (s, .handler txstatus received) = none := by
      cases hk : s.handler <;> simp only [event, hk]
      exact absurd hk hadvance
    rw [outstanding_none hnone]
    exact hs.room hbefore

theorem step_apart (hinv : Inv h s) (hs : Apart h s) (hexcl : Exclusive h s l)
    (hstep : step l s = some s') : Apart ((s, l) :: h) s' := by
  cases l with
  | startXmit skb len =>
      rcases step_startXmit hstep with ⟨hx, -, rfl⟩
      refine ⟨False.elim, ?_, False.elim⟩
      rw [outstanding_none rfl]
      exact hs.room
  | xmit => exact step_xmit_apart hinv hs hexcl hstep
  | interrupt isr =>
      rcases step_interrupt hstep with ⟨-, rfl⟩
      refine ⟨fun hlocked => absurd hlocked hexcl, False.elim, ?_⟩
      rw [outstanding_none rfl]
      exact hs.held
  | handler txstatus received => exact step_handler_apart hinv hs hstep

/-- While the lock keeps the handler out, nothing is stopped or woken too
    late. -/
theorem run_timely_of_exclusive (hinit : init.Started) (hr : Run step (Sys.rest init) h s)
    (hexcl : EveryStep Exclusive h) : EveryStep Timely h := by
  -- Both conditions at once: the invariants of the one are kept under the other.
  have hboth : EveryStep (fun h s l => Exclusive h s l ∧ Timely h s l) h := by
    refine (hr.everyStep_iff_under (fun h s => Inv h s ∧ Apart h s)
      ⟨inv_rest hinit, ⟨False.elim, False.elim, False.elim⟩⟩ ?_).mp hexcl
    rintro h s l s' _ ⟨hinv, hs⟩ hstep
    have htimely : Timely h s l := hs.timely
    exact ⟨(and_iff_left htimely).symm, fun hexcl =>
      ⟨step_inv hinv hstep htimely, step_apart hinv hs hexcl hstep⟩⟩
  exact ((everyStep_and _ _ h).mp hboth).2

/-- In every run in which the lock keeps the handler out, the law of the
    descriptors holds in every state. -/
theorem run_txLaw_of_exclusive (hinit : init.Started) (hr : Run step (Sys.rest init) h s)
    (hexcl : EveryStep Exclusive h) : EveryPoint TxLaw h s :=
  (run_txLaw_iff hinit hr).mpr (run_timely_of_exclusive hinit hr hexcl)

/-- A call chooses its descriptor and copies its packet while the handler is at
    work, and takes the lock when it is done. -/
theorem run_txLaw_outside : ∃ (h : History (Sys Nat) (Step Nat)) (s : Sys Nat),
    EveryPoint TxLaw h s ∧ (reclaimed h).length = 1 ∧ (outstanding h).length = 1 := by
  rcases exists_run_of_exec step (Sys.rest Dev.zeroed)
    (.startXmit 10 60 :: xmits 7 ++ .interrupt TxOK :: handles [0, 0] ++ .startXmit 11 60 ::
      xmits 1 ++ handles [TxStatOK, 0] ++ xmits 1 ++ handles [0, 0, 0, 0, 0] ++ xmits 5)
    (fun h _ => EveryStep Exclusive h ∧ (reclaimed h).length = 1 ∧ (outstanding h).length = 1)
    (by decide) with ⟨h, s, hr, hp⟩
  rcases of_decide_eq_true hp with ⟨hexcl, hone, hrest⟩
  exact ⟨h, s, run_txLaw_of_exclusive Transmit.zeroed_started hr hexcl, hone, hrest⟩

end Runs

section Alone

variable {init d d' : Dev α} {s s' : Sys α} {l : Step α} {isr : BitVec 16}
  {acc rec rs : List (Int × Option α)}

/-- A run that is exclusive leads to the state, and the card has been given the
    one packets and has given back the others. -/
def Reaches (init : Dev α) (s : Sys α) (acc rec : List (Int × Option α)) : Prop :=
  ∃ h, Run step (Sys.rest init) h s ∧ EveryStep Exclusive h ∧ accepted h = acc ∧ reclaimed h = rec

theorem Reaches.quiet (hr : Reaches init s acc rec) (hstep : step l s = some s')
    (hexcl : Exclusive [] s l) (hev : event (s, l) = none) : Reaches init s' acc rec := by
  rcases hr with ⟨h, hr, hall, rfl, rfl⟩
  refine ⟨_, .next l hr hstep, ⟨?_, hall⟩, (accepted_none hev).1, (accepted_none hev).2⟩
  cases l <;> exact hexcl

theorem Reaches.put {p : Int × Option α} (hr : Reaches init s acc rec)
    (hstep : step l s = some s') (hexcl : Exclusive [] s l)
    (hev : event (s, l) = some (.put [p])) : Reaches init s' (acc ++ [p]) rec := by
  rcases hr with ⟨h, hr, hall, rfl, rfl⟩
  refine ⟨_, .next l hr hstep, ⟨?_, hall⟩, (accepted_put hev).1, (accepted_put hev).2⟩
  cases l <;> exact hexcl

theorem Reaches.get {p : Int × Option α} (hr : Reaches init s acc rec)
    (hstep : step l s = some s') (hexcl : Exclusive [] s l)
    (hev : event (s, l) = some (.get [p])) : Reaches init s' acc (rec ++ [p]) := by
  rcases hr with ⟨h, hr, hall, rfl, rfl⟩
  refine ⟨_, .next l hr hstep, ⟨?_, hall⟩, (accepted_get hev).1, (accepted_get hev).2⟩
  cases l <;> exact hexcl

/-- A device with one side at a statement. -/
def atXmit (d : Dev α) (isr : BitVec 16) (x : Xmit α) : Sys α :=
  { dev := d, xmit := x, handler := .idle, isr := isr }

def atHandler (d : Dev α) (isr : BitVec 16) (k : Handler) : Sys α :=
  { dev := d, xmit := .idle, handler := k, isr := isr }

/-- The statements of a call from the lock on. -/
theorem Reaches.locked {i : Nat} (hr : Reaches init (atXmit d isr (.lock i)) acc rec) :
    Reaches init
      (atXmit
        (if (d.curTx + 1) % NUM_TX_DESC = d.dirtyTx then
          { d with curTx := (d.curTx + 1) % NUM_TX_DESC, queueStopped := true }
        else { d with curTx := (d.curTx + 1) % NUM_TX_DESC }) isr .idle)
      (acc ++ [d.slot i]) rec := by
  have hwrite : Reaches init (atXmit d isr (.writeTsd i)) acc rec :=
    hr.quiet (l := .xmit) rfl rfl rfl
  have hadvance : Reaches init (atXmit d isr .advance) (acc ++ [d.slot i]) rec :=
    hwrite.put (l := .xmit) rfl trivial rfl
  have htest : Reaches init (atXmit { d with curTx := (d.curTx + 1) % NUM_TX_DESC } isr .test)
      (acc ++ [d.slot i]) rec :=
    hadvance.quiet (l := .xmit) rfl trivial rfl
  by_cases hfull : (d.curTx + 1) % NUM_TX_DESC = d.dirtyTx
  · rw [if_pos hfull]
    have hstop : Reaches init (atXmit { d with curTx := (d.curTx + 1) % NUM_TX_DESC } isr .stop)
        (acc ++ [d.slot i]) rec := by
      refine htest.quiet (l := .xmit) ?_ trivial rfl
      simp only [step, atXmit, xmitStmt, if_pos hfull, Option.map_some]
    have hunlock : Reaches init (atXmit
        { d with curTx := (d.curTx + 1) % NUM_TX_DESC, queueStopped := true } isr .unlock)
        (acc ++ [d.slot i]) rec :=
      hstop.quiet (l := .xmit) rfl trivial rfl
    exact hunlock.quiet (l := .xmit) rfl trivial rfl
  · rw [if_neg hfull]
    have hunlock : Reaches init (atXmit { d with curTx := (d.curTx + 1) % NUM_TX_DESC } isr .unlock)
        (acc ++ [d.slot i]) rec := by
      refine htest.quiet (l := .xmit) ?_ trivial rfl
      simp only [step, atXmit, xmitStmt, if_neg hfull, Option.map_some]
    exact hunlock.quiet (l := .xmit) rfl trivial rfl

/-- A call alone is `start_xmit` as a whole. -/
theorem Reaches.startXmit (skb : α) (len : Nat) (hr : Reaches init (atXmit d isr .idle) acc rec)
    (hruns : d.queueStopped = false) :
    Reaches init (atXmit (rtl8139StartXmit skb len d) isr .idle)
      (acc ++ if len < TX_BUF_SIZE then [((d.entry : Int), some skb)] else []) rec := by
  have hentry : Reaches init (atXmit d isr (.entry skb len)) acc rec := by
    refine hr.quiet (l := .startXmit skb len) ?_ trivial rfl
    simp only [step, atXmit, hruns, Bool.false_eq_true, if_false]
  have hcopy : Reaches init (atXmit d isr (.copy skb len d.entry)) acc rec :=
    hentry.quiet (l := .xmit) rfl trivial rfl
  by_cases hlen : len < TX_BUF_SIZE
  · have hlock : Reaches init (atXmit
        { d with txBuf := Function.update d.txBuf d.entry (some skb) } isr (.lock d.entry))
        acc rec := by
      refine hcopy.quiet (l := .xmit) ?_ trivial rfl
      simp only [step, atXmit, xmitStmt, if_pos hlen, Option.map_some]
    have hdone := hlock.locked
    simp only [Dev.slot, Function.update_self] at hdone
    rw [if_pos hlen, rtl8139StartXmit, if_pos hlen]
    exact hdone
  · rw [if_neg hlen, rtl8139StartXmit, if_neg hlen, List.append_nil]
    refine hcopy.quiet (l := .xmit) ?_ trivial rfl
    simp only [step, atXmit, xmitStmt, if_neg hlen, Option.map_some]

/-- The loop is left where its guard fails. -/
theorem Reaches.leave (hr : Reaches init (atHandler d isr .guardCur) acc rec)
    (hguard : ¬ d.Unreclaimed) : Reaches init (atHandler d isr .receive) acc rec := by
  rcases not_or.mp hguard with ⟨hsame, hruns⟩
  have hstopped : Reaches init (atHandler d isr .guardStopped) acc rec := by
    refine hr.quiet (l := .handler 0 []) ?_ trivial rfl
    simp only [step, atHandler, handlerStmt, if_neg hsame, Option.map_some]
  refine hstopped.quiet (l := .handler 0 []) ?_ trivial rfl
  simp only [step, atHandler, handlerStmt, if_neg hruns, Option.map_some]

/-- The loop goes on where its guard holds. -/
theorem Reaches.go (hr : Reaches init (atHandler d isr .guardCur) acc rec)
    (hguard : d.Unreclaimed) : Reaches init (atHandler d isr .readTsd) acc rec := by
  by_cases hne : d.dirtyTx ≠ d.curTx
  · refine hr.quiet (l := .handler 0 []) ?_ trivial rfl
    simp only [step, atHandler, handlerStmt, if_pos hne, Option.map_some]
  · have hstopped : Reaches init (atHandler d isr .guardStopped) acc rec := by
      refine hr.quiet (l := .handler 0 []) ?_ trivial rfl
      simp only [step, atHandler, handlerStmt, if_neg hne, Option.map_some]
    refine hstopped.quiet (l := .handler 0 []) ?_ trivial rfl
    simp only [step, atHandler, handlerStmt, if_pos (hguard.resolve_left hne), Option.map_some]

/-- A descriptor is passed, and the queue is woken if it was the last one. -/
theorem Reaches.pass (hr : Reaches init (atHandler d isr .advance) acc rec) :
    Reaches init
      (atHandler
        (if (d.dirtyTx + 1) % NUM_TX_DESC = d.curTx ∧ d.queueStopped = true then
          { d with dirtyTx := (d.dirtyTx + 1) % NUM_TX_DESC, queueStopped := false }
        else { d with dirtyTx := (d.dirtyTx + 1) % NUM_TX_DESC }) isr .guardCur)
      acc (rec ++ [d.slot d.dirtyTx]) := by
  have htest : Reaches init
      (atHandler { d with dirtyTx := (d.dirtyTx + 1) % NUM_TX_DESC } isr .testCur)
      acc (rec ++ [d.slot d.dirtyTx]) :=
    hr.get (l := .handler 0 []) rfl trivial rfl
  have hcompared : Reaches init
      (atHandler { d with dirtyTx := (d.dirtyTx + 1) % NUM_TX_DESC } isr
        (.testStopped ((d.dirtyTx + 1) % NUM_TX_DESC = d.curTx)))
      acc (rec ++ [d.slot d.dirtyTx]) :=
    htest.quiet (l := .handler 0 []) rfl trivial rfl
  by_cases hlast : (d.dirtyTx + 1) % NUM_TX_DESC = d.curTx ∧ d.queueStopped = true
  · rw [if_pos hlast]
    have hwake : Reaches init
        (atHandler { d with dirtyTx := (d.dirtyTx + 1) % NUM_TX_DESC } isr .wake)
        acc (rec ++ [d.slot d.dirtyTx]) := by
      refine hcompared.quiet (l := .handler 0 []) ?_ trivial rfl
      simp only [step, atHandler, handlerStmt, hlast.1, hlast.2, decide_true, Bool.and_self,
        if_true, Option.map_some]
    exact hwake.quiet (l := .handler 0 []) rfl trivial rfl
  · rw [if_neg hlast]
    have hnot : ¬ (decide ((d.dirtyTx + 1) % NUM_TX_DESC = d.curTx) && d.queueStopped) = true := by
      rw [Bool.and_eq_true, decide_eq_true_eq]
      exact hlast
    refine hcompared.quiet (l := .handler 0 []) ?_ trivial rfl
    simp only [step, atHandler, handlerStmt, if_neg hnot, Option.map_some]

/-- The statements of the loop alone are the loop as a whole. -/
theorem Reaches.loop {tsd : Nat → BitVec 32} (fuel : Nat) :
    ∀ (i : Nat) (d : Dev α) (rec rs : List (Int × Option α)),
      Reaches init (atHandler d isr .guardCur) acc rec →
      reclaimLoop tsd fuel i d = some (rs, d') →
      Reaches init (atHandler d' isr .receive) acc (rec ++ rs) := by
  induction fuel with
  | zero =>
      intro i d rec rs hr hloop
      rw [reclaimLoop, Option.ite_none_left_eq_some, Option.some.injEq, Prod.mk.injEq] at hloop
      rcases hloop with ⟨hguard, rfl, rfl⟩
      rw [List.append_nil]
      exact hr.leave hguard
  | succ fuel ih =>
      intro i d rec rs hr hloop
      rw [reclaimLoop] at hloop
      by_cases hguard : d.Unreclaimed
      · rw [if_pos hguard] at hloop
        have hread := hr.go hguard
        by_cases hwaits : tsd i &&& (TxStatOK ||| TxAborted ||| TxUnderrun) = 0
        · simp only [reclaimOne, if_pos hwaits, Bool.false_eq_true, if_false, Option.some.injEq,
            Prod.mk.injEq] at hloop
          rcases hloop with ⟨rfl, rfl⟩
          rw [List.append_nil]
          refine hread.quiet (l := .handler (tsd i) []) ?_ trivial rfl
          simp only [step, atHandler, handlerStmt, if_pos hwaits, Option.map_some]
        · have hpasses : (reclaimOne (tsd i) d).1 = true := by
            rw [reclaimOne, if_neg hwaits]
          simp only [hpasses, if_true] at hloop
          rcases Option.map_eq_some_iff.mp hloop with ⟨⟨qs, q⟩, hrest, heq⟩
          rw [Prod.mk.injEq] at heq
          rcases heq with ⟨rfl, rfl⟩
          have hadvance : Reaches init (atHandler { d with
              stats := if tsd i &&& TxStatOK ≠ 0 then
                { d.stats with collisions := d.stats.collisions + (tsd i >>> 24 &&& 0xF).toNat }
                else Stats.txError (tsd i)
                { d.stats with collisions := d.stats.collisions + (tsd i >>> 24 &&& 0xF).toNat } }
              isr .advance) acc rec := by
            refine hread.quiet (l := .handler (tsd i) []) ?_ trivial rfl
            simp only [step, atHandler, handlerStmt, if_neg hwaits, Option.map_some]
          have hnext := hadvance.pass
          rw [reclaimOne, if_neg hwaits] at hrest
          have hdone := ih (i + 1) _ _ qs hnext hrest
          rw [List.append_assoc] at hdone
          exact hdone
      · rw [if_neg hguard, Option.some.injEq, Prod.mk.injEq] at hloop
        rcases hloop with ⟨rfl, rfl⟩
        rw [List.append_nil]
        exact hr.leave hguard

/-- The handler alone is the handler as a whole. -/
theorem Reaches.interrupt {isr' : BitVec 16} {tsd : Nat → BitVec 32} {fuel : Nat}
    {received : List ((Nat → BitVec 32) × Bool)} (hr : Reaches init (atXmit d isr .idle) acc rec)
    (hcall : rtl8139Interrupt isr' tsd fuel received d = some (rs, d')) :
    Reaches init (atXmit d' isr' .idle) acc (rec ++ rs) := by
  have henter : Reaches init (atHandler d isr' .enter) acc rec :=
    hr.quiet (l := .interrupt isr') rfl id rfl
  rcases Option.map_eq_some_iff.mp hcall with ⟨⟨qs, t, receive⟩, htx, heq⟩
  rw [Prod.mk.injEq] at heq
  rcases heq with ⟨rfl, rfl⟩
  unfold interruptTx at htx
  by_cases hunknown : isr' &&& INT_MASK = 0
  · rw [if_pos hunknown, Option.some.injEq, Prod.mk.injEq, Prod.mk.injEq] at htx
    rcases htx with ⟨rfl, rfl, rfl⟩
    rw [List.append_nil]
    refine henter.quiet (l := .handler 0 []) ?_ trivial rfl
    rw [step, atHandler, handlerStmt, if_pos hunknown, Option.map_some]
    rfl
  rw [if_neg hunknown] at htx
  by_cases hgone : isr' = 0xFFFF
  · rw [if_pos hgone, Option.some.injEq, Prod.mk.injEq, Prod.mk.injEq] at htx
    rcases htx with ⟨rfl, rfl, rfl⟩
    rw [List.append_nil]
    refine henter.quiet (l := .handler 0 []) ?_ trivial rfl
    rw [step, atHandler, handlerStmt, if_neg hunknown, if_pos hgone, Option.map_some]
    rfl
  rw [if_neg hgone] at htx
  rcases Option.map_eq_some_iff.mp htx with ⟨⟨ps, u⟩, hloop, heq⟩
  rw [Prod.mk.injEq, Prod.mk.injEq] at heq
  rcases heq with ⟨rfl, rfl, rfl⟩
  -- The loop runs or is passed by, and the handler goes on to receive.
  have hreceive : Reaches init (atHandler u isr' .receive) acc (rec ++ ps) := by
    by_cases htype : isr' &&& TxOK ≠ 0 ∨ isr' &&& TxErr ≠ 0
    · rw [if_pos htype] at hloop
      have hguard : Reaches init (atHandler d isr' .guardCur) acc rec := by
        refine henter.quiet (l := .handler 0 []) ?_ trivial rfl
        rw [step, atHandler, handlerStmt, if_neg hunknown, if_neg hgone, if_pos htype,
          Option.map_some]
        rfl
      exact hguard.loop fuel 0 d rec ps hloop
    · rw [if_neg htype, Option.some.injEq, Prod.mk.injEq] at hloop
      rcases hloop with ⟨rfl, rfl⟩
      rw [List.append_nil]
      refine henter.quiet (l := .handler 0 []) ?_ trivial rfl
      rw [step, atHandler, handlerStmt, if_neg hunknown, if_neg hgone, if_neg htype,
        Option.map_some]
      rfl
  refine hreceive.quiet (l := .handler 0 received) ?_ trivial rfl
  rw [step, atHandler, handlerStmt, Option.map_some]
  by_cases hrx : isr' &&& RxOK ≠ 0
  · rw [if_pos hrx, if_pos (decide_eq_true hrx)]
    rfl
  · rw [if_neg hrx, if_neg (by rw [decide_eq_true_eq]; exact hrx)]
    rfl

/-- A run of whole calls and interrupts is a run of their statements, with the
    same packets handed over and reclaimed. -/
theorem run_expanded {h : History (Dev α) (Transmit.Step α)}
    (hr : Run Transmit.step init h d) :
    ∃ isr, Reaches init (atXmit d isr .idle) (Transmit.accepted h) (Transmit.reclaimed h) := by
  induction hr with
  | start => exact ⟨0, [], .start, trivial, rfl, rfl⟩
  | next l hr hs ih =>
      rcases ih with ⟨isr, ih⟩
      cases l with
      | startXmit skb len =>
          simp only [Transmit.step, Option.ite_none_left_eq_some, Option.some.injEq,
            Bool.not_eq_true] at hs
          rcases hs with ⟨hruns, rfl⟩
          have hcall := ih.startXmit skb len hruns
          refine ⟨isr, ?_⟩
          by_cases hlen : len < TX_BUF_SIZE
          · have hev : ∀ d : Dev α, Transmit.event (d, .startXmit skb len) =
                some (.put [((d.entry : Int), some skb)]) := fun d => if_pos hlen
            rw [if_pos hlen] at hcall
            simp only [Transmit.accepted, Transmit.reclaimed, Transmit.events,
              List.filterMap_cons_some (hev _), Fifo.accepted, Fifo.returned]
            exact hcall
          · have hev : ∀ d : Dev α, Transmit.event (d, .startXmit skb len) = none :=
              fun d => if_neg hlen
            rw [if_neg hlen, List.append_nil] at hcall
            simp only [Transmit.accepted, Transmit.reclaimed, Transmit.events,
              List.filterMap_cons_none (hev _)]
            exact hcall
      | interrupt isr' tsd received =>
          rcases Option.map_eq_some_iff.mp hs with ⟨⟨rs, q⟩, hcall, rfl⟩
          refine ⟨isr', ?_⟩
          have hev : ∀ d, rtl8139Interrupt isr' tsd NUM_TX_DESC received d = some (rs, q) →
              Transmit.event (d, .interrupt isr' tsd received) = some (.get rs) := by
            intro d hd
            rw [Transmit.event, hd, Option.map_some]
          simp only [Transmit.accepted, Transmit.reclaimed, Transmit.events,
            List.filterMap_cons_some (hev _ hcall), Fifo.accepted, Fifo.returned]
          exact ih.interrupt hcall

end Alone

end Concurrent

end Rtl8139

end KernelModules
