import KernelModules.Lib.Fifo
import KernelModules.Rtl8139.Device

/-!
# Transmit Descriptors

Runs of `start_xmit` and interrupts, with any answers of the TSD registers.
The stack calls `start_xmit` while the queue runs.

The four descriptors are a ring between `dirty_tx` and `cur_tx`. Equal
indices mean an empty ring or a full one, and the queue tells which: it is
stopped by the packet that fills the ring, and woken by the one that empties
it. So a stopped queue with equal indices is a full ring, and the number of
packets with the card is a function of the indices and the queue (`pending`).

With that number the driver is a bounded queue (`simulates_fifo`). A packet
is put in with its descriptor, an interrupt takes out what it reclaims, and
the library's conservation law gives the order and that nothing is lost.

## Main definitions

* `Dev.Ok`, `Dev.Started`: The indices are descriptors, and the first one.
* `Dev.pending`, `Dev.queue`: The packets with the card.
* `Step`, `step`: The calls and interrupts.
* `events`, `accepted`, `reclaimed`, `outstanding`: What the history says.
* `leading`: How many answers in a row conclude.
* `TxLaw`: The law of the descriptors.

## Theorems

* `reclaimLoop_queue`: The loop takes packets from the front of the queue.
* `reclaimLoop_takes`: It ends after at most four iterations, and takes the
  packets whose answers conclude.
* `interrupt_queue`, `interrupt_takes`: The same for the handler.
* `simulates_fifo`: Every run is a run of a queue of four.
* `run_txLaw`: The law holds at the end of every run.
-/

namespace KernelModules

namespace Rtl8139

open Lib

variable {α : Type*}

/-- The indices are descriptors. -/
structure Dev.Ok (d : Dev α) : Prop where
  curTx : d.curTx < NUM_TX_DESC
  dirtyTx : d.dirtyTx < NUM_TX_DESC

/-- Both indices are at the first descriptor, and the queue runs. -/
structure Dev.Started (d : Dev α) : Prop where
  curTx : d.curTx = 0
  dirtyTx : d.dirtyTx = 0
  queueStopped : d.queueStopped = false

/-- How many packets the card has. -/
def Dev.pending (d : Dev α) : Nat :=
  if d.queueStopped = true ∧ d.dirtyTx = d.curTx then NUM_TX_DESC
  else Ring.span NUM_TX_DESC d.dirtyTx d.curTx

/-- The packets that the card has, in the order in which it got them. -/
def Dev.queue (d : Dev α) : List (Int × Option α) :=
  Ring.window NUM_TX_DESC d.slot d.dirtyTx d.pending

/-- How many of the next `n` answers conclude before one that does not. -/
def leading (tsd : Nat → BitVec 32) : (i n : Nat) → Nat
  | _, 0 => 0
  | i, n + 1 => if Concluded (tsd i) then leading tsd (i + 1) n + 1 else 0

section Queue

variable {d d' : Dev α}

/-- Descriptors are counted as the ring counts its slots. -/
theorem desc_add {i n : Nat} (hi : i < NUM_TX_DESC) (hn : n ≤ NUM_TX_DESC) :
    (((i + n) % NUM_TX_DESC : Nat) : Int) = Ring.wrap NUM_TX_DESC (i + n) := by
  unfold Ring.wrap
  by_cases hwrap : i + n < NUM_TX_DESC
  · rw [if_pos (by omega), Nat.mod_eq_of_lt hwrap, Int.natCast_add]
  · rw [if_neg (by omega), Nat.mod_eq_sub_mod (by omega), Nat.mod_eq_of_lt (by omega)]
    omega

/-- The number of packets is what leads from the one index to the other, and
    the stack's queue tells no packets from four. -/
theorem Dev.Ok.pending_eq_iff (hd : d.Ok) {n : Nat} : d.pending = n ↔
    (d.dirtyTx + n) % NUM_TX_DESC = d.curTx ∧ n ≤ NUM_TX_DESC ∧
      (d.queueStopped = true → n ≠ 0) ∧ (d.queueStopped = false → n ≠ NUM_TX_DESC) := by
  have hcur := hd.curTx
  have hdirty := hd.dirtyTx
  simp only [NUM_TX_DESC] at *
  cases hstopped : d.queueStopped with
  | true =>
      simp only [Dev.pending, hstopped, true_and, true_implies, Bool.true_eq_false,
        false_implies, and_true, NUM_TX_DESC, Ring.span]
      split
      · omega
      · split <;> omega
  | false =>
      simp only [Dev.pending, hstopped, Bool.false_eq_true, false_and, if_false, false_implies,
        true_implies, true_and, NUM_TX_DESC, Ring.span]
      split <;> omega

theorem Dev.Ok.pending_le (hd : d.Ok) : d.pending ≤ NUM_TX_DESC := (hd.pending_eq_iff.mp rfl).2.1

/-- The guard of the loop asks for a packet that the card has. -/
theorem Dev.Ok.unreclaimed_iff (hd : d.Ok) : d.Unreclaimed ↔ d.pending ≠ 0 := by
  rw [ne_eq, hd.pending_eq_iff, Nat.add_zero, Nat.mod_eq_of_lt hd.dirtyTx, Dev.Unreclaimed]
  constructor
  · rintro (hne | hstopped) hempty
    · exact hne hempty.1
    · exact hempty.2.2.1 hstopped rfl
  · intro hpending
    by_contra hnone
    rcases not_or.mp hnone with ⟨heq, hruns⟩
    refine hpending ⟨not_not.mp heq, by decide, fun hstopped => absurd hstopped hruns, ?_⟩
    exact fun _ => by decide

/-- A concluded transmission is the first of the queue, and leaves the rest. -/
theorem reclaimOne_queue {txstatus : BitVec 32} (hd : d.Ok) (hpos : d.pending ≠ 0)
    (h : (reclaimOne txstatus d).1 = true) : (reclaimOne txstatus d).2.Ok ∧
      (reclaimOne txstatus d).2.pending + 1 = d.pending ∧
      d.queue = d.slot d.dirtyTx :: (reclaimOne txstatus d).2.queue := by
  have hdirty := hd.dirtyTx
  rcases reclaimOne_kept txstatus d with ⟨hcur', hbuf', _⟩
  rcases reclaimOne_passes h with ⟨hdirty', hstopped'⟩
  rcases hd.pending_eq_iff.mp rfl with ⟨hlead, hle, _, hruns⟩
  have hok : (reclaimOne txstatus d).2.Ok := by
    refine ⟨by rw [hcur']; exact hd.curTx, ?_⟩
    rw [hdirty']
    exact Nat.mod_lt _ (by decide)
  have hpending : (reclaimOne txstatus d).2.pending = d.pending - 1 := by
    rw [hok.pending_eq_iff, hdirty', hcur', ← Bool.not_eq_true, hstopped']
    simp only [NUM_TX_DESC] at *
    refine ⟨by omega, by omega, ?_, by omega⟩
    -- The queue stays stopped only if this was not the last packet.
    rintro ⟨_, hne⟩
    omega
  refine ⟨hok, by omega, ?_⟩
  have hslot : (reclaimOne txstatus d).2.slot = d.slot := by
    unfold Dev.slot
    rw [hbuf']
  have hnext : ((reclaimOne txstatus d).2.dirtyTx : Int) =
      Ring.wrap NUM_TX_DESC ((d.dirtyTx : Int) + 1) := by
    rw [hdirty', desc_add hd.dirtyTx (by decide), Int.natCast_one]
  rw [Dev.queue, Dev.queue, hslot, hnext, hpending]
  have hfirst : (d.dirtyTx : Int) < NUM_TX_DESC := by omega
  have hsplit := Ring.window_succ (k := d.pending - 1) d.slot hfirst (by omega)
  rw [Nat.sub_add_cancel (by omega)] at hsplit
  exact hsplit

/-- A device that agrees with another on the transmit side has its queue. -/
theorem Dev.SameTx.queue (h : d.SameTx d') : d'.queue = d.queue := by
  have hslot : d'.slot = d.slot := by
    unfold Dev.slot
    rw [h.txBuf]
  simp only [Dev.queue, Dev.pending, hslot, h.curTx, h.dirtyTx, h.queueStopped]

theorem Dev.SameTx.ok (h : d.SameTx d') (hd : d.Ok) : d'.Ok :=
  ⟨by rw [h.curTx]; exact hd.curTx, by rw [h.dirtyTx]; exact hd.dirtyTx⟩

/-- A packet that the card still has stays in the queue. -/
theorem reclaimOne_stays {txstatus : BitVec 32} (hd : d.Ok)
    (h : (reclaimOne txstatus d).1 = false) : (reclaimOne txstatus d).2.Ok ∧
      d.queue = (reclaimOne txstatus d).2.queue := by
  rcases reclaimOne_kept txstatus d with ⟨hcur, hbuf, _⟩
  rcases reclaimOne_waits h with ⟨hdirty, hstopped⟩
  have hsame : d.SameTx (reclaimOne txstatus d).2 := ⟨hcur, hdirty, hbuf, hstopped⟩
  exact ⟨hsame.ok hd, hsame.queue.symm⟩

/-- What the loop reclaims is the front of the queue, and the rest stays. -/
theorem reclaimLoop_queue {tsd : Nat → BitVec 32} (fuel : Nat) :
    ∀ (i : Nat) (d : Dev α) (rs : List (Int × Option α)), d.Ok →
      reclaimLoop tsd fuel i d = some (rs, d') → d'.Ok ∧ d.queue = rs ++ d'.queue := by
  induction fuel with
  | zero =>
      intro i d rs hd h
      rcases reclaimLoop_zero h with ⟨rfl, rfl⟩
      exact ⟨hd, rfl⟩
  | succ fuel ih =>
      intro i d rs hd h
      rcases reclaimLoop_succ h with ⟨rfl, rfl⟩ | ⟨hwaits, rfl, rfl⟩ |
        ⟨hguard, hpasses, qs, rfl, hq⟩
      · exact ⟨hd, rfl⟩
      · exact reclaimOne_stays hd hwaits
      · rcases reclaimOne_queue hd (hd.unreclaimed_iff.mp hguard) hpasses with ⟨hok, _, hqueue⟩
        rcases ih (i + 1) _ qs hok hq with ⟨hok', hrest⟩
        exact ⟨hok', by rw [hqueue, hrest, List.cons_append]⟩

/-- The loop ends after an iteration for each packet at most, whatever the
    registers answer, and goes past the packets whose answers conclude. -/
theorem reclaimLoop_takes (tsd : Nat → BitVec 32) (fuel : Nat) : ∀ (i : Nat) (d : Dev α), d.Ok →
    d.pending ≤ fuel →
      ∃ d', reclaimLoop tsd fuel i d = some (d.queue.take (leading tsd i d.pending), d') := by
  have hempty : ∀ (fuel i : Nat) (d : Dev α), d.Ok → d.pending = 0 →
      ∃ d', reclaimLoop tsd fuel i d = some (d.queue.take (leading tsd i d.pending), d') := by
    intro fuel i d hd hnone
    refine ⟨d, ?_⟩
    rw [reclaimLoop_done tsd fuel i (mt hd.unreclaimed_iff.mp (not_not.mpr hnone)), hnone, leading,
      List.take_zero]
  -- A packet less is left to each later iteration.
  induction fuel with
  | zero =>
      intro i d hd hfuel
      exact hempty 0 i d hd (Nat.le_zero.mp hfuel)
  | succ fuel ih =>
      intro i d hd hfuel
      by_cases hnone : d.pending = 0
      · exact hempty (fuel + 1) i d hd hnone
      rw [reclaimLoop, if_pos (hd.unreclaimed_iff.mpr hnone)]
      by_cases hconcluded : Concluded (tsd i)
      · have hpasses := (reclaimOne_concluded (tsd i) d).mpr hconcluded
        rcases reclaimOne_queue hd hnone hpasses with ⟨hok, hless, hqueue⟩
        rcases ih (i + 1) _ hok (by omega) with ⟨d', hrest⟩
        refine ⟨d', ?_⟩
        rw [← hless, leading, if_pos hconcluded, hqueue, List.take_succ_cons]
        simp only [if_pos hpasses, hrest, Option.map_some]
      · have hwaits := mt (reclaimOne_concluded (tsd i) d).mp hconcluded
        rcases Nat.exists_eq_succ_of_ne_zero hnone with ⟨k, hk⟩
        refine ⟨(reclaimOne (tsd i) d).2, ?_⟩
        rw [hk, leading, if_neg hconcluded, List.take_zero]
        simp only [if_neg hwaits]

/-- The handler ends, and takes the packets whose answers conclude if the
    interrupt is one of the transmitter. -/
theorem interrupt_takes (isr : BitVec 16) (tsd : Nat → BitVec 32)
    (received : List ((Nat → BitVec 32) × Bool)) (hd : d.Ok) :
    ∃ d', rtl8139Interrupt isr tsd NUM_TX_DESC received d =
      some (if Reclaims isr then d.queue.take (leading tsd 0 d.pending) else [], d') := by
  have htx : ∃ t receive, interruptTx isr tsd NUM_TX_DESC d =
      some (if Reclaims isr then d.queue.take (leading tsd 0 d.pending) else [], t, receive) := by
    unfold interruptTx
    by_cases hknown : isr &&& INT_MASK = 0
    · have hother : ¬ Reclaims isr := fun h => h.1 hknown
      rw [if_pos hknown, if_neg hother]
      exact ⟨d, false, rfl⟩
    by_cases hgone : isr = 0xFFFF
    · have hother : ¬ Reclaims isr := fun h => h.2.1 hgone
      rw [if_neg hknown, if_pos hgone, if_neg hother]
      exact ⟨d, false, rfl⟩
    rw [if_neg hknown, if_neg hgone]
    by_cases htype : isr &&& TxOK ≠ 0 ∨ isr &&& TxErr ≠ 0
    · have hreclaims : Reclaims isr := ⟨hknown, hgone, htype⟩
      rcases reclaimLoop_takes tsd NUM_TX_DESC 0 d hd hd.pending_le with ⟨t, hloop⟩
      rw [if_pos htype, hloop, if_pos hreclaims]
      exact ⟨t, _, rfl⟩
    · have hother : ¬ Reclaims isr := fun h => htype h.2.2
      rw [if_neg htype, if_neg hother]
      exact ⟨d, _, rfl⟩
  rcases htx with ⟨t, receive, htx⟩
  rw [rtl8139Interrupt, htx]
  exact ⟨_, rfl⟩

/-- What the handler reclaims is the front of the queue. -/
theorem interrupt_queue {isr : BitVec 16} {tsd : Nat → BitVec 32} {fuel : Nat}
    {received : List ((Nat → BitVec 32) × Bool)} {rs : List (Int × Option α)} (hd : d.Ok)
    (hcall : rtl8139Interrupt isr tsd fuel received d = some (rs, d')) :
    d'.Ok ∧ d.queue = rs ++ d'.queue := by
  rcases rtl8139Interrupt_tx hcall with ⟨t, receive, htx, hsame⟩
  have hreclaimed : t.Ok ∧ d.queue = rs ++ t.queue := by
    rcases interruptTx_cases htx with ⟨rfl, rfl⟩ | ⟨_, hloop⟩
    · exact ⟨hd, rfl⟩
    · exact reclaimLoop_queue fuel 0 d rs hd hloop
  rw [hsame.queue]
  exact ⟨hsame.ok hreclaimed.1, hreclaimed.2⟩

/-- The slot behind the last packet is the next descriptor. -/
theorem Dev.Ok.wrap_pending (hd : d.Ok) :
    Ring.wrap NUM_TX_DESC ((d.dirtyTx : Int) + d.pending) = d.curTx := by
  rw [← desc_add hd.dirtyTx hd.pending_le, (hd.pending_eq_iff.mp rfl).1]

theorem Dev.Ok.entry (hd : d.Ok) : d.entry = d.curTx := Nat.mod_eq_of_lt hd.curTx

/-- While the queue of the stack runs, there is room for a packet. -/
theorem Dev.Ok.pending_lt (hd : d.Ok) (hruns : d.queueStopped = false) :
    d.pending < NUM_TX_DESC :=
  Nat.lt_of_le_of_ne hd.pending_le ((hd.pending_eq_iff.mp rfl).2.2.2 hruns)

/-- A packet that is not too long goes to the end of the queue. -/
theorem startXmit_queue (skb : α) {len : Nat} (hd : d.Ok) (hruns : d.queueStopped = false)
    (hlen : len < TX_BUF_SIZE) : (rtl8139StartXmit skb len d).Ok ∧
      (rtl8139StartXmit skb len d).queue = d.queue ++ [((d.entry : Int), some skb)] := by
  have hcur := hd.curTx
  have hdirty := hd.dirtyTx
  have hlt := hd.pending_lt hruns
  rcases hd.pending_eq_iff.mp rfl with ⟨hlead, _, _, _⟩
  rcases startXmit_accepts skb d hlen with ⟨hcur', hdirty', hbuf, hstopped'⟩
  rw [hruns, or_iff_right Bool.false_ne_true] at hstopped'
  have hok : (rtl8139StartXmit skb len d).Ok := by
    refine ⟨?_, by rw [hdirty']; exact hdirty⟩
    rw [hcur']
    exact Nat.mod_lt _ (by decide)
  have hpending : (rtl8139StartXmit skb len d).pending = d.pending + 1 := by
    rw [hok.pending_eq_iff, hcur', hdirty', ← Bool.not_eq_true, hstopped']
    simp only [NUM_TX_DESC] at *
    omega
  have hslot : (rtl8139StartXmit skb len d).slot =
      Function.update d.slot d.entry ((d.entry : Int), some skb) := by
    ext i : 1
    by_cases hi : i = d.entry
    · rw [Dev.slot, hbuf, hi, Function.update_self, Function.update_self]
    · rw [Dev.slot, hbuf, Function.update_of_ne hi, Function.update_of_ne hi, Dev.slot]
  refine ⟨hok, ?_⟩
  have hstore := Ring.window_store (n := NUM_TX_DESC) [((d.entry : Int), some skb)] d.slot
    d.dirtyTx d.pending (by omega) (by omega) (by rw [List.length_singleton]; omega)
  rw [hd.wrap_pending, ← hd.entry, Ring.store, Ring.store, List.length_singleton] at hstore
  rw [Dev.queue, hdirty', hpending, hslot]
  exact hstore

/-- The next descriptor is none of those in the queue. -/
theorem Dev.Ok.entry_free (hd : d.Ok) (hruns : d.queueStopped = false) :
    ∀ p ∈ d.queue, p.1 ≠ d.entry := by
  have hlt := hd.pending_lt hruns
  intro p hp
  rcases List.mem_map.mp hp with ⟨k, hk, rfl⟩
  rw [hd.entry, ← hd.wrap_pending]
  exact Ring.wrap_add_ne (List.mem_range.mp hk) (by omega)

end Queue

namespace Transmit

/-- A packet of some length, or an interrupt. -/
inductive Step (α : Type*) where
  | startXmit (skb : α) (len : Nat)
  | interrupt (isr : BitVec 16) (tsd : Nat → BitVec 32)
      (received : List ((Nat → BitVec 32) × Bool))

/-- The reclaim loop has fuel for an iteration for each descriptor. -/
def step : Step α → Dev α → Option (Dev α)
  | .startXmit skb len, d => if d.queueStopped then none else some (rtl8139StartXmit skb len d)
  | .interrupt isr tsd received, d =>
    (rtl8139Interrupt isr tsd NUM_TX_DESC received d).map Prod.snd

/-- What a step is to the queue of packets with the card: a packet that is not
    too long is put in with its descriptor, and what an interrupt reclaims is
    taken out. -/
def event : Dev α × Step α → Option (Fifo.Event (Int × Option α))
  | (d, .startXmit skb len) => if len < TX_BUF_SIZE then some (.put [(d.entry, some skb)]) else none
  | (d, .interrupt isr tsd received) =>
    (rtl8139Interrupt isr tsd NUM_TX_DESC received d).map fun r => .get r.1

/-- The history of a run as the queue sees it. -/
def events (h : History (Dev α) (Step α)) : List (Fifo.Event (Int × Option α)) := h.filterMap event

/-- The packets accepted so far, each with its descriptor. -/
def accepted (h : History (Dev α) (Step α)) : List (Int × Option α) := Fifo.accepted (events h)

/-- The packets reclaimed so far. -/
def reclaimed (h : History (Dev α) (Step α)) : List (Int × Option α) := Fifo.returned (events h)

/-- The packets accepted after those that were reclaimed. -/
def outstanding (h : History (Dev α) (Step α)) : List (Int × Option α) :=
  (accepted h).drop (reclaimed h).length

/-- The law of the descriptors, for a run that ended in `d` with history `h`. -/
structure TxLaw (h : History (Dev α) (Step α)) (d : Dev α) : Prop where
  /-- Each accepted packet is reclaimed once and in order, or is outstanding. -/
  inOrder : accepted h = reclaimed h ++ outstanding h
  bounded : (outstanding h).length ≤ NUM_TX_DESC
  /-- While the queue runs, `start_xmit` gets a descriptor whose packet is not
      outstanding. -/
  free : d.queueStopped = false → ∀ p ∈ outstanding h, p.1 ≠ d.entry
  stopped : d.queueStopped = true → outstanding h ≠ []
  /-- The reclaim loop ends after at most an iteration for each descriptor. -/
  ends : ∀ tsd, (reclaimLoop tsd NUM_TX_DESC 0 d).isSome
  /-- The next interrupt reclaims the first packets outstanding, as many as the
      answers of the TSD registers conclude in a row. -/
  answered : ∀ isr tsd received, ∃ d', rtl8139Interrupt isr tsd NUM_TX_DESC received d =
    some (if Reclaims isr then (outstanding h).take (leading tsd 0 (outstanding h).length) else [],
      d')

section Runs

variable {init d d' : Dev α} {h : History (Dev α) (Step α)}

theorem zeroed_started : (Dev.zeroed : Dev α).Started := ⟨rfl, rfl, rfl⟩

/-- The card has nothing at the start. -/
theorem started_ok (hinit : init.Started) : init.Ok ∧ init.queue = [] := by
  have hok : init.Ok := by
    refine ⟨?_, ?_⟩
    · rw [hinit.curTx]
      exact Nat.zero_lt_succ 3
    · rw [hinit.dirtyTx]
      exact Nat.zero_lt_succ 3
  have hpending : init.pending = 0 := by
    rw [hok.pending_eq_iff, hinit.curTx, hinit.dirtyTx, hinit.queueStopped]
    decide
  refine ⟨hok, ?_⟩
  rw [Dev.queue, hpending]
  exact Ring.window_zero _ _

/-- What a step does to the queue is what its event says. -/
theorem step_queue [DecidableEq α] {l : Step α} (hd : d.Ok) (hstep : step l d = some d') :
    d'.Ok ∧ ((event (d, l) = none ∧ d'.queue = d.queue) ∨
      ∃ e, event (d, l) = some e ∧ Fifo.step NUM_TX_DESC e d.queue = some d'.queue) := by
  cases l with
  | startXmit skb len =>
      simp only [step, Option.ite_none_left_eq_some, Option.some.injEq, Bool.not_eq_true] at hstep
      rcases hstep with ⟨hruns, rfl⟩
      by_cases hlen : len < TX_BUF_SIZE
      · rcases startXmit_queue skb hd hruns hlen with ⟨hok, hqueue⟩
        refine ⟨hok, .inr ⟨_, if_pos hlen, Fifo.step_put.mpr ⟨?_, hqueue⟩⟩⟩
        rw [Dev.queue, Ring.window_length, List.length_singleton]
        exact hd.pending_lt hruns
      · rw [rtl8139StartXmit, if_neg hlen]
        exact ⟨hd, .inl ⟨if_neg hlen, rfl⟩⟩
  | interrupt isr tsd received =>
      rcases Option.map_eq_some_iff.mp hstep with ⟨⟨rs, q⟩, hcall, heq⟩
      cases heq
      rcases interrupt_queue hd hcall with ⟨hok, hqueue⟩
      refine ⟨hok, .inr ⟨.get rs, ?_, Fifo.step_get.mpr hqueue⟩⟩
      rw [event, hcall, Option.map_some]

theorem run_ok (hinit : init.Started) (hr : Run step init h d) : d.Ok := by
  classical
  exact hr.invariant Dev.Ok (started_ok hinit).1 fun _ _ _ hd hstep => (step_queue hd hstep).1

/-- Every run is a run of the queue machine of capacity four that emits the
    same events and ends with the packets that the card has. -/
theorem simulates_fifo [DecidableEq α] (hinit : init.Started) (hr : Run step init h d) :
    ∃ hq, Run (Fifo.step NUM_TX_DESC) [] hq d.queue ∧ Fifo.events hq = events h := by
  rw [← (started_ok hinit).2]
  refine hr.simulate Dev.queue event ?_
  intro h d l d' hr hstep
  exact (step_queue (run_ok hinit hr) hstep).2

/-- The packets outstanding by the history are those in the queue. -/
theorem outstanding_eq (hinit : init.Started) (hr : Run step init h d) :
    accepted h = reclaimed h ++ d.queue ∧ outstanding h = d.queue := by
  classical
  rcases simulates_fifo hinit hr with ⟨hq, hrq, hev⟩
  have hcons := Fifo.conservation hrq
  rw [hev] at hcons
  exact ⟨hcons, by rw [outstanding, accepted, reclaimed, hcons, List.drop_left]⟩

/-- The law of the descriptors holds at the end of every run. -/
theorem run_txLaw (hinit : init.Started) (hr : Run step init h d) : TxLaw h d := by
  have hd := run_ok hinit hr
  rcases outstanding_eq hinit hr with ⟨hcons, hout⟩
  refine ⟨?_, ?_, ?_, ?_, ?_, ?_⟩
  · rw [hout]
    exact hcons
  · rw [hout, Dev.queue, Ring.window_length]
    exact hd.pending_le
  · intro hruns
    rw [hout]
    exact hd.entry_free hruns
  · intro hstopped hnone
    rw [hout, Dev.queue] at hnone
    have hlength := congrArg List.length hnone
    rw [Ring.window_length] at hlength
    exact (hd.pending_eq_iff.mp rfl).2.2.1 hstopped hlength
  · intro tsd
    rcases reclaimLoop_takes tsd NUM_TX_DESC 0 d hd hd.pending_le with ⟨d', hloop⟩
    rw [hloop, Option.isSome_some]
  · intro isr tsd received
    have hlength : d.queue.length = d.pending := Ring.window_length _ _ _
    rw [hout, hlength]
    exact interrupt_takes isr tsd received hd

/-- Four packets fill the ring, two of them are concluded, and the queue is
    still stopped. -/
theorem run_txLaw_partial : ∃ (h : History (Dev Nat) (Step Nat)) (d : Dev Nat), TxLaw h d ∧
    (reclaimed h).length = 2 ∧ d.queueStopped = true := by
  rcases exists_run_of_exec step (Dev.zeroed : Dev Nat)
    [.startXmit 10 60, .startXmit 11 60, .startXmit 12 2000, .startXmit 13 60, .startXmit 14 60,
      .interrupt TxOK (fun i => if i < 2 then TxStatOK else 0x2000) []]
    (fun h d => (reclaimed h).length = 2 ∧ d.queueStopped = true) (by decide) with ⟨h, d, hr, hp⟩
  exact ⟨h, d, run_txLaw zeroed_started hr, of_decide_eq_true hp⟩

end Runs

end Transmit

end Rtl8139

end KernelModules
