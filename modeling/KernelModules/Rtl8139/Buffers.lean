import KernelModules.Kernel.Memory
import KernelModules.Lib.Table
import KernelModules.Rtl8139.Transmit

/-!
# What the Card Finds in the Transmit Buffers

The transmit buffers byte by byte. `rtl8139_open` cuts one coherent allocation
into four buffers and `rtl8139_hardware_start` tells the card where they are,
by their bus addresses in TSAD0 to TSAD3; `start_xmit` copies a packet to the
buffer of its descriptor and writes the number of bytes to the descriptor's
TSD register. The card reads the packet some time later, when other packets
may have been handed over. A stop frees the allocation, and the next open
makes another one anywhere.

`Transmit` keeps for each descriptor the packet last copied to it. Here that
is refined to the memory: whatever has happened since, the card reads for an
outstanding packet the bytes that the stack handed over, and the driver writes
nothing outside its allocation. Two facts carry this. A packet that is not too
long fits in a buffer, so packets in different descriptors are in different
places; and the next descriptor is none of those outstanding. That an open
does not set `cur_tx` back does no harm here: the descriptors before it are
without packets.

An Ethernet frame has 60 bytes at least, so the driver asks the card for that
many. The bytes behind a shorter packet are those that were in its buffer
before.

The card has 32 address lines. The kernel allocates coherent memory below 4
GiB unless a driver asks for more, which this one does not. In the source the
write of the TSD register stands in a comment, which is closed behind it only;
it is taken for the statement that the comment describes.

## Main definitions

* `Dma`: The allocation, the buffers in it, and the TSAD and TSD registers.
* `openTxBuf`, `hardwareStart`: The two loops over the descriptors.
* `Sys`, `Step`, `step`: The driver with its memory.
* `cardReads`: What the card reads for a descriptor.
* `handed`, `returned`, `outstanding`: What the history says of the packets.
* `Sent`: The law.

## Theorems

* `opened_laid`: The buffers, and their bus addresses.
* `copied_kept`: A copy to one buffer leaves the others alone.
* `step_held`: What a step keeps.
* `run_sent`: The law holds at the end of every run.
-/

namespace KernelModules

namespace Rtl8139

namespace Buffers

open Kernel Lib

/-- A packet, as the bytes of `skb->data`. -/
abbrev Packet := List UInt8

def ETH_MIN_LEN : Nat := 60
def TOTAL_TX_BUF_SIZE : Nat := TX_BUF_SIZE * NUM_TX_DESC

/-- `tx_bufs` with its bus address, `tx_buf`, and what the driver wrote to the
    TSAD and TSD registers of the card. -/
structure Dma where
  txBufs : BitVec 64
  txBufsDma : BitVec 64
  txBuf : Nat → BitVec 64
  tsad : Nat → BitVec 32
  tsd : Nat → BitVec 32

/-- The loop of `rtl8139_open` over the buffers. -/
def Dma.openTxBuf (p : Dma) : Dma :=
  { p with
    txBuf := (List.range NUM_TX_DESC).foldl
      (fun b i => Function.update b i (p.txBufs + BitVec.ofNat 64 (i * TX_BUF_SIZE))) p.txBuf }

/-- The loop of `rtl8139_hardware_start` over the TSAD registers, which are 32
    bits wide. -/
def Dma.hardwareStart (p : Dma) : Dma :=
  { p with
    tsad := (List.range NUM_TX_DESC).foldl
      (fun r i => Function.update r i ((p.txBufsDma + (p.txBuf i - p.txBufs)).setWidth 32))
      p.tsad }

/-- The part of `rtl8139_open` behind the allocation. -/
def Dma.opened (p : Dma) : Dma := p.openTxBuf.hardwareStart

/-- The driver, its buffers, the memory, and whether the interface is up. -/
structure Sys where
  dev : Dev Packet
  dma : Dma
  mem : Memory
  up : Bool

/-- An open comes with its allocation and with the memory as it is then. -/
inductive Step where
  | openDevice (txBufs txBufsDma : BitVec 64) (m : Memory)
  | startXmit (skb : Packet)
  | interrupt (isr : BitVec 16) (tsd : Nat → BitVec 32)
      (received : List ((Nat → BitVec 32) × Bool))
  | stop

/-- What `start_xmit` does to memory: the copy to the buffer of the descriptor. -/
def copied (s : Sys) (skb : Packet) : Memory :=
  if skb.length < TX_BUF_SIZE then s.mem.stores (s.dma.txBuf s.dev.entry) skb else s.mem

/-- What it writes to the card: `max(skb->len, ETH_MIN_LEN)` to the TSD register
    of the descriptor. -/
def told (s : Sys) (skb : Packet) : Dma :=
  if skb.length < TX_BUF_SIZE then
    { s.dma with
      tsd := Function.update s.dma.tsd s.dev.entry (BitVec.ofNat 32 (max skb.length ETH_MIN_LEN)) }
  else s.dma

/-- The stack calls `start_xmit` while the interface is up and its queue runs.
    An interrupt does not write to the buffers. -/
def step : Step → Sys → Option Sys
  | .openDevice txBufs txBufsDma m, s =>
    if s.up = false ∧ txBufsDma.toNat + TOTAL_TX_BUF_SIZE ≤ 2 ^ 32 then
      some { dev := rtl8139Open s.dev
             dma := { s.dma with txBufs := txBufs, txBufsDma := txBufsDma }.opened
             mem := m
             up := true }
    else none
  | .startXmit skb, s =>
    if s.up = true ∧ s.dev.queueStopped = false then
      some { s with
        dev := rtl8139StartXmit skb skb.length s.dev
        dma := told s skb
        mem := copied s skb }
    else none
  | .interrupt isr tsd received, s =>
    if s.up = true then
      (rtl8139Interrupt isr tsd NUM_TX_DESC received s.dev).map fun r => { s with dev := r.2 }
    else none
  | .stop, s =>
    if s.up = true then
      some { s with dev := rtl8139Stop s.dev, dma := { s.dma with txBufs := 0 }, up := false }
    else none

/-- The packets among what is in some descriptors. -/
def packets (q : List (Int × Option Packet)) : List (Int × Packet) :=
  q.filterMap fun p => p.2.map fun skb => (p.1, skb)

/-- The packets handed to the card since the interface came up, each with its
    descriptor. -/
def handed : History Sys Step → List (Int × Packet)
  | (s, .startXmit skb) :: h =>
    if skb.length < TX_BUF_SIZE then handed h ++ [((s.dev.entry : Int), skb)] else handed h
  | (_, .interrupt _ _ _) :: h => handed h
  | [] | (_, .openDevice _ _ _) :: _ | (_, .stop) :: _ => []

/-- The packets of which the interrupts since then have said that the card is
    done with them. -/
def returned : History Sys Step → List (Int × Packet)
  | (s, .interrupt isr tsd received) :: h =>
    returned h ++
      match rtl8139Interrupt isr tsd NUM_TX_DESC received s.dev with
      | some r => packets r.1
      | none => []
  | (_, .startXmit _) :: h => returned h
  | [] | (_, .openDevice _ _ _) :: _ | (_, .stop) :: _ => []

/-- The packets that the card has. -/
def outstanding (h : History Sys Step) : List (Int × Packet) := (handed h).drop (returned h).length

/-- The buffers lie behind one another, and the registers have their bus
    addresses. -/
structure Dma.Laid (p : Dma) : Prop where
  low : p.txBufsDma.toNat + TOTAL_TX_BUF_SIZE ≤ 2 ^ 32
  txBuf : ∀ i < NUM_TX_DESC, p.txBuf i = p.txBufs + BitVec.ofNat 64 (i * TX_BUF_SIZE)
  tsad : ∀ i < NUM_TX_DESC,
    p.tsad i = (p.txBufsDma + BitVec.ofNat 64 (i * TX_BUF_SIZE)).setWidth 32

/-- A packet is in the buffer of its descriptor, and the card has been told its
    size. -/
def Placed (s : Sys) (p : Int × Packet) : Prop :=
  ∃ i : Nat, i < NUM_TX_DESC ∧ p.1 = i ∧ p.2.length < TX_BUF_SIZE ∧
    s.dma.tsd i = BitVec.ofNat 32 (max p.2.length ETH_MIN_LEN) ∧
      s.mem.loads (s.dma.txBuf i) p.2.length = p.2

/-- What the runs keep: the packets with the card are those in the queue, each
    of them in its place. -/
structure Held (h : History Sys Step) (s : Sys) : Prop where
  ok : s.dev.Ok
  laid : s.up = true → s.dma.Laid
  placed : s.up = true → ∀ p ∈ packets s.dev.queue, Placed s p
  counted : handed h = returned h ++ if s.up = true then packets s.dev.queue else []

section Layout

variable {s : Sys} {p : Dma} {i k : Nat}

theorem opened_laid (hlow : p.txBufsDma.toNat + TOTAL_TX_BUF_SIZE ≤ 2 ^ 32) : p.opened.Laid := by
  have hbuf : ∀ i < NUM_TX_DESC,
      p.openTxBuf.txBuf i = p.txBufs + BitVec.ofNat 64 (i * TX_BUF_SIZE) := by
    intro i hi
    simp only [Dma.openTxBuf]
    rw [Table.foldl_update, if_pos hi]
  refine ⟨hlow, hbuf, fun i hi => ?_⟩
  simp only [Dma.opened, Dma.hardwareStart]
  rw [Table.foldl_update, if_pos hi, hbuf i hi, BitVec.add_comm p.txBufs]
  exact congrArg (fun x => (p.txBufsDma + x).setWidth 32) (BitVec.add_sub_cancel _ _)

end Layout

section Packets

variable {d : Dev Packet} {q : List (Int × Option Packet)} {p : Int × Packet}

theorem mem_packets : p ∈ packets q ↔ (p.1, some p.2) ∈ q := by
  rw [packets, List.mem_filterMap]
  constructor
  · rintro ⟨⟨i, skb⟩, hmem, hp⟩
    rcases Option.map_eq_some_iff.mp hp with ⟨skb', hskb, rfl⟩
    rw [show skb = some skb' from hskb] at hmem
    exact hmem
  · intro hmem
    exact ⟨(p.1, some p.2), hmem, rfl⟩

/-- An open leaves no packets in the descriptors. -/
theorem open_packets (d : Dev Packet) : packets (rtl8139Open d).queue = [] := by
  refine List.eq_nil_iff_forall_not_mem.mpr fun p hp => ?_
  rcases List.mem_map.mp (mem_packets.mp hp) with ⟨k, _, hslot⟩
  exact Option.some_ne_none p.2 (congrArg Prod.snd hslot).symm

end Packets

section Runs

variable {p : Dma} {m : Memory} {s s' : Sys} {h : History Sys Step} {skb : Packet}

/-- A place in one buffer is as far from another buffer as that one is long. -/
theorem far_apart {i e k n : Nat} (hlaid : p.Laid) (hi : i < NUM_TX_DESC) (he : e < NUM_TX_DESC)
    (hne : i ≠ e) (hk : k < TX_BUF_SIZE) (hn : n < TX_BUF_SIZE) :
    n ≤ (p.txBuf i + BitVec.ofNat 64 k - p.txBuf e).toNat := by
  have hplace : ∀ j < NUM_TX_DESC, (BitVec.ofNat 64 (j * TX_BUF_SIZE)).toNat = j * TX_BUF_SIZE := by
    intro j hj
    refine Nat.mod_eq_of_lt ?_
    simp only [TX_BUF_SIZE, MAX_ETH_FRAME_SIZE, NUM_TX_DESC] at *
    omega
  have hsmall : (BitVec.ofNat 64 k).toNat = k := by
    refine Nat.mod_eq_of_lt ?_
    simp only [TX_BUF_SIZE, MAX_ETH_FRAME_SIZE] at hk
    omega
  rw [hlaid.txBuf i hi, hlaid.txBuf e he, BitVec.add_assoc, offset_sub_offset]
  refine le_toNat_sub ?_ ?_ ?_ <;> simp only [hplace i hi, hplace e he, hsmall] <;>
    simp only [TX_BUF_SIZE, MAX_ETH_FRAME_SIZE, NUM_TX_DESC] at * <;> omega

theorem length_le (hlen : skb.length < TX_BUF_SIZE) : skb.length ≤ 2 ^ 64 := by
  simp only [TX_BUF_SIZE, MAX_ETH_FRAME_SIZE] at hlen
  omega

theorem entry_lt (d : Dev Packet) : d.entry < NUM_TX_DESC := Nat.mod_lt _ (by decide)

/-- A copy to the next descriptor leaves the other buffers as they are, and
    has the packet in its own. -/
theorem copied_kept (hlaid : s.dma.Laid) (hlen : skb.length < TX_BUF_SIZE) :
    (copied s skb).loads (s.dma.txBuf s.dev.entry) skb.length = skb ∧
      ∀ i n, i < NUM_TX_DESC → i ≠ s.dev.entry → n < TX_BUF_SIZE →
        (copied s skb).loads (s.dma.txBuf i) n = s.mem.loads (s.dma.txBuf i) n := by
  rw [copied, if_pos hlen]
  refine ⟨loads_stores_self s.mem (length_le hlen), fun i n hi hne hn => ?_⟩
  refine loads_stores_of_far s.mem (length_le hlen) fun k hk => ?_
  exact far_apart hlaid hi (entry_lt s.dev) hne (by omega) hlen

/-- An accepted packet gets its place, and the others keep theirs. -/
theorem startXmit_held (hs : Held h s) (hup : s.up = true) (hruns : s.dev.queueStopped = false)
    (hlen : skb.length < TX_BUF_SIZE) :
    Held ((s, .startXmit skb) :: h) { s with
      dev := rtl8139StartXmit skb skb.length s.dev, dma := told s skb, mem := copied s skb } := by
  have hlaid := hs.laid hup
  have hcounted := hs.counted
  rcases copied_kept hlaid hlen with ⟨hself, hothers⟩
  rcases startXmit_queue skb hs.ok hruns hlen with ⟨hok, hqueue⟩
  have htsd : (told s skb).tsd = Function.update s.dma.tsd s.dev.entry
      (BitVec.ofNat 32 (max skb.length ETH_MIN_LEN)) := by
    rw [told, if_pos hlen]
  have htxBuf : (told s skb).txBuf = s.dma.txBuf := by
    rw [told, if_pos hlen]
  have hpackets : packets (rtl8139StartXmit skb skb.length s.dev).queue =
      packets s.dev.queue ++ [((s.dev.entry : Int), skb)] := by
    rw [hqueue, packets, List.filterMap_append]
    rfl
  refine ⟨hok, fun _ => ?_, fun _ p hp => ?_, ?_⟩
  · rw [told, if_pos hlen]
    exact ⟨hlaid.low, hlaid.txBuf, hlaid.tsad⟩
  · rw [hpackets, List.mem_append, List.mem_singleton] at hp
    rcases hp with hold | rfl
    · rcases hs.placed hup p hold with ⟨i, hi, heq, hshort, hsize, hmem⟩
      -- The descriptor of the packet is not the one that is used now.
      have hne : i ≠ s.dev.entry := by
        rintro rfl
        exact hs.ok.entry_free hruns _ (mem_packets.mp hold) heq
      refine ⟨i, hi, heq, hshort, ?_, ?_⟩
      · rw [htsd, Function.update_of_ne hne]
        exact hsize
      · rw [htxBuf, hothers i _ hi hne hshort]
        exact hmem
    · refine ⟨s.dev.entry, entry_lt s.dev, rfl, hlen, ?_, ?_⟩
      · rw [htsd, Function.update_self]
      · rw [htxBuf]
        exact hself
  · rw [if_pos hup] at hcounted ⊢
    rw [handed, if_pos hlen, returned, hpackets, hcounted, List.append_assoc]

/-- Every step keeps the packets with the card where they are. -/
theorem step_held {l : Step} (hs : Held h s) (hstep : step l s = some s') :
    Held ((s, l) :: h) s' := by
  have hcounted := hs.counted
  cases l with
  | openDevice txBufs txBufsDma m =>
      simp only [step, Option.ite_none_right_eq_some, Option.some.injEq] at hstep
      rcases hstep with ⟨⟨_, hlow⟩, rfl⟩
      refine ⟨⟨hs.ok.curTx, Nat.zero_lt_succ 3⟩, fun _ => opened_laid hlow, fun _ p hp => ?_, ?_⟩
      · rw [open_packets] at hp
        exact absurd hp List.not_mem_nil
      · rw [if_pos rfl, open_packets]
        rfl
  | startXmit skb =>
      simp only [step, Option.ite_none_right_eq_some, Option.some.injEq] at hstep
      rcases hstep with ⟨⟨hup, hruns⟩, rfl⟩
      by_cases hlen : skb.length < TX_BUF_SIZE
      · exact startXmit_held hs hup hruns hlen
      · have hdev : rtl8139StartXmit skb skb.length s.dev = s.dev := if_neg hlen
        have hdma : told s skb = s.dma := if_neg hlen
        have hmem : copied s skb = s.mem := if_neg hlen
        rw [hdev, hdma, hmem]
        refine ⟨hs.ok, hs.laid, hs.placed, ?_⟩
        rw [handed, if_neg hlen, returned]
        exact hcounted
  | interrupt isr tsd received =>
      simp only [step, Option.ite_none_right_eq_some] at hstep
      rcases hstep with ⟨hup, hstep⟩
      rcases Option.map_eq_some_iff.mp hstep with ⟨⟨rs, d⟩, hcall, rfl⟩
      rcases interrupt_queue hs.ok hcall with ⟨hok, hqueue⟩
      have hpackets : packets s.dev.queue = packets rs ++ packets d.queue := by
        rw [hqueue, packets, List.filterMap_append]
        rfl
      refine ⟨hok, hs.laid, fun hup p hp => ?_, ?_⟩
      · refine hs.placed hup p ?_
        rw [hpackets]
        exact List.mem_append_right _ hp
      · rw [if_pos hup, hpackets] at hcounted
        rw [if_pos hup, handed, returned, hcall, List.append_assoc]
        exact hcounted
  | stop =>
      simp only [step, Option.ite_none_right_eq_some, Option.some.injEq] at hstep
      rcases hstep with ⟨hup, rfl⟩
      exact ⟨⟨hs.ok.curTx, hs.ok.dirtyTx⟩, fun hdown => absurd hdown Bool.false_ne_true,
        fun hdown => absurd hdown Bool.false_ne_true, rfl⟩

end Runs

end Buffers

end Rtl8139

end KernelModules
