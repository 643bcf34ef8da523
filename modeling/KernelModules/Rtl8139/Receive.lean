import KernelModules.Lib.Align
import KernelModules.Lib.Run
import KernelModules.Rtl8139.Device

/-!
# The Receive Ring

The card places packets in the ring, one behind the other, and the receive
loop of the interrupt handler reads them. The card wraps its offset around as
soon as it has placed a packet. The driver leaves its own where the packet
ends, and wraps it when it reads the next one, if it is then beyond the end of
the ring.

A packet that ends exactly at the end of the ring is where they part: the
card goes on at the start, and the driver's offset is at the end and not
beyond it. So the loop reads the headers where the card puts them exactly as
long as no packet but the first is placed at the start (`run_inStep_iff`).

## Main definitions

* `nextOffset`: Where the card goes on.
* `Sys`, `Step`, `step`: The card and the handler.
* `InStep`: The loop reads a header where the card put it.
* `NotAtStart`: The condition on an iteration.

## Theorems

* `align_toNat`, `rxIteration_curRx`: The driver's offset, as a number.
* `step_tracked`: How the driver's offset and the card's go together.
* `run_inStep_iff`: When the driver stays in step.
* `run_past_end`: A header read behind the end of the ring.
-/

namespace KernelModules

namespace Rtl8139

namespace Receive

open Lib

variable {α : Type*}

/-- The length of the ring, as the card has it. -/
def ringLen : Nat := 32768

/-- Where the card puts the next header after this one. -/
def nextOffset (offset : Nat) (hdr : BitVec 32) : Nat :=
  (offset + 4 + (rxSize hdr).toNat + 3) / 4 * 4 % ringLen

/-- The driver, whether its handler is in the receive loop, and the card: its
    offset, and the packets it has placed that were not read, each with its
    offset and its header. -/
structure Sys (α : Type*) where
  dev : Dev α
  receiving : Bool
  cardOffset : Nat
  placed : List (Nat × BitVec 32)

/-- After an open. -/
def Sys.opened (d : Dev α) : Sys α :=
  { dev := rtl8139Open d, receiving := false, cardOffset := 0, placed := [] }

/-- The steps: the card places a packet; the handler is entered, makes an
    iteration of its receive loop over the ring as it is then, and leaves. -/
inductive Step where
  | place (hdr : BitVec 32)
  | enter (isr : BitVec 16) (tsd : Nat → BitVec 32) (fuel : Nat)
  | iterate (ring : Nat → BitVec 32) (skb : Bool)
  | leave

/-- The sizes of packets that the card places. -/
def Frame (hdr : BitVec 32) : Prop :=
  4 ≤ (rxSize hdr).toNat ∧ (rxSize hdr).toNat ≤ MAX_ETH_FRAME_SIZE + 4

instance (hdr : BitVec 32) : Decidable (Frame hdr) := inferInstanceAs (Decidable (_ ∧ _))

/-- The loop goes on while the card has packets to be read, and the first of
    them is in the ring where the card put it. -/
def step : Step → Sys α → Option (Sys α)
  | .place hdr, s =>
    if Frame hdr then
      some { s with
        cardOffset := nextOffset s.cardOffset hdr
        placed := s.placed ++ [(s.cardOffset, hdr)] }
    else none
  | .enter isr tsd fuel, s =>
    if s.receiving then none
    else (interruptTx isr tsd fuel s.dev).map fun r => { s with dev := r.2.1, receiving := r.2.2 }
  | .iterate ring skb, s =>
    match s.placed with
    | [] => none
    | (offset, hdr) :: rest =>
      if s.receiving = true ∧ ring offset = hdr then
        some { s with dev := (rxIteration ring skb s.dev).2, placed := rest }
      else none
  | .leave, s =>
    if s.receiving = true ∧ s.placed = [] then some { s with receiving := false } else none

/-- The loop reads the header of the next packet at the offset where the card
    put it, which is a word of the ring. -/
def InStep (s : Sys α) : Step → Prop
  | .iterate _ _ => ∀ p ∈ s.placed.head?,
    s.dev.rxOffset = p.1 ∧ s.dev.rxOffset % 4 = 0 ∧ s.dev.rxOffset < ringLen
  | _ => True

/-- How many packets have been read. -/
def iterations : History (Sys α) Step → Nat
  | [] => 0
  | (_, .iterate _ _) :: h => iterations h + 1
  | (_, .place _) :: h | (_, .enter _ _ _) :: h | (_, .leave) :: h => iterations h

/-- The packet that is read was not placed at the start of the ring, or it is
    the first one. -/
def NotAtStart (h : History (Sys α) Step) (s : Sys α) : Step → Prop
  | .iterate _ _ => ∀ p ∈ s.placed.head?, p.1 = 0 → iterations h = 0
  | _ => True

instance (h : History (Sys α) Step) (s : Sys α) : (l : Step) → Decidable (NotAtStart h s l)
  | .iterate _ _ => Option.decidableForallMem s.placed.head?
  | .place _ | .enter _ _ _ | .leave => .isTrue trivial

section Words

theorem align_toNat (x : BitVec 32) : (x &&& ~~~3).toNat = x.toNat / 4 * 4 :=
  toNat_and_not_mask x 2

/-- The offset that an iteration reads at. -/
theorem rxOffset_eq (d : Dev α) :
    d.rxOffset = if d.curRx.toNat > ringLen then d.curRx.toNat % ringLen else d.curRx.toNat := by
  have hlen : RX_BUF_LEN.toNat = ringLen := by decide
  unfold Dev.rxOffset rxWrap
  by_cases hwrap : d.curRx > RX_BUF_LEN
  · have hbeyond : d.curRx.toNat > ringLen := hlen ▸ BitVec.lt_def.mp hwrap
    rw [if_pos hwrap, if_pos hbeyond, BitVec.toNat_umod, hlen]
  · have hwithin : ¬ d.curRx.toNat > ringLen := fun h => hwrap (BitVec.lt_def.mpr (hlen ▸ h))
    rw [if_neg hwrap, if_neg hwithin]

/-- The end of the ring is an offset that is read at, and what is beyond it is
    not. -/
theorem rxOffset_le (d : Dev α) : d.rxOffset ≤ ringLen := by
  rw [rxOffset_eq]
  split
  · exact (Nat.mod_lt _ (by decide)).le
  · rename_i hwithin
    exact Nat.not_lt.mp hwithin

/-- An iteration goes to the end of the packet, rounded up to a word. -/
theorem rxIteration_curRx (ring : Nat → BitVec 32) (skb : Bool) (d : Dev α) :
    (rxIteration ring skb d).2.curRx.toNat =
      (d.rxOffset + 4 + (rxSize (ring d.rxOffset)).toNat + 3) / 4 * 4 := by
  have hsize := (rxSize (ring d.rxOffset)).isLt
  have hoffset := rxOffset_le d
  -- The sum is far from the end of a 32-bit word.
  have hsum : (rxWrap d.curRx + (rxSize (ring d.rxOffset)).setWidth 32 + 4 + 3).toNat =
      d.rxOffset + 4 + (rxSize (ring d.rxOffset)).toNat + 3 := by
    rw [ringLen] at hoffset
    rw [Dev.rxOffset] at *
    bv_omega
  simp only [rxIteration, align_toNat, hsum]

end Words

section Runs

variable {s s' : Sys α} {l : Step} {h : History (Sys α) Step}

/-- The packets lie one behind the other, from an offset of the ring up to
    where the card goes on. -/
def Consecutive : Nat → List (Nat × BitVec 32) → Nat → Prop
  | offset, [], last => last = offset
  | offset, (o, hdr) :: rest, last =>
    o = offset ∧ Frame hdr ∧ Consecutive (nextOffset offset hdr) rest last

theorem consecutive_place {last : Nat} {hdr : BitVec 32} (hframe : Frame hdr)
    (ps : List (Nat × BitVec 32)) : ∀ offset, Consecutive offset ps last →
      Consecutive offset (ps ++ [(last, hdr)]) (nextOffset last hdr) := by
  induction ps with
  | nil =>
      intro offset hps
      cases hps
      exact ⟨rfl, hframe, rfl⟩
  | cons p ps ih =>
      intro offset hps
      exact ⟨hps.1, hps.2.1, ih _ hps.2.2⟩

/-- How the driver stands to the card: the next packet is at the driver's
    offset modulo the ring, and the offset is at the start of the ring only
    before the first packet. -/
structure Tracked (h : History (Sys α) Step) (s : Sys α) : Prop where
  consecutive : Consecutive (s.dev.curRx.toNat % ringLen) s.placed s.cardOffset
  word : s.dev.curRx.toNat % 4 = 0
  near : s.dev.curRx.toNat < 2 * ringLen
  first : s.dev.curRx.toNat = 0 ↔ iterations h = 0

theorem opened_tracked (d : Dev α) : Tracked [] (Sys.opened d) where
  consecutive := rfl
  word := rfl
  near := Nat.succ_pos _
  first := Iff.rfl

/-- In touch with the card, the loop reads a header where it was put exactly if
    the driver's offset is not the end of the ring. -/
theorem inStep_iff (ht : Tracked h s) : InStep s l ↔ NotAtStart h s l := by
  cases l with
  | place hdr => exact Iff.rfl
  | enter isr tsd fuel => exact Iff.rfl
  | leave => exact Iff.rfl
  | iterate ring skb =>
      have hword := ht.word
      have hnear := ht.near
      cases hplaced : s.placed with
      | nil =>
          simp only [InStep, NotAtStart, hplaced, List.head?_nil, Option.mem_def, reduceCtorEq,
            false_implies, implies_true]
      | cons p rest =>
          have hoffset : p.1 = s.dev.curRx.toNat % ringLen := by
            have hconsecutive := ht.consecutive
            rw [hplaced] at hconsecutive
            exact hconsecutive.1
          simp only [InStep, NotAtStart, hplaced, List.head?_cons, Option.mem_def,
            Option.some.injEq, forall_eq', rxOffset_eq, ← ht.first, hoffset]
          by_cases hwrap : s.dev.curRx.toNat > ringLen
          · -- Beyond the end, the driver wraps as the card has done.
            rw [if_pos hwrap]
            simp only [ringLen] at *
            exact iff_of_true ⟨trivial, by omega, by omega⟩ fun hstart => by omega
          · rw [if_neg hwrap]
            simp only [ringLen] at *
            constructor
            · rintro ⟨hat, _, _⟩ hstart
              omega
            · intro hstart
              have hend : s.dev.curRx.toNat ≠ 32768 := fun hend => by
                have hzero := hstart (by omega)
                omega
              omega

/-- A step in step with the card keeps the driver in touch with it. -/
theorem step_tracked (ht : Tracked h s) (hin : InStep s l) (hstep : step l s = some s') :
    Tracked ((s, l) :: h) s' := by
  cases l with
  | place hdr =>
      simp only [step, Option.ite_none_right_eq_some, Option.some.injEq] at hstep
      rcases hstep with ⟨hframe, rfl⟩
      exact ⟨consecutive_place hframe s.placed _ ht.consecutive, ht.word, ht.near, ht.first⟩
  | enter isr tsd fuel =>
      simp only [step, Option.ite_none_left_eq_some] at hstep
      rcases Option.map_eq_some_iff.mp hstep.2 with ⟨⟨rs, d, receive⟩, hcall, rfl⟩
      rcases ht with ⟨hconsecutive, hword, hnear, hfirst⟩
      rw [← (interruptTx_kept hcall).2] at hconsecutive hword hnear hfirst
      exact ⟨hconsecutive, hword, hnear, hfirst⟩
  | leave =>
      simp only [step, Option.ite_none_right_eq_some, Option.some.injEq] at hstep
      rcases hstep with ⟨_, rfl⟩
      exact ⟨ht.consecutive, ht.word, ht.near, ht.first⟩
  | iterate ring skb =>
      simp only [step] at hstep
      split at hstep
      · simp only [reduceCtorEq] at hstep
      · rename_i offset hdr rest hplaced
        split at hstep
        · rename_i hread
          cases hstep
          have hconsecutive := ht.consecutive
          rw [hplaced] at hconsecutive
          rcases hconsecutive with ⟨hoffset, hframe, hrest⟩
          rcases hin (offset, hdr) (by rw [hplaced]; rfl) with ⟨hat, hword, _⟩
          have hat : s.dev.rxOffset = offset := hat
          have hcur := rxIteration_curRx ring skb s.dev
          have hhdr : ring s.dev.rxOffset = hdr := by rw [hat]; exact hread.2
          have hend : (s.dev.rxOffset + 4 + (rxSize hdr).toNat + 3) / 4 * 4 % ringLen =
              nextOffset (s.dev.curRx.toNat % ringLen) hdr := by
            rw [← hoffset, ← hat, nextOffset]
          rw [hhdr] at hcur
          rcases hframe with ⟨hmin, hmax⟩
          refine ⟨?_, ?_, ?_, ?_⟩
          · rw [hcur, hend]
            exact hrest
          · rw [hcur]
            exact Nat.mul_mod_left _ 4
          · rw [hcur]
            simp only [ringLen, MAX_ETH_FRAME_SIZE] at *
            omega
          · rw [hcur]
            exact iff_of_false (by omega) (Nat.succ_ne_zero _)
        · simp only [reduceCtorEq] at hstep

/-- The driver stays in step with the card in the runs in which no packet but
    the first is placed at the start of the ring and read, and in no others. -/
theorem run_inStep_iff {d : Dev α} (hr : Run step (Sys.opened d) h s) :
    EveryStep (fun _ => InStep) h ↔ EveryStep NotAtStart h := by
  refine hr.everyStep_iff_under Tracked (opened_tracked d) ?_
  intro h s l s' _ ht hstep
  exact ⟨inStep_iff ht, fun hin => step_tracked ht hin hstep⟩

/-- The header of a packet of this size that was received well. -/
def goodHeader (rxSize : Nat) : BitVec 32 := BitVec.ofNat 32 (rxSize * 65536 + 1)

/-- An iteration over a ring that has this header wherever it is read. -/
def readHeader (hdr : BitVec 32) : Step := .iterate (fun _ => hdr) true

/-- Two packets, one of them placed while the handler is in its loop. -/
theorem run_inStep_two : ∃ (h : History (Sys Nat) Step) (s : Sys Nat),
    Run step (Sys.opened Dev.zeroed) h s ∧ iterations h = 2 ∧ s.receiving = false ∧
      EveryStep (fun _ => InStep) h := by
  rcases exists_run_of_exec step (Sys.opened (Dev.zeroed : Dev Nat))
    [.place (goodHeader 64), .enter RxOK (fun _ => 0) 0, readHeader (goodHeader 64),
      .place (goodHeader 1518), readHeader (goodHeader 1518), .leave]
    (fun h s => EveryStep NotAtStart h ∧ iterations h = 2 ∧ s.receiving = false)
    (by decide) with ⟨h, s, hr, hp⟩
  rcases of_decide_eq_true hp with ⟨hstart, htwo, hleft⟩
  exact ⟨h, s, hr, htwo, hleft, (run_inStep_iff hr).mpr hstart⟩

/-- A packet that is placed and read, 21 times over. -/
def full (hdr : BitVec 32) : List Step :=
  (List.replicate 21 [Step.place hdr, readHeader hdr]).flatten

/-- Twenty-one packets of the largest size and one of 340 bytes fill the ring
    to its end. The card puts the next one at the start, and the driver reads
    its header at the end. -/
theorem run_past_end : ∃ (h : History (Sys Nat) Step) (s : Sys Nat),
    Run step (Sys.opened Dev.zeroed) h s ∧
      (∃ p ∈ h, p.1.placed = [(0, goodHeader 64)] ∧ p.1.dev.rxOffset = ringLen) ∧
      ¬ EveryStep (fun _ => InStep) h := by
  rcases exists_run_of_exec step (Sys.opened (Dev.zeroed : Dev Nat))
    (.enter RxOK (fun _ => 0) 0 :: full (goodHeader 1540) ++ [.place (goodHeader 340),
      readHeader (goodHeader 340), .place (goodHeader 64), readHeader (goodHeader 64)])
    (fun h _ => (∃ p ∈ h, p.1.placed = [(0, goodHeader 64)] ∧ p.1.dev.rxOffset = ringLen) ∧
      ¬ EveryStep NotAtStart h) (by decide +kernel) with ⟨h, s, hr, hp⟩
  rcases of_decide_eq_true hp with ⟨hat, hstart⟩
  exact ⟨h, s, hr, hat, fun hall => hstart ((run_inStep_iff hr).mp hall)⟩

end Runs

end Receive

end Rtl8139

end KernelModules
