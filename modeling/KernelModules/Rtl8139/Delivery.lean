import KernelModules.Kernel.Memory
import KernelModules.Lib.Log
import KernelModules.Rtl8139.Receive

/-!
# Frames on Their Way to the Stack

The receive ring byte by byte. The card stores a frame behind a header with its
receive status and its size, and a checksum behind it. The driver reads the
header, copies the bytes in between to a buffer of the stack if it gets one, or
else drops the frame and counts the bits of its status, and tells the card by
CAPR how far it has read. It does not look at the status of a frame that it has
a buffer for.

The card has no other way to know what it may overwrite. It takes the ring as
empty when CAPR plus 16 is where it stores next, and takes a frame only if that
leaves room to spare. So the frames go through the ring unharmed as long as the
driver reads where the card stores: every frame the card took is handed to the
stack byte for byte and in order, whatever its status, or dropped for want of a
buffer and counted by its status, or still in the ring.

`Receive` has the condition under which the driver reads where the card stores,
and it is one on headers at the start of the ring.

## Main definitions

* `Frame`: A frame with its receive status and its checksum.
* `Frame.image`, `Frame.room`: What the card stores, and how far it goes on.
* `readOffset`, `Sys.bufEmpty`, `Sys.free`: What the card makes of CAPR.
* `Sys`, `Step`, `step`: The card, the ring and the driver.
* `taken`, `outcomes`, `delivered`: The frames, by the history.
* `NotAtStart`: No frame but the first is stored at the start of the ring.
* `InOrder`: The law.

## Theorems

* `word_of_read`, `header_size`: The header as the driver reads it.
* `readOffset_capr`: CAPR as the driver sets it.
* `step_tracked`: How the driver, the card and the memory go together.
* `run_inOrder`: The law holds at the end of every run.
-/

namespace KernelModules

namespace Rtl8139

namespace Delivery

open Kernel Lib

open Receive (ringLen nextOffset rxOffset_eq rxIteration_curRx)

variable {α : Type*}

/-- A frame that is not too long, with the checksum that the card leaves behind
    it. -/
structure Frame where
  status : BitVec 16
  bytes : List UInt8
  crc : BitVec 32
  fits : bytes.length ≤ MAX_ETH_FRAME_SIZE

/-- The size includes the checksum. -/
def Frame.header (f : Frame) : BitVec 32 := BitVec.ofNat 16 (f.bytes.length + 4) ++ f.status

def Frame.image (f : Frame) : List UInt8 := ofInt f.header ++ f.bytes ++ ofInt f.crc

/-- What the frame takes of the ring, in whole words. -/
def Frame.room (f : Frame) : Nat := (4 + (f.bytes.length + 4) + 3) / 4 * 4

/-- The word at an offset, as a little-endian machine reads it. -/
def word (mem : Nat → UInt8) (o : Nat) : BitVec 32 :=
  (mem (o + 3)).toBitVec ++ (mem (o + 2)).toBitVec ++ (mem (o + 1)).toBitVec ++ (mem o).toBitVec

/-- How far the card takes the ring as read. -/
def readOffset (capr : BitVec 16) : Nat := (capr + 16).toNat % ringLen

/-- The driver, whether its handler is in the receive loop, the memory of the
    ring, and the card: where it stores next, and CAPR. -/
structure Sys (α : Type*) where
  dev : Dev α
  receiving : Bool
  mem : Nat → UInt8
  cardOffset : Nat
  capr : BitVec 16

/-- After an open, with anything in the ring. A reset sets CAPR to -16. -/
def Sys.opened (d : Dev α) (mem : Nat → UInt8) : Sys α :=
  { dev := rtl8139Open d, receiving := false, mem := mem, cardOffset := 0, capr := -16 }

/-- The bit `RxBufEmpty` of CR. -/
def Sys.bufEmpty (s : Sys α) : Prop := readOffset s.capr = s.cardOffset

instance (s : Sys α) : Decidable s.bufEmpty := inferInstanceAs (Decidable (_ = _))

/-- How much of the ring the card takes as free. -/
def Sys.free (s : Sys α) : Nat :=
  if s.bufEmpty then ringLen else (readOffset s.capr + ringLen - s.cardOffset) % ringLen

inductive Step (α : Type*) where
  | frame (f : Frame)
  | startXmit (skb : α) (len : Nat)
  | enter (isr : BitVec 16) (tsd : Nat → BitVec 32) (fuel : Nat)
  | iterate (skb : Bool)
  | leave

/-- The card takes a frame if there is room to spare for it. The handler is
    entered, makes iterations of its receive loop while CR says that there is
    something in the ring, and leaves. -/
def step : Step α → Sys α → Option (Sys α)
  | .frame f, s =>
    if f.room < s.free then
      some { s with
        mem := Log.write s.mem s.cardOffset f.image
        cardOffset := nextOffset s.cardOffset f.header }
    else none
  | .startXmit skb len, s => some { s with dev := rtl8139StartXmit skb len s.dev }
  | .enter isr tsd fuel, s =>
    if s.receiving then none
    else (interruptTx isr tsd fuel s.dev).map fun r => { s with dev := r.2.1, receiving := r.2.2 }
  | .iterate skb, s =>
    if s.receiving = true ∧ ¬ s.bufEmpty then
      let d := (rxIteration (word s.mem) skb s.dev).2
      some { s with dev := d, capr := (d.curRx - 16).setWidth 16 }
    else none
  | .leave, s =>
    if s.receiving = true ∧ s.bufEmpty then some { s with receiving := false } else none

/-- The frames that the card took, in their order. -/
def taken : History (Sys α) (Step α) → List Frame
  | [] => []
  | (_, .frame f) :: h => taken h ++ [f]
  | (_, .startXmit _ _) :: h | (_, .enter _ _ _) :: h | (_, .iterate _) :: h
  | (_, .leave) :: h => taken h

/-- Whether there was a buffer, for every frame that was read. -/
def outcomes : History (Sys α) (Step α) → List Bool
  | [] => []
  | (_, .iterate skb) :: h => outcomes h ++ [skb]
  | (_, .frame _) :: h | (_, .startXmit _ _) :: h | (_, .enter _ _ _) :: h
  | (_, .leave) :: h => outcomes h

/-- What was copied to the buffers, which go to the stack. -/
def delivered : History (Sys α) (Step α) → List (List UInt8)
  | [] => []
  | (s, .iterate skb) :: h => delivered h ++
    (rxIteration (word s.mem) skb s.dev).1.toList.map fun p => Log.read s.mem p.1 p.2.toNat
  | (_, .frame _) :: h | (_, .startXmit _ _) :: h | (_, .enter _ _ _) :: h
  | (_, .leave) :: h => delivered h

/-- The frames that were read, each with what became of it. -/
def handled (h : History (Sys α) (Step α)) : List (Frame × Bool) := (taken h).zip (outcomes h)

/-- The frames that were dropped. -/
def dropped (h : History (Sys α) (Step α)) : List Frame :=
  (handled h).filterMap fun p => if p.2 then none else some p.1

/-- No frame but the first is stored at the start of the ring. -/
def NotAtStart (h : History (Sys α) (Step α)) (s : Sys α) : Step α → Prop
  | .frame _ => s.cardOffset = 0 → taken h = []
  | _ => True

instance (h : History (Sys α) (Step α)) (s : Sys α) : (l : Step α) → Decidable (NotAtStart h s l)
  | .frame _ => inferInstanceAs (Decidable (_ → _))
  | .startXmit _ _ | .enter _ _ _ | .iterate _ | .leave => .isTrue trivial

/-- The receive counters. -/
def rxCounters (st : Stats) : Nat × Nat × Nat × Nat :=
  (st.multicast, st.rxLengthErrors, st.rxCrcErrors, st.rxFrameErrors)

/-- How many frames have one of these bits in their status. -/
def withBits (bits : List Nat) (fs : List Frame) : Nat :=
  fs.countP fun f => bits.any fun i => f.status.getLsbD i

/-- The law of frames on their way: those that were read are the first ones the
    card took; the ones with a buffer went to the stack as they were, whatever
    their status, and the status bits of the others are in the counters; and all
    have been read when the card says so. -/
structure InOrder (d : Dev α) (h : History (Sys α) (Step α)) (s : Sys α) : Prop where
  read : (outcomes h).length ≤ (taken h).length
  drained : s.bufEmpty ↔ (outcomes h).length = (taken h).length
  delivered : delivered h = (handled h).filterMap fun p => if p.2 then some p.1.bytes else none
  counted : rxCounters s.dev.stats =
    (d.stats.multicast + withBits [15] (dropped h),
      d.stats.rxLengthErrors + withBits [4, 3] (dropped h),
      d.stats.rxCrcErrors + withBits [2] (dropped h),
      d.stats.rxFrameErrors + withBits [1] (dropped h))

section Words

theorem word_of_read {mem : Nat → UInt8} {o : Nat} {v : BitVec 32}
    (h : Log.read mem o 4 = ofInt v) : word mem o = v := by
  have hbyte : ∀ k < 4, (mem (o + k)).toBitVec = v.extractLsb' (8 * k) 8 := by
    intro k hk
    have hget : (Log.read mem o 4)[k]? = (ofInt v)[k]? := by rw [h]
    rw [Log.read_getElem? hk, ofInt, List.getElem?_map, List.getElem?_range hk, Option.map_some,
      Option.some.injEq] at hget
    rw [hget]
  have hlow : (mem o).toBitVec = v.extractLsb' 0 8 := hbyte 0 (by decide)
  have hmiddle : v.extractLsb' 24 8 ++ v.extractLsb' 16 8 = v.extractLsb' 16 16 :=
    BitVec.extractLsb'_append_extractLsb'_eq_extractLsb' rfl
  have hhigh : v.extractLsb' 16 16 ++ v.extractLsb' 8 8 = v.extractLsb' 8 24 :=
    BitVec.extractLsb'_append_extractLsb'_eq_extractLsb' rfl
  have hall : v.extractLsb' 8 24 ++ v.extractLsb' 0 8 = v.extractLsb' 0 32 :=
    BitVec.extractLsb'_append_extractLsb'_eq_extractLsb' rfl
  calc word mem o
      = v.extractLsb' 24 8 ++ v.extractLsb' 16 8 ++ v.extractLsb' 8 8 ++ v.extractLsb' 0 8 := by
        rw [word, hbyte 3 (by decide), hbyte 2 (by decide), hbyte 1 (by decide), hlow]
    _ = v.extractLsb' 0 32 := by rw [hmiddle, hhigh, hall]
    _ = v := BitVec.extractLsb'_eq_self

/-- CAPR as the driver sets it tells the card how far it has read. -/
theorem readOffset_capr (curRx : BitVec 32) :
    readOffset ((curRx - 16).setWidth 16) = curRx.toNat % ringLen := by
  have hback : (curRx - 16).setWidth 16 + 16 = curRx.setWidth 16 := by bv_omega
  rw [readOffset, hback, BitVec.toNat_setWidth, ringLen]
  omega

/-- A bit that is masked out. -/
theorem and_twoPow_ne_zero_iff {w k : Nat} (x : BitVec w) (hk : k < w) :
    x &&& BitVec.twoPow w k ≠ 0 ↔ x.getLsbD k = true := by
  rw [BitVec.and_twoPow]
  split
  · rename_i hbit
    refine iff_of_true (fun hzero => ?_) hbit
    have hone : (BitVec.twoPow w k).getLsbD k = false := by rw [hzero]; exact BitVec.getLsbD_zero
    rw [BitVec.getLsbD_twoPow, decide_eq_true hk, decide_eq_true rfl] at hone
    exact Bool.noConfusion hone
  · rename_i hbit
    exact iff_of_false (fun h => h rfl) hbit

variable (f : Frame)

theorem header_size : (rxSize f.header).toNat = f.bytes.length + 4 := by
  have hfits := f.fits
  have hupper : ∀ x : BitVec 32, rxSize x = x.extractLsb' 16 16 := fun x =>
    BitVec.eq_of_toNat_eq (by
      rw [rxSize, BitVec.toNat_setWidth, BitVec.toNat_ushiftRight, BitVec.extractLsb'_toNat])
  rw [hupper, Frame.header, BitVec.extractLsb'_append_eq_left, BitVec.toNat_ofNat]
  rw [MAX_ETH_FRAME_SIZE] at hfits
  omega

/-- A bit of the status is the same bit of the header. -/
theorem header_bit {k : Nat} (hk : k < 16) :
    f.header &&& BitVec.twoPow 32 k ≠ 0 ↔ f.status.getLsbD k = true := by
  rw [and_twoPow_ne_zero_iff f.header (by omega), Frame.header, BitVec.getLsbD_append, if_pos hk]

theorem image_length : f.image.length = f.bytes.length + 8 := by
  simp only [Frame.image, List.length_append, ofInt, List.length_map, List.length_range]
  omega

theorem image_length_le : f.image.length ≤ f.room := by
  rw [image_length, Frame.room]
  omega

theorem room_le : f.room ≤ 1544 := by
  have hfits := f.fits
  rw [MAX_ETH_FRAME_SIZE] at hfits
  rw [Frame.room]
  omega

theorem four_dvd_room : 4 ∣ f.room := Nat.dvd_mul_left 4 _

/-- The card goes on where the room of the frame ends. -/
theorem nextOffset_header {offset : Nat} (hword : 4 ∣ offset) :
    nextOffset offset f.header = (offset + f.room) % ringLen := by
  rw [nextOffset, header_size, Frame.room]
  congr 1
  omega

/-- What the driver reads where a frame was stored. -/
theorem read_image {mem : Nat → UInt8} {o : Nat} {f : Frame}
    (h : Log.read mem o f.image.length = f.image) :
    word mem o = f.header ∧ Log.read mem (o + 4) f.bytes.length = f.bytes := by
  have hlen : f.image.length = 4 + (f.bytes.length + 4) := by
    rw [image_length]
    omega
  rw [hlen, Log.read_add, Log.read_add, Frame.image, List.append_assoc] at h
  have hheader : (Log.read mem o 4).length = (ofInt f.header).length := Log.read_length mem o 4
  rcases List.append_inj h hheader with ⟨hword, hrest⟩
  rcases List.append_inj hrest (Log.read_length _ _ _) with ⟨hbytes, _⟩
  exact ⟨word_of_read hword, hbytes⟩

end Words

section Counters

variable {tsd : Nat → BitVec 32} {d d' : Dev α} {rs : List (Int × Option α)}

theorem reclaimOne_rxCounters (txstatus : BitVec 32) (d : Dev α) :
    rxCounters (reclaimOne txstatus d).2.stats = rxCounters d.stats := by
  unfold reclaimOne
  split
  · rfl
  · simp only
    split <;> split <;> rfl

theorem reclaimLoop_rxCounters (fuel : Nat) : ∀ (i : Nat) (d : Dev α),
    reclaimLoop tsd fuel i d = some (rs, d') → rxCounters d'.stats = rxCounters d.stats := by
  -- Every iteration starts from another device.
  induction fuel generalizing rs with
  | zero =>
      intro i d h
      rw [(reclaimLoop_zero h).2]
  | succ fuel ih =>
      intro i d h
      have hone := reclaimOne_rxCounters (tsd i) d
      rcases reclaimLoop_succ h with ⟨_, rfl⟩ | ⟨_, _, rfl⟩ | ⟨_, _, qs, _, hq⟩
      · rfl
      · exact hone
      · exact (ih (i + 1) _ hq).trans hone

/-- The transmit part of the handler leaves the receive counters alone. -/
theorem interruptTx_rxCounters {isr : BitVec 16} {fuel : Nat} {receive : Bool}
    (h : interruptTx isr tsd fuel d = some (rs, d', receive)) :
    rxCounters d'.stats = rxCounters d.stats := by
  rcases interruptTx_cases h with ⟨_, rfl⟩ | ⟨_, h⟩
  · rfl
  · exact reclaimLoop_rxCounters fuel 0 d h

theorem withBits_append (bits : List Nat) (fs gs : List Frame) :
    withBits bits (fs ++ gs) = withBits bits fs + withBits bits gs := List.countP_append

/-- A frame that is dropped is counted by the bits of its status. -/
theorem rxCounters_dropped (st : Stats) (f : Frame) : rxCounters (st.rxDropped f.header) =
    (st.multicast + withBits [15] [f], st.rxLengthErrors + withBits [4, 3] [f],
      st.rxCrcErrors + withBits [2] [f], st.rxFrameErrors + withBits [1] [f]) := by
  have hone : ∀ k < 16, (if f.header &&& BitVec.twoPow 32 k ≠ 0 then 1 else 0) =
      withBits [k] [f] := by
    intro k hk
    rw [withBits, List.countP_singleton, List.any_cons, List.any_nil, Bool.or_false]
    exact if_congr (header_bit f hk) rfl rfl
  have htwo : (if f.header &&& (BitVec.twoPow 32 4 ||| BitVec.twoPow 32 3) ≠ 0 then 1 else 0) =
      withBits [4, 3] [f] := by
    rw [withBits, List.countP_singleton, List.any_cons, List.any_cons, List.any_nil, Bool.or_false]
    refine if_congr ?_ rfl rfl
    rw [BitVec.and_or_distrib_left, Bool.or_eq_true, ← header_bit f (by decide),
      ← header_bit f (by decide)]
    exact (not_congr BitVec.or_eq_zero_iff).trans not_and_or
  rw [← hone 15 (by decide), ← hone 2 (by decide), ← hone 1 (by decide), ← htwo]
  rfl

end Counters

section Runs

variable {d : Dev α} {s s' : Sys α} {l : Step α} {h : History (Sys α) (Step α)}

/-- The place of the frame that is read next. -/
def readPlace (h : History (Sys α) (Step α)) : Nat :=
  Log.place Frame.room (taken h) (outcomes h).length

/-- The place of the frame that is stored next. -/
def cardPlace (h : History (Sys α) (Step α)) : Nat :=
  Log.place Frame.room (taken h) (taken h).length

/-- How the driver, the card and the memory go together: both sides are at
    their places modulo the ring, less than a turn apart, and what was not read
    is in the memory. -/
structure Tracked (d : Dev α) (h : History (Sys α) (Step α)) (s : Sys α) : Prop where
  read : (outcomes h).length ≤ (taken h).length
  curRx : s.dev.curRx.toNat % ringLen = readPlace h % ringLen
  near : s.dev.curRx.toNat < 2 * ringLen
  fresh : (outcomes h).length = 0 → s.dev.curRx.toNat = 0
  starts : ∀ k < (taken h).length, Log.place Frame.room (taken h) k % ringLen = 0 → k = 0
  capr : readOffset s.capr = readPlace h % ringLen
  card : s.cardOffset = cardPlace h % ringLen
  turn : cardPlace h < readPlace h + ringLen
  kept : Log.Kept ringLen Frame.room Frame.image s.mem (taken h) (outcomes h).length
  delivered : delivered h = (handled h).filterMap fun p => if p.2 then some p.1.bytes else none
  counted : rxCounters s.dev.stats =
    (d.stats.multicast + withBits [15] (dropped h),
      d.stats.rxLengthErrors + withBits [4, 3] (dropped h),
      d.stats.rxCrcErrors + withBits [2] (dropped h),
      d.stats.rxFrameErrors + withBits [1] (dropped h))

theorem opened_tracked (d : Dev α) (mem : Nat → UInt8) : Tracked d [] (Sys.opened d mem) where
  read := Nat.le_refl _
  curRx := rfl
  near := Nat.succ_pos _
  fresh := fun _ => rfl
  starts := fun k hk => absurd hk (Nat.not_lt_zero k)
  capr := (by decide : readOffset (-16) = 0)
  card := rfl
  turn := Nat.succ_pos _
  kept := Log.kept_nil mem
  delivered := rfl
  counted := rfl

theorem Tracked.places_le (ht : Tracked d h s) : readPlace h ≤ cardPlace h :=
  Log.place_mono ht.read

/-- While there is a frame to be read, the places differ. -/
theorem readPlace_lt {f : Frame}
    (hf : (taken h)[(outcomes h).length]? = some f) : readPlace h < cardPlace h := by
  have hlt := (List.getElem?_eq_some_iff.mp hf).1
  have hnext : Log.place Frame.room (taken h) ((outcomes h).length + 1) ≤ cardPlace h :=
    Log.place_mono hlt
  rw [Log.place_succ hf, ← readPlace, Frame.room] at hnext
  omega

/-- The card takes the ring as empty when everything was read. -/
theorem Tracked.empty_iff (ht : Tracked d h s) :
    s.bufEmpty ↔ (outcomes h).length = (taken h).length := by
  have hturn := ht.turn
  have hplaces := ht.places_le
  rw [Sys.bufEmpty, ht.capr, ht.card, ringLen] at *
  constructor
  · intro hempty
    by_contra hne
    have hlt := readPlace_lt (List.getElem?_eq_getElem (Nat.lt_of_le_of_ne ht.read hne))
    omega
  · intro hall
    rw [readPlace, hall, cardPlace]

/-- The card takes a frame only if that leaves the places less than a turn
    apart. -/
theorem Tracked.room_of_free (ht : Tracked d h s) {f : Frame} (hfree : f.room < s.free) :
    cardPlace h + f.room < readPlace h + ringLen := by
  have hturn := ht.turn
  have hplaces := ht.places_le
  unfold Sys.free at hfree
  by_cases hempty : s.bufEmpty
  · rw [if_pos hempty] at hfree
    have hall : readPlace h = cardPlace h := by
      rw [readPlace, ht.empty_iff.mp hempty, cardPlace]
    omega
  · rw [if_neg hempty, ht.capr, ht.card] at hfree
    rw [Sys.bufEmpty, ht.capr, ht.card] at hempty
    simp only [ringLen] at *
    omega

/-- The driver reads at its place, while there is a frame to be read. -/
theorem Tracked.rxOffset_eq (ht : Tracked d h s)
    (hlt : (outcomes h).length < (taken h).length) : s.dev.rxOffset = readPlace h % ringLen := by
  have hcur := ht.curRx
  have hnear := ht.near
  rw [Receive.rxOffset_eq, ← hcur]
  by_cases hwrap : s.dev.curRx.toNat > ringLen
  · rw [if_pos hwrap]
  · -- At the end of the ring the driver would not wrap, but no frame is there.
    have hend : s.dev.curRx.toNat ≠ ringLen := by
      intro hend
      rw [hend, Nat.mod_self] at hcur
      have hzero := ht.fresh (ht.starts _ hlt hcur.symm)
      rw [hzero] at hend
      exact absurd hend (by decide)
    rw [if_neg hwrap, Nat.mod_eq_of_lt (by omega)]

/-- A step that moves no frame. -/
theorem Tracked.of_kept (ht : Tracked d h s)
    (hh : taken ((s, l) :: h) = taken h ∧ outcomes ((s, l) :: h) = outcomes h ∧
      Delivery.delivered ((s, l) :: h) = Delivery.delivered h)
    (hring : s'.mem = s.mem ∧ s'.cardOffset = s.cardOffset ∧ s'.capr = s.capr)
    (hcur : s'.dev.curRx = s.dev.curRx)
    (hstats : rxCounters s'.dev.stats = rxCounters s.dev.stats) : Tracked d ((s, l) :: h) s' := by
  rcases hh with ⟨htaken, houtcomes, hdelivered⟩
  rcases hring with ⟨hmem, hcard, hcapr⟩
  rcases ht with ⟨h1, h2, h3, h4, h5, h6, h7, h8, h9, h10, h11⟩
  constructor <;> simp only [readPlace, cardPlace, handled, dropped, htaken, houtcomes, hdelivered,
    hmem, hcard, hcapr, hcur, hstats]
  all_goals assumption

/-- What was handled does not change when the card takes another frame. -/
theorem zip_append_left {A B : Type*} {as : List A} {bs : List B} (hle : bs.length ≤ as.length)
    (a : A) : (as ++ [a]).zip bs = as.zip bs := by
  induction bs generalizing as with
  | nil => rw [List.zip_nil_right, List.zip_nil_right]
  | cons b bs ih =>
      cases as with
      | nil => exact absurd hle (Nat.not_succ_le_zero _)
      | cons x as =>
          rw [List.cons_append, List.zip_cons_cons, List.zip_cons_cons,
            ih (Nat.le_of_succ_le_succ hle)]

/-- Another frame is handled. -/
theorem zip_append_right {A B : Type*} {as : List A} {bs : List B} {a : A}
    (ha : as[bs.length]? = some a) (b : B) : as.zip (bs ++ [b]) = as.zip bs ++ [(a, b)] := by
  induction bs generalizing as with
  | nil =>
      cases as with
      | nil => exact absurd ha (Option.some_ne_none a).symm
      | cons x as =>
          rw [List.length_nil, List.getElem?_cons_zero, Option.some.injEq] at ha
          rw [ha, List.nil_append, List.zip_cons_cons, List.zip_nil_right, List.zip_nil_right,
            List.nil_append]
  | cons c bs ih =>
      cases as with
      | nil => exact absurd ha (Option.some_ne_none a).symm
      | cons x as =>
          rw [List.length_cons, List.getElem?_cons_succ] at ha
          rw [List.cons_append, List.zip_cons_cons, ih ha, List.zip_cons_cons, List.cons_append]

/-- A step that the card or the driver makes in its place. -/
theorem step_tracked (ht : Tracked d h s) (hC : NotAtStart h s l) (hstep : step l s = some s') :
    Tracked d ((s, l) :: h) s' := by
  cases l with
  | frame f =>
      simp only [step, Option.ite_none_right_eq_some, Option.some.injEq] at hstep
      rcases hstep with ⟨hfree, rfl⟩
      have hturn := ht.room_of_free hfree
      have hread : readPlace ((s, .frame f) :: h) = readPlace h := Log.place_append [f] ht.read
      have hcard : cardPlace ((s, .frame f) :: h) = cardPlace h + f.room := by
        have hget : (taken h ++ [f])[(taken h).length]? = some f := by
          rw [List.getElem?_append_right (Nat.le_refl _), Nat.sub_self, List.getElem?_cons_zero]
        have hplace : Log.place Frame.room (taken h ++ [f]) ((taken h).length + 1) =
            Log.place Frame.room (taken h ++ [f]) (taken h).length + f.room :=
          Log.place_succ hget
        rw [Log.place_append [f] (Nat.le_refl _), ← cardPlace] at hplace
        rw [cardPlace, taken, List.length_append, List.length_singleton, hplace]
      have hhandled : handled ((s, .frame f) :: h) = handled h := zip_append_left ht.read f
      refine ⟨?_, ?_, ht.near, ht.fresh, ?_, ?_, ?_, ?_, ?_, ?_, ?_⟩
      · rw [taken, List.length_append]
        exact Nat.le_add_right_of_le ht.read
      · rw [hread]
        exact ht.curRx
      · intro k hk hzero
        rw [taken, List.length_append, List.length_singleton] at hk
        rw [taken, Log.place_append [f] (Nat.le_of_lt_succ hk)] at hzero
        by_cases hold : k < (taken h).length
        · exact ht.starts k hold hzero
        · -- It is the new frame.
          have hlast : k = (taken h).length := by omega
          rw [hlast, ← cardPlace, ← ht.card] at hzero
          rw [hlast, hC hzero, List.length_nil]
      · rw [hread]
        exact ht.capr
      · have hword : 4 ∣ s.cardOffset := by
          rw [ht.card]
          exact (Nat.dvd_mod_iff (by decide)).mpr (Log.place_dvd four_dvd_room _)
        rw [hcard, ← Nat.mod_add_mod, ← ht.card]
        exact nextOffset_header f hword
      · rw [hcard, hread]
        exact hturn
      · simp only [ht.card]
        exact ht.kept.append (by decide) image_length_le hturn.le
      · rw [hhandled]
        exact ht.delivered
      · rw [dropped, hhandled]
        exact ht.counted
  | startXmit skb len =>
      cases hstep
      rcases startXmit_kept skb len s.dev with ⟨hcur, hstats⟩
      exact ht.of_kept ⟨rfl, rfl, rfl⟩ ⟨rfl, rfl, rfl⟩ hcur (congrArg rxCounters hstats)
  | enter isr tsd fuel =>
      simp only [step, Option.ite_none_left_eq_some] at hstep
      rcases Option.map_eq_some_iff.mp hstep.2 with ⟨⟨rs, d', receive⟩, hcall, rfl⟩
      exact ht.of_kept ⟨rfl, rfl, rfl⟩ ⟨rfl, rfl, rfl⟩ (interruptTx_kept hcall).2
        (interruptTx_rxCounters hcall)
  | leave =>
      simp only [step, Option.ite_none_right_eq_some, Option.some.injEq] at hstep
      rcases hstep with ⟨_, rfl⟩
      exact ht.of_kept ⟨rfl, rfl, rfl⟩ ⟨rfl, rfl, rfl⟩ rfl rfl
  | iterate skb =>
      simp only [step, Option.ite_none_right_eq_some, Option.some.injEq] at hstep
      rcases hstep with ⟨⟨_, hfull⟩, rfl⟩
      have hlt : (outcomes h).length < (taken h).length :=
        Nat.lt_of_le_of_ne ht.read (mt ht.empty_iff.mpr hfull)
      have hget := List.getElem?_eq_getElem hlt
      generalize (taken h)[(outcomes h).length] = f at hget
      have hat := ht.rxOffset_eq hlt
      rcases read_image (ht.kept _ f (Nat.le_refl _) hget) with ⟨hheader, hbytes⟩
      rw [← readPlace, ← hat] at hheader hbytes
      have hread : readPlace ((s, .iterate skb) :: h) = readPlace h + f.room := by
        rw [readPlace, taken, outcomes, List.length_append, List.length_singleton,
          Log.place_succ hget, readPlace]
      have hhandled : handled ((s, .iterate skb) :: h) = handled h ++ [(f, skb)] :=
        zip_append_right hget skb
      have hword : 4 ∣ s.dev.rxOffset := by
        rw [hat]
        exact (Nat.dvd_mod_iff (by decide)).mpr (Log.place_dvd four_dvd_room _)
      have hcur : (rxIteration (word s.mem) skb s.dev).2.curRx.toNat =
          s.dev.rxOffset + f.room := by
        rw [rxIteration_curRx, hheader, header_size, Frame.room]
        omega
      have hoffset : (rxIteration (word s.mem) skb s.dev).2.curRx.toNat % ringLen =
          readPlace ((s, .iterate skb) :: h) % ringLen := by
        rw [hcur, hat, hread, Nat.mod_add_mod]
      refine ⟨?_, hoffset, ?_, ?_, ht.starts, ?_, ht.card, ?_, ?_, ?_, ?_⟩
      · rw [outcomes, List.length_append]
        exact hlt
      · have hroom := room_le f
        have hring := Nat.mod_lt (readPlace h) (by decide : 0 < ringLen)
        rw [hcur, hat, ringLen] at *
        omega
      · rw [outcomes, List.length_append]
        exact fun hzero => absurd hzero (Nat.succ_ne_zero _)
      · rw [readOffset_capr, hoffset]
      · rw [hread]
        exact Nat.lt_of_lt_of_le ht.turn (by omega)
      · rw [outcomes, List.length_append]
        exact ht.kept.advance
      · rw [hhandled, List.filterMap_append, ← ht.delivered, Delivery.delivered]
        congr 1
        cases skb with
        | false => rfl
        | true =>
            have hsize : (rxSize f.header - 4).toNat = f.bytes.length := by
              have hlen := header_size f
              bv_omega
            simp only [rxIteration, if_true, Option.toList_some, List.map_cons, List.map_nil,
              hheader, hsize, hbytes]
            rfl
      · rw [dropped, hhandled, List.filterMap_append, ← dropped]
        have hcounted := ht.counted
        cases skb with
        | false =>
            simp only [rxCounters, Prod.mk.injEq] at hcounted
            rcases hcounted with ⟨hmulticast, hlength, hcrc, hframe⟩
            have hone : ([(f, false)].filterMap fun p => if p.2 then none else some p.1) = [f] :=
              rfl
            simp only [rxIteration, Bool.false_eq_true, if_false, hheader, rxCounters_dropped,
              hone, withBits_append, hmulticast, hlength, hcrc, hframe, Nat.add_assoc]
        | true =>
            have hnone : ([(f, true)].filterMap fun p => if p.2 then none else some p.1) = [] :=
              rfl
            rw [hnone, List.append_nil]
            exact hcounted

/-- Frames go to the stack as the card received them, in their order, or are
    dropped for want of a buffer and counted by their status, in the runs in
    which no frame but the first is stored at the start of the ring. -/
theorem run_inOrder {mem : Nat → UInt8} (hr : Run step (Sys.opened d mem) h s)
    (hC : EveryStep NotAtStart h) : InOrder d h s := by
  have ht : Tracked d h s := by
    refine hr.invariantUnder (Tracked d) (opened_tracked d mem) ?_ hC
    intro h s l s' _ hC ht hstep
    exact step_tracked ht hC hstep
  exact ⟨ht.read, ht.empty_iff, ht.delivered, ht.counted⟩

/-- A frame of these bytes, and whether it was sent to many. -/
def shortFrame (multicast : Bool) (bytes : List UInt8) (h : bytes.length ≤ MAX_ETH_FRAME_SIZE) :
    Frame :=
  { status := if multicast then 0x8001 else 0x0001, bytes := bytes, crc := 0, fits := h }

/-- Three frames, one of which arrives while the handler is in its loop and one
    of which finds no buffer. -/
theorem run_inOrder_three : ∃ (h : History (Sys Nat) (Step Nat)) (s : Sys Nat),
    InOrder Dev.zeroed h s ∧ (taken h).length = 3 ∧ delivered h = [[1, 2], [5]] ∧
      s.dev.stats.multicast = 1 ∧ s.receiving = false := by
  rcases exists_run_of_exec step (Sys.opened (Dev.zeroed : Dev Nat) fun _ => 0xFF)
    [.frame (shortFrame false [1, 2] (by decide)), .frame (shortFrame true [3, 4] (by decide)),
      .enter RxOK (fun _ => 0) 0, .iterate true, .frame (shortFrame true [5] (by decide)),
      .iterate false, .iterate true, .leave]
    (fun h s => EveryStep NotAtStart h ∧ (taken h).length = 3 ∧ delivered h = [[1, 2], [5]] ∧
      s.dev.stats.multicast = 1 ∧ s.receiving = false)
    (by decide +kernel) with ⟨h, s, hr, hp⟩
  rcases of_decide_eq_true hp with ⟨hC, hp⟩
  exact ⟨h, s, run_inOrder hr hC, hp⟩

end Runs

end Delivery

end Rtl8139

end KernelModules
