import KernelModules.Lib.Loop

/-!
# Resetting the RTL8150

`rtl8150_hardware_start` sets the reset bit in the command register and reads
the register until the device has cleared the bit, `HZ` times at most. Then it
says that the device is reset, and configures it. What the source leaves to
the reader is taken from its comments: the three registers are written in the
order named there, and the link status is read from `CSCR`.

The device may answer a read with any value, and a transfer that fails leaves
the value of before in `data`. That is the one with the reset bit which the
function has sent, until there is another, so the byte that the loop tests is
always the last one read, or that one (`resetLoop_ends`).

The loop ends in either case within `HZ` reads. But nothing behind it looks at
how it has ended, and so the device is configured after a confirmed reset
exactly if one of the first `HZ` answers confirms it (`confirmsReset_iff`).

## Main definitions

* `Poll`, `resetLoop`: The loop and its variables.
* `Event`, `rtl8150HardwareStart`: What the function does.
* `lastValue`: The last value read from the register.
* `Confirms`: An answer without the reset bit.
* `ConfirmsReset`: The loop is bounded, and the device is configured after a
  confirmed reset only.

## Theorems

* `poll_round`: What a round of the loop does.
* `resetLoop_ends`: How the loop ends.
* `hardwareStart_goesOn`: The function goes on however it has ended.
* `refused_goesOn`: It does so when no answer confirms the reset.
* `confirmsReset_iff`: When a reset is confirmed.
* `hardwareStart_unconfirmed`: Devices that are configured without.
-/

namespace KernelModules

namespace Rtl8150

namespace HardwareStart

open Lib

def CR : BitVec 16 := 0x012E
def TCR : BitVec 16 := 0x012F
def RCR : BitVec 16 := 0x0130
def CSCR : BitVec 16 := 0x014C
def CSCR_LINK_STATUS : BitVec 16 := 1 <<< 3

/-- The variables of the loop, and the answers to its reads, the latest first.
    A transfer that fails has none. -/
structure Poll where
  data : BitVec 8
  i : BitVec 32
  reads : List (Option (BitVec 8))

/-- `usb_control_msg` reading `CR` into `data`. -/
def Poll.read (answers : Nat → Option (BitVec 8)) (p : Poll) : Poll :=
  let answer := answers p.reads.length
  { p with data := answer.getD p.data, reads := answer :: p.reads }

/-- `(data & 0x10) && --i`. -/
def Poll.again (p : Poll) : Bool × Poll :=
  if p.data &&& 0x10 ≠ 0 then (decide (p.i - 1 ≠ 0), { p with i := p.i - 1 }) else (false, p)

def resetLoop (fuel : Nat) (hz : BitVec 32) (answers : Nat → Option (BitVec 8)) : Option Poll :=
  doWhile (fun p => some (p.read answers)) Poll.again fuel { data := 0x10, i := hz, reads := [] }

/-- What the function does: transfers to and from registers, the message that
    the device is reset, and the carrier. -/
inductive Event where
  | write (register : BitVec 16) (value : BitVec 8)
  | read (register : BitVec 16)
  | reset
  | carrier (on : Bool)

/-- The answers of the device to the loop, and all that was done, in order. -/
structure Started where
  reads : List (Option (BitVec 8))
  log : List Event

/-- `rtl8150_hardware_start`, with the answers of the device to the reads of
    `CR` and to the one of `CSCR`, and what happens to be in `tmp`. -/
def rtl8150HardwareStart (fuel : Nat) (hz : BitVec 32) (answers : Nat → Option (BitVec 8))
    (cscr : Option (BitVec 16)) (tmp : BitVec 16) : Option Started :=
  (resetLoop fuel hz answers).map fun p =>
    { reads := p.reads
      log := .write CR 0x10 :: List.replicate p.reads.length (.read CR) ++
        [.reset, .write RCR 0x9E, .write TCR 0xD8, .write CR 0x0C, .read CSCR,
          .carrier (cscr.getD tmp &&& CSCR_LINK_STATUS ≠ 0)] }

/-- The last value that was read. -/
def lastValue : List (Option (BitVec 8)) → Option (BitVec 8)
  | [] => none
  | some v :: _ => some v
  | none :: reads => lastValue reads

/-- A value without the reset bit. -/
def Confirms (answer : Option (BitVec 8)) : Prop := ∃ v ∈ answer, v &&& 0x10 = 0

instance (answer : Option (BitVec 8)) : Decidable (Confirms answer) :=
  match answer with
  | none => .isFalse fun ⟨_, hv, _⟩ => nomatch hv
  | some v => decidable_of_iff (v &&& 0x10 = 0)
    ⟨fun h => ⟨v, rfl, h⟩, fun ⟨_, hv, h⟩ => Option.some.inj hv ▸ h⟩

/-- The function has said that the device is reset and has configured it. -/
def Started.GoesOn (r : Started) : Prop :=
  ∀ e ∈ [Event.reset, .write RCR 0x9E, .write TCR 0xD8, .write CR 0x0C], e ∈ r.log

/-- The function returns after at most `HZ` reads of `CR`, and if it has gone on
    the last value read confirms the reset. -/
def ConfirmsReset (hz : BitVec 32) (answers : Nat → Option (BitVec 8)) (cscr : Option (BitVec 16))
    (tmp : BitVec 16) : Prop :=
  ∀ fuel, hz.toNat < fuel → ∃ r, rtl8150HardwareStart fuel hz answers cscr tmp = some r ∧
    r.reads.length ≤ hz.toNat ∧ (r.GoesOn → Confirms (lastValue r.reads))

section Loop

variable {hz : BitVec 32} {answers : Nat → Option (BitVec 8)} {p : Poll} {fuel n : Nat}

/-- The loop before a read: no answer so far confirms the reset, and there is a
    read left. -/
structure Polling (hz : BitVec 32) (answers : Nat → Option (BitVec 8)) (p : Poll) : Prop where
  left : p.reads.length < hz.toNat
  count : p.i = hz - BitVec.ofNat 32 p.reads.length
  data : p.data = (lastValue p.reads).getD 0x10
  unconfirmed : p.data &&& 0x10 ≠ 0
  refused : ∀ k < p.reads.length, ¬ Confirms (answers k)

/-- The loop at its end, with a reset confirmed by the last answer or by none. -/
structure Ended (hz : BitVec 32) (answers : Nat → Option (BitVec 8)) (p : Poll) : Prop where
  bounded : p.reads.length ≤ hz.toNat
  confirmed : Confirms (lastValue p.reads) ↔ ∃ k < hz.toNat, Confirms (answers k)

/-- `data` after a read is again the last value read. -/
theorem read_data (hdata : p.data = (lastValue p.reads).getD 0x10) :
    (p.read answers).data = (lastValue (p.read answers).reads).getD 0x10 := by
  unfold Poll.read
  simp only
  cases answers p.reads.length with
  | none => exact hdata
  | some v => rfl

/-- A last value is confirmed where `data` is, since the byte that is sent is
    not. -/
theorem confirms_lastValue (hdata : p.data = (lastValue p.reads).getD 0x10) :
    Confirms (lastValue p.reads) ↔ p.data &&& 0x10 = 0 := by
  rw [hdata]
  cases lastValue p.reads with
  | none => exact iff_of_false (fun ⟨_, hv, _⟩ => nomatch hv) (by decide)
  | some v =>
      rw [Option.getD_some]
      exact ⟨fun ⟨_, hv, h⟩ => Option.some.inj hv ▸ h, fun h => ⟨v, rfl, h⟩⟩

/-- The answer that was just read confirms the reset exactly if `data` does. -/
theorem confirms_answer (hp : Polling hz answers p) :
    Confirms (answers p.reads.length) ↔ (p.read answers).data &&& 0x10 = 0 := by
  unfold Poll.read
  simp only
  cases answers p.reads.length with
  | none => exact iff_of_false (fun ⟨_, hv, _⟩ => nomatch hv) hp.unconfirmed
  | some v => exact ⟨fun ⟨_, hv, h⟩ => Option.some.inj hv ▸ h, fun h => ⟨v, rfl, h⟩⟩

/-- The counter after a read, as a word: it is zero when no read is left. -/
theorem count_next (hp : Polling hz answers p) :
    p.i - 1 = hz - BitVec.ofNat 32 (p.reads.length + 1) ∧
      (p.i - 1 = 0 ↔ p.reads.length + 1 = hz.toNat) := by
  have hleft := hp.left
  have hnext : p.i - 1 = hz - BitVec.ofNat 32 (p.reads.length + 1) := by
    rw [hp.count]
    bv_omega
  refine ⟨hnext, ?_⟩
  rw [hnext]
  constructor
  · intro hzero
    bv_omega
  · intro hall
    bv_omega

/-- A round of the loop reads once and goes on, or it is the last. -/
theorem poll_round (hp : Polling hz answers p) :
    if (p.read answers).again.1 then
      Polling hz answers (p.read answers).again.2 ∧
        hz.toNat - (p.read answers).again.2.reads.length < hz.toNat - p.reads.length
    else Ended hz answers (p.read answers).again.2 := by
  have hleft := hp.left
  have hdata : (p.read answers).data = (lastValue (p.read answers).reads).getD 0x10 :=
    read_data hp.data
  have hlength : (p.read answers).reads.length = p.reads.length + 1 := rfl
  rcases count_next hp with ⟨hcount, hzero⟩
  by_cases hset : (p.read answers).data &&& 0x10 = 0
  · -- The answer confirms the reset, and the test ends the loop before `--i`.
    have hagain : (p.read answers).again = (false, p.read answers) := by
      rw [Poll.again, if_neg (not_not.mpr hset)]
    rw [hagain, if_neg Bool.false_ne_true]
    refine ⟨?_, iff_of_true ?_ ?_⟩
    · rw [hlength]
      exact hleft
    · exact (confirms_lastValue hdata).mpr hset
    · exact ⟨p.reads.length, hleft, (confirms_answer hp).mpr hset⟩
  · have hagain : (p.read answers).again =
        (decide (p.i - 1 ≠ 0), { p.read answers with i := p.i - 1 }) := by
      rw [Poll.again, if_pos hset]
      rfl
    have hrefused : ∀ k < p.reads.length + 1, ¬ Confirms (answers k) := by
      intro k hk
      rcases Nat.lt_succ_iff_lt_or_eq.mp hk with hk | rfl
      · exact hp.refused k hk
      · exact mt (confirms_answer hp).mp hset
    rw [hagain]
    by_cases hlast : p.i - 1 = 0
    · -- The last of the reads that there are.
      have hall := hzero.mp hlast
      rw [if_neg fun h => (of_decide_eq_true h : p.i - 1 ≠ 0) hlast]
      refine ⟨Nat.le_of_eq hall, iff_of_false ?_ ?_⟩
      · exact mt (confirms_lastValue hdata).mp hset
      · rintro ⟨k, hk, hconfirms⟩
        rw [← hall] at hk
        exact hrefused k hk hconfirms
    · rw [if_pos (decide_eq_true hlast)]
      have hnext : p.reads.length + 1 < hz.toNat :=
        Nat.lt_of_le_of_ne hleft (mt hzero.mpr hlast)
      refine ⟨⟨hnext, hcount, hdata, hset, hrefused⟩, ?_⟩
      show hz.toNat - (p.reads.length + 1) < hz.toNat - p.reads.length
      omega

theorem again_reads : p.again.2.reads = p.reads := by
  unfold Poll.again
  split <;> rfl

/-- The loop reads before it tests anything. -/
theorem resetLoop_once (hp : resetLoop 1 hz answers = some p) : p.reads.length = 1 := by
  simp only [resetLoop, doWhile, Option.bind_some, Option.ite_none_left_eq_some,
    Option.some.injEq] at hp
  rw [← hp.2, again_reads]
  rfl

/-- The loop ends within its reads, and what was read last confirms the reset
    exactly if one of the answers to them does. -/
theorem resetLoop_ends (hz0 : hz ≠ 0) (hfuel : hz.toNat < fuel) :
    ∃ p, resetLoop fuel hz answers = some p ∧ Ended hz answers p := by
  have hpos : 0 < hz.toNat := by
    rw [Nat.pos_iff_ne_zero]
    exact fun h => hz0 (BitVec.eq_of_toNat_eq h)
  have hinit : Polling hz answers { data := 0x10, i := hz, reads := [] } :=
    { left := hpos
      count := (BitVec.sub_zero hz).symm
      data := rfl
      unconfirmed := fun h => absurd (show (0x10 &&& 0x10 : BitVec 8) = 0 from h) (by decide)
      refused := fun k hk => absurd hk (Nat.not_lt_zero k) }
  exact doWhile_total (I := Polling hz answers) (Q := Ended hz answers)
    (fun p => hz.toNat - p.reads.length) (fun p hp => ⟨_, rfl, poll_round hp⟩) hinit hfuel

end Loop

section Start

variable {hz : BitVec 32} {answers : Nat → Option (BitVec 8)} {cscr : Option (BitVec 16)}
  {tmp : BitVec 16} {fuel : Nat} {r : Started}

/-- However the loop has ended, the function goes on. -/
theorem hardwareStart_goesOn (hr : rtl8150HardwareStart fuel hz answers cscr tmp = some r) :
    r.GoesOn := by
  rcases Option.map_eq_some_iff.mp hr with ⟨p, -, rfl⟩
  intro e he
  refine List.mem_append_right _ ?_
  simp only [List.mem_cons, List.not_mem_nil, or_false] at he ⊢
  rcases he with rfl | rfl | rfl | rfl
  · exact .inl rfl
  · exact .inr (.inl rfl)
  · exact .inr (.inr (.inl rfl))
  · exact .inr (.inr (.inr (.inl rfl)))

/-- The function returns, and within `HZ` reads. -/
theorem hardwareStart_returns (hz0 : hz ≠ 0) (hfuel : hz.toNat < fuel) :
    ∃ r, rtl8150HardwareStart fuel hz answers cscr tmp = some r ∧ r.reads.length ≤ hz.toNat ∧
      (Confirms (lastValue r.reads) ↔ ∃ k < hz.toNat, Confirms (answers k)) := by
  have hloop : ∃ p, resetLoop fuel hz answers = some p ∧ Ended hz answers p :=
    resetLoop_ends hz0 hfuel
  rcases hloop with ⟨p, hp, hends⟩
  rw [rtl8150HardwareStart, hp, Option.map_some]
  exact ⟨_, rfl, hends.bounded, hends.confirmed⟩

/-- A device that does not confirm the reset is configured all the same. -/
theorem refused_goesOn (hz0 : hz ≠ 0) (hrefused : ∀ k < hz.toNat, ¬ Confirms (answers k))
    (hfuel : hz.toNat < fuel) :
    ∃ r, rtl8150HardwareStart fuel hz answers cscr tmp = some r ∧ r.reads.length ≤ hz.toNat ∧
      r.GoesOn ∧ ¬ Confirms (lastValue r.reads) := by
  rcases hardwareStart_returns hz0 hfuel with ⟨r, hr, hbound, hiff⟩
  refine ⟨r, hr, hbound, hardwareStart_goesOn hr, ?_⟩
  rw [hiff]
  rintro ⟨k, hk, hconfirms⟩
  exact hrefused k hk hconfirms

theorem refused_unconfirmed (hz0 : hz ≠ 0) (hrefused : ∀ k < hz.toNat, ¬ Confirms (answers k)) :
    ¬ ConfirmsReset hz answers cscr tmp := by
  intro hconfirms
  have hfuel : hz.toNat < hz.toNat + 1 := Nat.lt_succ_self _
  rcases hconfirms _ hfuel with ⟨r, hr, -, hlast⟩
  rcases refused_goesOn hz0 hrefused hfuel with ⟨r', hr', -, hgoesOn, hlast'⟩
  rw [hr, Option.some.injEq] at hr'
  rw [← hr'] at hgoesOn hlast'
  exact hlast' (hlast hgoesOn)

/-- The device is configured after a confirmed reset only, and after at most
    `HZ` reads, exactly if one of its first `HZ` answers confirms the reset. -/
theorem confirmsReset_iff :
    ConfirmsReset hz answers cscr tmp ↔ ∃ k < hz.toNat, Confirms (answers k) := by
  by_cases hz0 : hz = 0
  · -- There is no bound that a loop could keep which tests after it has read.
    subst hz0
    refine iff_of_false (fun hconfirms => ?_) fun ⟨k, hk, _⟩ => absurd hk (Nat.not_lt_zero k)
    rcases hconfirms 1 Nat.zero_lt_one with ⟨r, hr, hbound, -⟩
    rcases Option.map_eq_some_iff.mp hr with ⟨p, hp, rfl⟩
    have hone : p.reads.length = 1 := resetLoop_once hp
    simp only [hone] at hbound
    exact absurd hbound (by decide)
  · constructor
    · intro hconfirms
      by_contra hno
      have hrefused : ∀ k < hz.toNat, ¬ Confirms (answers k) :=
        fun k hk hanswer => hno ⟨k, hk, hanswer⟩
      exact refused_unconfirmed hz0 hrefused hconfirms
    · intro hanswer fuel hfuel
      rcases hardwareStart_returns hz0 hfuel with ⟨r, hr, hbound, hiff⟩
      exact ⟨r, hr, hbound, fun _ => hiff.mpr hanswer⟩

/-- A device that always answers with the reset bit, and one that does not
    answer at all, with `HZ` 250: the function says that it is reset, and
    configures it. -/
theorem hardwareStart_unconfirmed :
    (∃ r, rtl8150HardwareStart 251 250 (fun _ => some 0x1C) (some 8) 0 = some r ∧
      r.reads.length ≤ 250 ∧ r.GoesOn ∧ ¬ Confirms (lastValue r.reads)) ∧
    ¬ ConfirmsReset 250 (fun _ => some 0x1C) (some 8) 0 ∧
    (∃ r, rtl8150HardwareStart 251 250 (fun _ => none) (some 8) 0 = some r ∧
      r.reads.length ≤ 250 ∧ r.GoesOn ∧ ¬ Confirms (lastValue r.reads)) ∧
    ¬ ConfirmsReset 250 (fun _ => none) (some 8) 0 := by
  have hz0 : (250 : BitVec 32) ≠ 0 := by decide
  have hfuel : (250 : BitVec 32).toNat < 251 := by decide
  have hset : ¬ Confirms (some 0x1C) := by decide
  have hfailed : ¬ Confirms none := by decide
  refine ⟨?_, ?_, ?_, ?_⟩
  · exact refused_goesOn hz0 (fun _ _ => hset) hfuel
  · exact refused_unconfirmed hz0 fun _ _ => hset
  · exact refused_goesOn hz0 (fun _ _ => hfailed) hfuel
  · exact refused_unconfirmed hz0 fun _ _ => hfailed

end Start

end HardwareStart

end Rtl8150

end KernelModules
