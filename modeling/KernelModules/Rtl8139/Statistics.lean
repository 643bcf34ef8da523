import KernelModules.Lib.Run
import KernelModules.Rtl8139.Device

/-!
# Transmit Statistics

Runs of `start_xmit` and interrupts with any answers of the TSD registers,
look by look: an iteration of the reclaim loop looks at the status of one
descriptor, and goes past it if the transmission is concluded. If it is not,
the loop ends, and a later interrupt looks at the same descriptor again.

The statistics should count a descriptor once, by its final status. Two things
come in the way. The collisions are added before the loop knows whether the
transmission is concluded. And two of the four error counters multiply the
status by the mask of their bit: the product of a status and bit `k` is a
shift, and is zero when the lowest `32 - k` bits of the status are
(`mul_twoPow_eq_zero_iff`). These are bits of the length of the packet.

## Main definitions

* `collisionCount`: The collisions that a status tells.
* `Sys`, `Step`, `step`: The driver and its handler, look by look.
* `finals`, `failed`: The descriptors reclaimed, by their final status.
* `Exact`: The law of the counters.
* `Telling`: The condition on a look.

## Theorems

* `mul_twoPow_eq_zero_iff`: A product with a power of two.
* `reclaimOne_stats`: What a look does to the counters.
* `run_reclaimLoop`, `run_interrupt`: The loop and the handler as runs.
* `exact_waits_iff`, `exact_sent`, `exact_failed_iff`, `exact_look_iff`: Which
  looks keep the counters exact.
* `run_exact_iff`: When the counters are exact.
* `run_odd_length`: Two errors that the card did not report.
-/

namespace KernelModules

namespace Rtl8139

namespace Statistics

open Lib

variable {α : Type*}

/-- The number of collisions, in bits 24 to 27. -/
def collisionCount (txstatus : BitVec 32) : Nat := (txstatus.extractLsb' 24 4).toNat

/-- The driver, and whether its handler is in the reclaim loop. -/
structure Sys (α : Type*) where
  dev : Dev α
  reclaiming : Bool

/-- The structure as allocated, before the first open. -/
def Sys.zeroed : Sys α := { dev := Dev.zeroed, reclaiming := false }

inductive Step (α : Type*) where
  | openDevice
  | startXmit (skb : α) (len : Nat)
  | stop
  | enter (isr : BitVec 16)
  | look (txstatus : BitVec 32)
  | leave
  | receive (ring : Nat → BitVec 32) (skb : Bool)

/-- The handler is entered for an interrupt that reclaims, looks at descriptors
    as long as the guard of its loop holds and the last one was concluded, and
    leaves the loop. The other entry points may be called at any time, and
    packets are received outside the loop. -/
def step : Step α → Sys α → Option (Sys α)
  | .openDevice, s => some { s with dev := rtl8139Open s.dev }
  | .startXmit skb len, s => some { s with dev := rtl8139StartXmit skb len s.dev }
  | .stop, s => some { s with dev := rtl8139Stop s.dev }
  | .enter isr, s =>
    if s.reclaiming = false ∧ Reclaims isr then some { s with reclaiming := true } else none
  | .look txstatus, s =>
    if s.reclaiming = true ∧ s.dev.Unreclaimed then
      some { dev := (reclaimOne txstatus s.dev).2, reclaiming := (reclaimOne txstatus s.dev).1 }
    else none
  | .leave, s =>
    if s.reclaiming = true ∧ ¬ s.dev.Unreclaimed then some { s with reclaiming := false } else none
  | .receive ring skb, s =>
    if s.reclaiming = false then some { s with dev := (rxIteration ring skb s.dev).2 } else none

/-- The final statuses of the descriptors reclaimed, the last one first. -/
def finals : History (Sys α) (Step α) → List (BitVec 32)
  | [] => []
  | (_, .look txstatus) :: h => if Concluded txstatus then txstatus :: finals h else finals h
  | (_, .openDevice) :: h | (_, .startXmit _ _) :: h | (_, .stop) :: h | (_, .enter _) :: h
  | (_, .leave) :: h | (_, .receive _ _) :: h => finals h

/-- How many of these statuses are without TxStatOK and have the bit of this
    mask. -/
def failed (mask : BitVec 32) (statuses : List (BitVec 32)) : Nat :=
  statuses.countP fun txstatus => txstatus &&& TxStatOK = 0 ∧ txstatus &&& mask ≠ 0

/-- The counters say what became of the descriptors reclaimed. -/
structure Exact (h : History (Sys α) (Step α)) (s : Sys α) : Prop where
  aborted : s.dev.stats.txAbortedErrors = failed TxAborted (finals h)
  fifo : s.dev.stats.txFifoErrors = failed TxUnderrun (finals h)
  window : s.dev.stats.txWindowErrors = failed TxOutOfWindow (finals h)
  carrier : s.dev.stats.txCarrierErrors = failed TxCarrierLost (finals h)
  collisions : s.dev.stats.collisions = ((finals h).map collisionCount).sum

/-- A status that does not conclude shows no collisions, and one that says that
    the transmission has failed has TxOutOfWindow exactly if one of its lowest
    three bits is set, and TxCarrierLost exactly if its lowest bit is. -/
def Telling : Step α → Prop
  | .look txstatus =>
    (¬ Concluded txstatus → collisionCount txstatus = 0) ∧
    (Concluded txstatus → txstatus &&& TxStatOK = 0 →
      (txstatus &&& TxOutOfWindow ≠ 0 ↔ txstatus &&& 7 ≠ 0) ∧
      (txstatus &&& TxCarrierLost ≠ 0 ↔ txstatus &&& 1 ≠ 0))
  | _ => True

instance : (l : Step α) → Decidable (Telling l)
  | .look _ => inferInstanceAs (Decidable ((_ → _) ∧ (_ → _ → (_ ↔ _) ∧ (_ ↔ _))))
  | .openDevice | .startXmit _ _ | .stop | .enter _ | .leave | .receive _ _ => .isTrue trivial

section Words

/-- A word times a power of two is zero exactly if the bits that the product
    keeps are. -/
theorem mul_twoPow_eq_zero_iff {w k : Nat} (x : BitVec w) (hk : k ≤ w) :
    x * BitVec.twoPow w k = 0 ↔ x &&& BitVec.ofNat w (2 ^ (w - k) - 1) = 0 := by
  have hpow : 2 ^ w = 2 ^ (w - k) * 2 ^ k := by
    rw [← Nat.pow_add, Nat.sub_add_cancel hk]
  have hmask : 2 ^ (w - k) - 1 < 2 ^ w := by
    have hle := Nat.pow_le_pow_right (show 0 < 2 by decide) (Nat.sub_le w k)
    have hpos := Nat.two_pow_pos (w - k)
    omega
  rw [BitVec.mul_twoPow_eq_shiftLeft, ← BitVec.toNat_inj, ← BitVec.toNat_inj,
    BitVec.toNat_shiftLeft, BitVec.toNat_and, BitVec.toNat_ofNat, Nat.mod_eq_of_lt hmask,
    Nat.and_two_pow_sub_one_eq_mod, Nat.shiftLeft_eq, hpow, Nat.mul_mod_mul_right]
  exact Nat.mul_eq_zero.trans (or_iff_left (Nat.two_pow_pos k).ne')

theorem mul_TxOutOfWindow_iff (txstatus : BitVec 32) :
    txstatus * TxOutOfWindow ≠ 0 ↔ txstatus &&& 7 ≠ 0 :=
  not_congr (mul_twoPow_eq_zero_iff txstatus (k := 29) (by decide))

theorem mul_TxCarrierLost_iff (txstatus : BitVec 32) :
    txstatus * TxCarrierLost ≠ 0 ↔ txstatus &&& 1 ≠ 0 :=
  not_congr (mul_twoPow_eq_zero_iff txstatus (k := 31) (by decide))

/-- The shift and the mask of the source pick out the same bits. -/
theorem collisionCount_eq (txstatus : BitVec 32) :
    (txstatus >>> 24 &&& 0xF).toNat = collisionCount txstatus := by
  rw [collisionCount, BitVec.extractLsb'_toNat, BitVec.toNat_and, BitVec.toNat_ushiftRight]
  exact Nat.and_two_pow_sub_one_eq_mod _ 4

end Words

variable {init s s' : Sys α} {h : History (Sys α) (Step α)} {d d' : Dev α}

/-- A look adds the collisions, and the errors of a transmission that failed. -/
theorem reclaimOne_stats (txstatus : BitVec 32) (d : Dev α) :
    (reclaimOne txstatus d).2.stats =
      let stats := { d.stats with collisions := d.stats.collisions + collisionCount txstatus }
      if Concluded txstatus ∧ txstatus &&& TxStatOK = 0 then stats.txError txstatus else stats := by
  unfold reclaimOne Concluded
  rw [collisionCount_eq]
  by_cases hwaits : txstatus &&& (TxStatOK ||| TxAborted ||| TxUnderrun) = 0
  · rw [if_pos hwaits, if_neg fun hfails => hfails.1 hwaits]
  · rw [if_neg hwaits]
    by_cases hok : txstatus &&& TxStatOK = 0
    · rw [if_pos (⟨hwaits, hok⟩ : _ ∧ _)]
      simp only [hok, ne_eq, not_true_eq_false, if_false]
      split <;> rfl
    · rw [if_neg fun hfails : _ ∧ _ => hok hfails.2]
      simp only [hok, ne_eq, not_false_eq_true, if_true]
      split <;> rfl

section Calls

variable {rs : List (Int × Option α)}

theorem step_look (txstatus : BitVec 32) (hguard : d.Unreclaimed) :
    step (.look txstatus) ⟨d, true⟩ =
      some ⟨(reclaimOne txstatus d).2, (reclaimOne txstatus d).1⟩ := if_pos ⟨rfl, hguard⟩

theorem step_leave (hguard : ¬ d.Unreclaimed) : step .leave ⟨d, true⟩ = some ⟨d, false⟩ :=
  if_pos ⟨rfl, hguard⟩

/-- The loop of the model is a run of looks, from the state in the loop on. -/
theorem run_reclaimLoop (tsd : Nat → BitVec 32) (fuel : Nat) :
    ∀ (i : Nat) (h : History (Sys α) (Step α)) (d : Dev α), Run step init h ⟨d, true⟩ →
      reclaimLoop tsd fuel i d = some (rs, d') → ∃ h', Run step init h' ⟨d', false⟩ := by
  induction fuel generalizing rs with
  | zero =>
      intro i h d hr hloop
      rw [reclaimLoop] at hloop
      split at hloop
      · simp only [reduceCtorEq] at hloop
      · rename_i hguard
        cases hloop
        exact ⟨_, .next .leave hr (step_leave hguard)⟩
  | succ fuel ih =>
      intro i h d hr hloop
      rw [reclaimLoop] at hloop
      split at hloop
      · rename_i hguard
        have hlook := hr.next _ (step_look (tsd i) hguard)
        simp only at hloop hlook
        cases hpasses : (reclaimOne (tsd i) d).1 with
        | false =>
            rw [hpasses] at hloop hlook
            cases hloop
            exact ⟨_, hlook⟩
        | true =>
            rw [hpasses, if_pos rfl] at hloop
            rw [hpasses] at hlook
            rcases Option.map_eq_some_iff.mp hloop with ⟨⟨qs, q⟩, hq, heq⟩
            cases heq
            exact ih (i + 1) _ _ hlook hq
      · rename_i hguard
        cases hloop
        exact ⟨_, .next .leave hr (step_leave hguard)⟩

theorem run_receives (received : List ((Nat → BitVec 32) × Bool)) :
    ∀ (h : History (Sys α) (Step α)) (d : Dev α), Run step init h ⟨d, false⟩ →
      ∃ h', Run step init h'
        ⟨received.foldl (fun d q => (rxIteration q.1 q.2 d).2) d, false⟩ := by
  induction received with
  | nil => intro h d hr; exact ⟨h, hr⟩
  | cons q received ih => intro h d hr; exact ih _ _ (.next (.receive q.1 q.2) hr rfl)

/-- A call of the handler is a run of these steps. -/
theorem run_interrupt {isr : BitVec 16} {tsd : Nat → BitVec 32} {fuel : Nat}
    {received : List ((Nat → BitVec 32) × Bool)} (hr : Run step init h ⟨d, false⟩)
    (hcall : rtl8139Interrupt isr tsd fuel received d = some (rs, d')) :
    ∃ h', Run step init h' ⟨d', false⟩ := by
  rcases Option.map_eq_some_iff.mp hcall with ⟨⟨qs, t, receive⟩, htx, heq⟩
  cases heq
  have htransmit : ∃ h', Run step init h' ⟨t, false⟩ := by
    rcases interruptTx_cases htx with ⟨_, rfl⟩ | ⟨hreclaims, hloop⟩
    · exact ⟨h, hr⟩
    · have henter : step (.enter isr) ⟨d, false⟩ = some ⟨d, true⟩ := if_pos ⟨rfl, hreclaims⟩
      exact run_reclaimLoop tsd fuel 0 _ d (hr.next _ henter) hloop
  rcases htransmit with ⟨h', hr'⟩
  cases receive with
  | false => exact ⟨h', hr'⟩
  | true => exact run_receives received h' t hr'

end Calls

section Runs

/-- A transmission that failed counts if it has the bit. -/
theorem failed_cons_failed {txstatus : BitVec 32} (hfails : txstatus &&& TxStatOK = 0)
    (mask : BitVec 32) (statuses : List (BitVec 32)) :
    failed mask (txstatus :: statuses) =
      failed mask statuses + if txstatus &&& mask ≠ 0 then 1 else 0 := by
  simp only [failed, List.countP_cons, decide_eq_true_eq, hfails, true_and]

theorem failed_cons_ok {txstatus : BitVec 32} (hok : txstatus &&& TxStatOK ≠ 0)
    (mask : BitVec 32) (statuses : List (BitVec 32)) :
    failed mask (txstatus :: statuses) = failed mask statuses := by
  simp only [failed, List.countP_cons, decide_eq_true_eq, hok, false_and, if_false, Nat.add_zero]

/-- Two tests that count from the same number agree. -/
theorem count_eq_iff {p q : Prop} [Decidable p] [Decidable q] {m n : Nat} (hmn : m = n) :
    (m + if p then 1 else 0) = (n + if q then 1 else 0) ↔ (q ↔ p) := by
  rw [hmn]
  by_cases hp : p <;> by_cases hq : q <;> simp [hp, hq]

/-- A look that does not conclude adds the collisions that it sees, and there
    should be none. -/
theorem exact_waits_iff {txstatus : BitVec 32} (hs : Exact h s)
    (hlook : s'.dev = (reclaimOne txstatus s.dev).2) (hwaits : ¬ Concluded txstatus) :
    Exact ((s, .look txstatus) :: h) s' ↔ collisionCount txstatus = 0 := by
  rcases hs with ⟨haborted, hfifo, hwindow, hcarrier, hcollisions⟩
  have hstats := reclaimOne_stats txstatus s.dev
  rw [← hlook, if_neg fun hfails => hwaits hfails.1] at hstats
  have hfinals : finals ((s, .look txstatus) :: h) = finals h := if_neg hwaits
  constructor
  · intro hexact
    have hcollisions' := hexact.collisions
    rw [hfinals, hstats, ← hcollisions] at hcollisions'
    exact Nat.add_eq_left.mp hcollisions'
  · intro hnone
    refine ⟨?_, ?_, ?_, ?_, ?_⟩
    all_goals rw [hfinals, hstats]
    · exact haborted
    · exact hfifo
    · exact hwindow
    · exact hcarrier
    · rw [← hcollisions, hnone, Nat.add_zero]

/-- A packet that was sent adds its collisions. -/
theorem exact_sent {txstatus : BitVec 32} (hs : Exact h s)
    (hlook : s'.dev = (reclaimOne txstatus s.dev).2) (hconcluded : Concluded txstatus)
    (hok : txstatus &&& TxStatOK ≠ 0) : Exact ((s, .look txstatus) :: h) s' := by
  rcases hs with ⟨haborted, hfifo, hwindow, hcarrier, hcollisions⟩
  have hstats := reclaimOne_stats txstatus s.dev
  rw [← hlook, if_neg fun hfails => hok hfails.2] at hstats
  have hfinals : finals ((s, .look txstatus) :: h) = txstatus :: finals h := if_pos hconcluded
  refine ⟨?_, ?_, ?_, ?_, ?_⟩
  all_goals rw [hfinals, hstats]
  · rw [failed_cons_ok hok, ← haborted]
  · rw [failed_cons_ok hok, ← hfifo]
  · rw [failed_cons_ok hok, ← hwindow]
  · rw [failed_cons_ok hok, ← hcarrier]
  · rw [List.map_cons, List.sum_cons, ← hcollisions, Nat.add_comm]

/-- A packet that failed adds its collisions and its errors: two by their
    bits, and two by the bits that the products keep. -/
theorem exact_failed_iff {txstatus : BitVec 32} (hs : Exact h s)
    (hlook : s'.dev = (reclaimOne txstatus s.dev).2) (hconcluded : Concluded txstatus)
    (hfails : txstatus &&& TxStatOK = 0) : Exact ((s, .look txstatus) :: h) s' ↔
      (txstatus &&& TxOutOfWindow ≠ 0 ↔ txstatus &&& 7 ≠ 0) ∧
        (txstatus &&& TxCarrierLost ≠ 0 ↔ txstatus &&& 1 ≠ 0) := by
  rcases hs with ⟨haborted, hfifo, hwindow, hcarrier, hcollisions⟩
  have hstats := reclaimOne_stats txstatus s.dev
  rw [← hlook, if_pos ⟨hconcluded, hfails⟩] at hstats
  have hfinals : finals ((s, .look txstatus) :: h) = txstatus :: finals h := if_pos hconcluded
  have hwindow_iff : s'.dev.stats.txWindowErrors = failed TxOutOfWindow (txstatus :: finals h) ↔
      (txstatus &&& TxOutOfWindow ≠ 0 ↔ txstatus &&& 7 ≠ 0) := by
    rw [hstats, failed_cons_failed hfails, ← mul_TxOutOfWindow_iff]
    exact count_eq_iff hwindow
  have hcarrier_iff : s'.dev.stats.txCarrierErrors = failed TxCarrierLost (txstatus :: finals h) ↔
      (txstatus &&& TxCarrierLost ≠ 0 ↔ txstatus &&& 1 ≠ 0) := by
    rw [hstats, failed_cons_failed hfails, ← mul_TxCarrierLost_iff]
    exact count_eq_iff hcarrier
  rw [← hwindow_iff, ← hcarrier_iff, ← hfinals]
  constructor
  · intro hexact
    exact ⟨hexact.window, hexact.carrier⟩
  · rintro ⟨hwindow', hcarrier'⟩
    refine ⟨?_, ?_, hwindow', hcarrier', ?_⟩
    all_goals rw [hfinals, hstats]
    · rw [failed_cons_failed hfails, ← haborted]
      rfl
    · rw [failed_cons_failed hfails, ← hfifo]
      rfl
    · rw [List.map_cons, List.sum_cons, ← hcollisions, Nat.add_comm]
      rfl

/-- A look at a descriptor keeps the counters exact under the condition, and
    only under it. -/
theorem exact_look_iff {txstatus : BitVec 32} (hs : Exact h s)
    (hlook : s'.dev = (reclaimOne txstatus s.dev).2) :
    Exact ((s, .look txstatus) :: h) s' ↔ Telling (.look txstatus : Step α) := by
  by_cases hconcluded : Concluded txstatus
  · by_cases hok : txstatus &&& TxStatOK = 0
    · rw [exact_failed_iff hs hlook hconcluded hok]
      exact ⟨fun hbits => ⟨fun hwaits => absurd hconcluded hwaits, fun _ _ => hbits⟩,
        fun htelling => htelling.2 hconcluded hok⟩
    · refine iff_of_true (exact_sent hs hlook hconcluded hok) ?_
      exact ⟨fun hwaits => absurd hconcluded hwaits, fun _ hfails => absurd hfails hok⟩
  · rw [exact_waits_iff hs hlook hconcluded]
    exact ⟨fun hnone => ⟨fun _ => hnone, fun h => absurd h hconcluded⟩,
      fun htelling => htelling.1 hconcluded⟩

/-- The rest of the driver leaves the transmit counters alone. -/
theorem exact_of_kept {l : Step α} (hs : Exact h s) (hfinals : finals ((s, l) :: h) = finals h)
    (hstats : s'.dev.stats = s.dev.stats) : Exact ((s, l) :: h) s' := by
  rcases hs with ⟨haborted, hfifo, hwindow, hcarrier, hcollisions⟩
  rw [← hstats] at haborted hfifo hwindow hcarrier hcollisions
  rw [← hfinals] at haborted hfifo hwindow hcarrier hcollisions
  exact ⟨haborted, hfifo, hwindow, hcarrier, hcollisions⟩

/-- A step keeps the counters exact under the condition, and only under it. -/
theorem step_exact_iff {l : Step α} (hs : Exact h s) (hstep : step l s = some s') :
    Exact ((s, l) :: h) s' ↔ Telling l := by
  cases l with
  | openDevice | stop =>
      cases hstep
      exact iff_of_true (exact_of_kept hs rfl rfl) trivial
  | startXmit skb len =>
      cases hstep
      exact iff_of_true (exact_of_kept hs rfl (startXmit_kept skb len s.dev).2) trivial
  | enter isr =>
      simp only [step, Option.ite_none_right_eq_some, Option.some.injEq] at hstep
      rcases hstep with ⟨_, rfl⟩
      exact iff_of_true (exact_of_kept hs rfl rfl) trivial
  | look txstatus =>
      simp only [step, Option.ite_none_right_eq_some, Option.some.injEq] at hstep
      rcases hstep with ⟨_, rfl⟩
      exact exact_look_iff hs rfl
  | leave =>
      simp only [step, Option.ite_none_right_eq_some, Option.some.injEq] at hstep
      rcases hstep with ⟨_, rfl⟩
      exact iff_of_true (exact_of_kept hs rfl rfl) trivial
  | receive ring skb =>
      simp only [step, Option.ite_none_right_eq_some, Option.some.injEq] at hstep
      rcases hstep with ⟨_, rfl⟩
      rcases hs with ⟨haborted, hfifo, hwindow, hcarrier, hcollisions⟩
      -- A dropped packet moves the receive counters.
      cases skb <;> exact iff_of_true ⟨haborted, hfifo, hwindow, hcarrier, hcollisions⟩ trivial

/-- The counters are exact at every point of a run exactly if every status that
    it looks at is telling. -/
theorem run_exact_iff (hr : Run step Sys.zeroed h s) :
    EveryPoint Exact h s ↔ EveryStep (fun _ _ => Telling) h := by
  refine hr.everyPoint_iff_everyStep ⟨rfl, rfl, rfl, rfl, rfl⟩ ?_
  intro h s l s' _ hs hstep
  exact step_exact_iff hs hstep

/-- A packet that is looked at while the card still has it, and then fails for
    all four reasons after two collisions, and one that is sent after three. -/
theorem run_exact_two : ∃ (h : History (Sys Nat) (Step Nat)) (s : Sys Nat),
    Run step Sys.zeroed h s ∧ (finals h).length = 2 ∧ s.dev.stats.collisions = 5 ∧
      s.dev.stats.txCarrierErrors = 1 ∧ EveryPoint Exact h s := by
  rcases exists_run_of_exec step (Sys.zeroed : Sys Nat)
    [.openDevice, .startXmit 0 61, .startXmit 1 60, .enter TxOK, .look 0x3D, .enter TxErr,
      .look 0xE200403D, .look 0x0300803C, .leave]
    (fun h s => EveryStep (fun _ _ => Telling) h ∧ (finals h).length = 2 ∧
      s.dev.stats.collisions = 5 ∧ s.dev.stats.txCarrierErrors = 1) (by decide) with
    ⟨h, s, hr, hp⟩
  rcases of_decide_eq_true hp with ⟨htelling, htwo, hfive, hone⟩
  exact ⟨h, s, hr, htwo, hfive, hone, (run_exact_iff hr).mpr htelling⟩

/-- A packet of 61 bytes is aborted. The length is odd, so the driver counts
    two errors that the card has not reported. -/
theorem run_odd_length : ∃ (h : History (Sys Nat) (Step Nat)) (s : Sys Nat),
    Run step Sys.zeroed h s ∧ finals h = [TxAborted ||| 61] ∧
      s.dev.stats.txWindowErrors = 1 ∧ s.dev.stats.txCarrierErrors = 1 ∧
      ¬ EveryPoint Exact h s := by
  rcases exists_run_of_exec step (Sys.zeroed : Sys Nat)
    [.openDevice, .startXmit 0 61, .enter TxErr, .look (TxAborted ||| 61), .leave]
    (fun h s => ¬ EveryStep (fun _ _ => Telling) h ∧ finals h = [TxAborted ||| 61] ∧
      s.dev.stats.txWindowErrors = 1 ∧ s.dev.stats.txCarrierErrors = 1) (by decide) with
    ⟨h, s, hr, hp⟩
  rcases of_decide_eq_true hp with ⟨hnot, hfinals, hwindow, hcarrier⟩
  exact ⟨h, s, hr, hfinals, hwindow, hcarrier, fun hall => hnot ((run_exact_iff hr).mp hall)⟩

end Runs

end Statistics

end Rtl8139

end KernelModules
