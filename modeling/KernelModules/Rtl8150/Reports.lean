import KernelModules.Kernel.User
import KernelModules.Lib.Run

/-!
# Interrupt Reports of the RTL8150

`intr_callback` over any number of completions of the interrupt URB, with any
statuses and any contents of its buffer. The driver starts with the URB
submitted, and the callback submits it again unless it was unlinked, which
always succeeds here.

A completion with status 0 is a report. It carries the link bit and the bits
of transmit errors. The carrier is changed only where it differs from the
report, and the counters go by masks that share a bit. What a run leaves is
still a plain function of the reports: the carrier is the link bit of the last
one, and `tx_errors` counts those with an error bit (`run_follows`).

## Main definitions

* `Netdev`, `intrCallback`: The device and the callback.
* `linkOf`, `HasError`: What a report says.
* `lastLink`, `errorReports`, `Unlinked`: The reports of a history.
* `Follows`, `Counts`: The laws.

## Theorems

* `tsrErrors_iff`: The mask of all errors is the four bits.
* `intrCallback_carrier`, `intrCallback_counts`: What the callback does.
* `run_follows`: The state follows the reports.
-/

namespace KernelModules

namespace Rtl8150

namespace Reports

open Kernel Lib

def MSR_LINK : BitVec 8 := 1 <<< 2

abbrev INTBUFSIZE : Nat := 8

def TSR_ECOL : BitVec 8 := 1 <<< 5
def TSR_LCOL : BitVec 8 := 1 <<< 4
def TSR_LOSS_CRS : BitVec 8 := 1 <<< 3
def TSR_JBR : BitVec 8 := 1 <<< 2
def TSR_ERRORS : BitVec 8 := TSR_ECOL ||| TSR_LCOL ||| TSR_LOSS_CRS ||| TSR_JBR

def INT_TSR : Fin INTBUFSIZE := 0
def INT_MSR : Fin INTBUFSIZE := 2

/-- What the callback changes: the carrier flag, four counters, and whether the
    URB is submitted. The counters are `unsigned long` in the source, and none of
    them is taken to wrap. -/
structure Netdev where
  carrierOk : Bool
  txErrors : Nat
  txAbortedErrors : Nat
  txWindowErrors : Nat
  txCarrierErrors : Nat
  submitted : Bool

/-- The counters of a report. -/
def countErrors (d : Fin INTBUFSIZE → BitVec 8) (s : Netdev) : Netdev :=
  if d 0 &&& TSR_ERRORS ≠ 0 then
    { s with
      txErrors := s.txErrors + 1
      txAbortedErrors :=
        s.txAbortedErrors + if d INT_TSR &&& (TSR_ECOL ||| TSR_JBR) ≠ 0 then 1 else 0
      txWindowErrors := s.txWindowErrors + if d INT_TSR &&& TSR_LCOL ≠ 0 then 1 else 0
      txCarrierErrors := s.txCarrierErrors + if d INT_TSR &&& TSR_LOSS_CRS ≠ 0 then 1 else 0 }
  else s

/-- The link status of a report, where it is news to the stack. -/
def reportLink (d : Fin INTBUFSIZE → BitVec 8) (s : Netdev) : Netdev :=
  if d INT_MSR &&& MSR_LINK = 0 then
    if s.carrierOk then { s with carrierOk := false } else s
  else if s.carrierOk then s
  else { s with carrierOk := true }

/-- `intr_callback` for a URB that completed with this status and buffer. -/
def intrCallback (status : Int) (d : Fin INTBUFSIZE → BitVec 8) (s : Netdev) : Netdev :=
  if status = 0 then { reportLink d (countErrors d s) with submitted := true }
  -- The URB was unlinked.
  else if status = -ECONNRESET ∨ status = -ENOENT ∨ status = -ESHUTDOWN then s
  else { s with submitted := true }

/-- A completion of the URB, with its status and the contents of its buffer. -/
structure Completion where
  status : Int
  buffer : Fin INTBUFSIZE → BitVec 8

/-- A URB completes that was submitted. -/
def step (c : Completion) (s : Netdev) : Option Netdev :=
  if s.submitted then some (intrCallback c.status c.buffer { s with submitted := false }) else none

/-- The link bit of a report. -/
def linkOf (c : Completion) : Bool := c.buffer INT_MSR &&& MSR_LINK ≠ 0

/-- A report with one of the four error bits. -/
def HasError (c : Completion) : Prop :=
  c.status = 0 ∧ ∃ bit ∈ [TSR_ECOL, TSR_LCOL, TSR_LOSS_CRS, TSR_JBR], c.buffer INT_TSR &&& bit ≠ 0

instance (c : Completion) : Decidable (HasError c) := inferInstanceAs (Decidable (_ ∧ _))

/-- The link bit of the last report, or how the carrier was before there was
    one. -/
def lastLink (carrierOk : Bool) : History Netdev Completion → Bool
  | [] => carrierOk
  | (_, c) :: h => if c.status = 0 then linkOf c else lastLink carrierOk h

/-- How many reports had an error bit. -/
def errorReports : History Netdev Completion → Nat
  | [] => 0
  | (_, c) :: h => if HasError c then errorReports h + 1 else errorReports h

/-- The URB was unlinked. -/
def Unlinked (h : History Netdev Completion) : Prop :=
  ∃ p ∈ h, p.2.status = -ECONNRESET ∨ p.2.status = -ENOENT ∨ p.2.status = -ESHUTDOWN

/-- A run that started in `init` and ended in `s` with history `h`: the carrier
    and `tx_errors` are what the reports say, and the URB is submitted until it
    is unlinked. -/
structure Follows (init : Netdev) (h : History Netdev Completion) (s : Netdev) : Prop where
  carrier : s.carrierOk = lastLink init.carrierOk h
  txErrors : s.txErrors = init.txErrors + errorReports h
  submitted : s.submitted = true ↔ ¬ Unlinked h

/-- A report with an error bit adds to one of the detailed counters at least,
    and any other completion to none of them. -/
def Counts (s : Netdev) (c : Completion) : Prop :=
  let s' := intrCallback c.status c.buffer { s with submitted := false }
  if HasError c then
    s.txAbortedErrors < s'.txAbortedErrors ∨ s.txWindowErrors < s'.txWindowErrors ∨
      s.txCarrierErrors < s'.txCarrierErrors
  else
    s'.txAbortedErrors = s.txAbortedErrors ∧ s'.txWindowErrors = s.txWindowErrors ∧
      s'.txCarrierErrors = s.txCarrierErrors

section Callback

theorem and_or_eq_zero (x a b : BitVec 8) : x &&& (a ||| b) = 0 ↔ x &&& a = 0 ∧ x &&& b = 0 := by
  rw [BitVec.and_or_distrib_left]
  exact BitVec.or_eq_zero_iff

/-- The mask of all errors has a bit exactly if one of the four is there. -/
theorem tsrErrors_iff (x : BitVec 8) : x &&& TSR_ERRORS ≠ 0 ↔
    ∃ bit ∈ [TSR_ECOL, TSR_LCOL, TSR_LOSS_CRS, TSR_JBR], x &&& bit ≠ 0 := by
  rw [← not_iff_not]
  simp only [TSR_ERRORS, and_or_eq_zero, ne_eq, Decidable.not_not, List.mem_cons,
    List.not_mem_nil, or_false, exists_eq_or_imp, exists_eq_left, not_or, and_assoc]

variable {d : Fin INTBUFSIZE → BitVec 8} {s s' : Netdev} {c : Completion}
  {h : History Netdev Completion} {init : Netdev}

theorem reportLink_carrier : (reportLink d s).carrierOk = decide (d INT_MSR &&& MSR_LINK ≠ 0) := by
  unfold reportLink
  by_cases hlink : d INT_MSR &&& MSR_LINK = 0
  · rw [if_pos hlink, decide_eq_false (not_not.mpr hlink)]
    cases hok : s.carrierOk with
    | true => rfl
    | false => exact hok
  · rw [if_neg hlink, decide_eq_true hlink]
    cases hok : s.carrierOk with
    | true => exact hok
    | false => rfl

/-- Reporting the link changes nothing else. -/
theorem reportLink_rest : (reportLink d s).txErrors = s.txErrors ∧
    (reportLink d s).txAbortedErrors = s.txAbortedErrors ∧
    (reportLink d s).txWindowErrors = s.txWindowErrors ∧
    (reportLink d s).txCarrierErrors = s.txCarrierErrors := by
  unfold reportLink
  split <;> split <;> exact ⟨rfl, rfl, rfl, rfl⟩

/-- The three ways in which the callback returns. -/
theorem intrCallback_cases (status : Int) (d : Fin INTBUFSIZE → BitVec 8) (s : Netdev) :
    (status = 0 ∧
      intrCallback status d s = { reportLink d (countErrors d s) with submitted := true }) ∨
    (status ≠ 0 ∧ (status = -ECONNRESET ∨ status = -ENOENT ∨ status = -ESHUTDOWN) ∧
      intrCallback status d s = s) ∨
    (status ≠ 0 ∧ ¬ (status = -ECONNRESET ∨ status = -ENOENT ∨ status = -ESHUTDOWN) ∧
      intrCallback status d s = { s with submitted := true }) := by
  unfold intrCallback
  by_cases hstatus : status = 0
  · rw [if_pos hstatus]
    exact .inl ⟨hstatus, rfl⟩
  · rw [if_neg hstatus]
    by_cases hunlink : status = -ECONNRESET ∨ status = -ENOENT ∨ status = -ESHUTDOWN
    · rw [if_pos hunlink]
      exact .inr (.inl ⟨hstatus, hunlink, rfl⟩)
    · rw [if_neg hunlink]
      exact .inr (.inr ⟨hstatus, hunlink, rfl⟩)

theorem intrCallback_carrier : (intrCallback c.status c.buffer s).carrierOk =
    if c.status = 0 then linkOf c else s.carrierOk := by
  rcases intrCallback_cases c.status c.buffer s with ⟨hstatus, hcall⟩ | ⟨hstatus, _, hcall⟩ |
    ⟨hstatus, _, hcall⟩
  · rw [hcall, if_pos hstatus]
    exact reportLink_carrier
  · rw [hcall, if_neg hstatus]
  · rw [hcall, if_neg hstatus]

/-- The callback asks for the error bits in one mask, by another name of the
    same byte. -/
theorem hasError_iff (hstatus : c.status = 0) :
    HasError c ↔ c.buffer 0 &&& TSR_ERRORS ≠ 0 := by
  rw [tsrErrors_iff, HasError]
  exact and_iff_right hstatus

theorem intrCallback_txErrors : (intrCallback c.status c.buffer s).txErrors =
    if HasError c then s.txErrors + 1 else s.txErrors := by
  rcases intrCallback_cases c.status c.buffer s with ⟨hstatus, hcall⟩ | ⟨hstatus, _, hcall⟩ |
    ⟨hstatus, _, hcall⟩
  · rw [hcall]
    simp only [reportLink_rest.1, countErrors]
    by_cases herr : HasError c
    · rw [if_pos herr, if_pos ((hasError_iff hstatus).mp herr)]
    · rw [if_neg herr, if_neg (mt (hasError_iff hstatus).mpr herr)]
  · rw [hcall, if_neg fun herr => hstatus herr.1]
  · rw [hcall, if_neg fun herr => hstatus herr.1]

/-- Each error bit counts in one of the detailed counters. -/
theorem countErrors_grows (s : Netdev) (herr : HasError c) :
    s.txAbortedErrors < (countErrors c.buffer s).txAbortedErrors ∨
      s.txWindowErrors < (countErrors c.buffer s).txWindowErrors ∨
      s.txCarrierErrors < (countErrors c.buffer s).txCarrierErrors := by
  rcases herr with ⟨hstatus, bit, hbit, hset⟩
  rw [countErrors, if_pos ((hasError_iff hstatus).mp ⟨hstatus, bit, hbit, hset⟩)]
  simp only [List.mem_cons, List.not_mem_nil, or_false] at hbit
  rcases hbit with rfl | rfl | rfl | rfl
  · rw [if_pos fun hzero => hset ((and_or_eq_zero _ _ _).mp hzero).1]
    exact .inl (Nat.lt_succ_self _)
  · rw [if_pos hset]
    exact .inr (.inl (Nat.lt_succ_self _))
  · rw [if_pos hset]
    exact .inr (.inr (Nat.lt_succ_self _))
  · rw [if_pos fun hzero => hset ((and_or_eq_zero _ _ _).mp hzero).2]
    exact .inl (Nat.lt_succ_self _)

theorem intrCallback_counts (s : Netdev) (c : Completion) : Counts s c := by
  unfold Counts
  simp only
  rcases intrCallback_cases c.status c.buffer { s with submitted := false } with
    ⟨hstatus, hcall⟩ | ⟨hstatus, _, hcall⟩ | ⟨hstatus, _, hcall⟩
  · rw [hcall]
    simp only [reportLink_rest.2.1, reportLink_rest.2.2.1, reportLink_rest.2.2.2]
    by_cases herr : HasError c
    · rw [if_pos herr]
      exact countErrors_grows { s with submitted := false } herr
    · rw [if_neg herr, countErrors, if_neg (mt (hasError_iff hstatus).mpr herr)]
      exact ⟨rfl, rfl, rfl⟩
  · rw [hcall, if_neg fun herr => hstatus herr.1]
    exact ⟨rfl, rfl, rfl⟩
  · rw [hcall, if_neg fun herr => hstatus herr.1]
    exact ⟨rfl, rfl, rfl⟩

theorem intrCallback_submitted (hs : s.submitted = false) :
    (intrCallback c.status c.buffer s).submitted = true ↔
      ¬ (c.status = -ECONNRESET ∨ c.status = -ENOENT ∨ c.status = -ESHUTDOWN) := by
  rcases intrCallback_cases c.status c.buffer s with ⟨hstatus, hcall⟩ | ⟨_, hunlink, hcall⟩ |
    ⟨_, hlinked, hcall⟩
  · rw [hcall, hstatus]
    exact iff_of_true rfl (by decide)
  · rw [hcall, hs]
    exact iff_of_false Bool.false_ne_true (not_not.mpr hunlink)
  · rw [hcall]
    exact iff_of_true rfl hlinked

theorem unlinked_cons : Unlinked ((s, c) :: h) ↔
    (c.status = -ECONNRESET ∨ c.status = -ENOENT ∨ c.status = -ESHUTDOWN) ∨ Unlinked h := by
  simp only [Unlinked, List.mem_cons, exists_eq_or_imp]

/-- A completion keeps the state what the reports say. -/
theorem step_follows (hf : Follows init h s) (hstep : step c s = some s') :
    Follows init ((s, c) :: h) s' := by
  simp only [step, Option.ite_none_right_eq_some, Option.some.injEq] at hstep
  rcases hstep with ⟨hsubmitted, rfl⟩
  refine ⟨?_, ?_, ?_⟩
  · rw [intrCallback_carrier, lastLink, hf.carrier]
  · rw [intrCallback_txErrors, errorReports, hf.txErrors]
    split <;> rfl
  · rw [intrCallback_submitted rfl, unlinked_cons, or_iff_left (hf.submitted.mp hsubmitted)]

/-- Carrier, error counters and URB follow the reports over every run. -/
theorem run_follows (hinit : init.submitted = true) (hr : Run step init h s) :
    Follows init h s ∧ EveryStep (fun _ => Counts) h := by
  constructor
  · refine hr.historyInvariant (Follows init) ⟨rfl, rfl, ?_⟩ ?_
    · refine iff_of_true hinit ?_
      rintro ⟨p, hp, _⟩
      exact List.not_mem_nil hp
    · intro h s c s' _ hf hstep
      exact step_follows hf hstep
  · exact hr.everyStep_of fun _ s c _ _ _ => intrCallback_counts s c

end Callback

/-- The buffer of a report with these bytes for the transmit and the medium
    status. -/
def reportOf (tsr msr : BitVec 8) : Fin INTBUFSIZE → BitVec 8 :=
  fun i => if i = INT_TSR then tsr else if i = INT_MSR then msr else 0

/-- The link comes up, two bits of errors come in one report, an error status
    comes with a buffer that does not count, and the URB is unlinked. -/
theorem run_follows_down : ∃ init h s, init.carrierOk = false ∧ Follows init h s ∧
    EveryStep (fun _ => Counts) h ∧ s.carrierOk = true ∧ s.txErrors = 6 ∧ s.submitted = false := by
  rcases exists_run_of_exec step
    { carrierOk := false, txErrors := 5, txAbortedErrors := 0, txWindowErrors := 0,
      txCarrierErrors := 0, submitted := true }
    [⟨0, reportOf 0 MSR_LINK⟩, ⟨0, reportOf (TSR_ECOL ||| TSR_LCOL) MSR_LINK⟩,
      ⟨-ETIME, reportOf TSR_JBR 0⟩, ⟨-ENOENT, reportOf 0 0⟩]
    (fun _ s => s.carrierOk = true ∧ s.txErrors = 6 ∧ s.submitted = false) (by decide) with
    ⟨h, s, hr, hp⟩
  rcases run_follows rfl hr with ⟨hfollows, hcounts⟩
  exact ⟨_, h, s, rfl, hfollows, hcounts, of_decide_eq_true hp⟩

end Reports

end Rtl8150

end KernelModules
