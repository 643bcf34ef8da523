import KernelModules.Poll.Calls

/-!
# Faults in the Transfers of poll.c

`device_read` and `device_write` move their bytes with `put_user` and
`get_user`, and look at neither's result. A byte that faults counts like any
other: a read takes it out of the ring without delivering it, and a write puts
a zero in its place. Either way the call returns as if nothing had happened,
and goes on with the byte behind it.

A transfer that stops at the first fault would return the number of bytes
before it, or `-EFAULT` if there are none. That is what the laws below ask
for; and they hold exactly of the calls that meet no fault
(`run_accounts_iff`).

## Main definitions

* `Delivered`, `Fetched`: The ring and the user agree on the bytes moved.
* `ReadAccounts`, `WriteAccounts`, `Accounts`: The laws of the calls.
* `MeetsNoFault`: The condition on a call.

## Theorems

* `readTransfer_at`: What a read leaves at each address.
* `readAccounts_iff`, `writeAccounts_iff`: When a transfer keeps the books.
* `run_accounts_iff`: The same for the calls of a run.
* `run_lost_byte`: A byte that is lost.
-/

namespace KernelModules

namespace Poll

namespace Calls

open Kernel Lib

/-- A read has returned `n`, taken `n` bytes out of the ring, and delivered
    these and nothing else. -/
structure Delivered (N : Nat) (d : Dev) (u : UserMem) (r : Int × Dev × UserMem) (n : Nat) :
    Prop where
  ret : r.1 = n
  removed : r.2.1.contents N = (d.contents N).drop n
  delivered : ∀ j < n, (u j).isSome ∧ r.2.2 j = (d.contents N)[j]?
  behind : ∀ j, n ≤ j → r.2.2 j = u j

/-- A write has returned `n` and added the first `n` bytes of the buffer, all
    of which it could fetch. -/
structure Fetched (N : Nat) (d : Dev) (u : UserMem) (r : Int × Dev) (n : Nat) : Prop where
  ret : r.1 = n
  added : r.2.contents N = d.contents N ++ bytes u 0 n
  fetched : ∀ j < n, (u j).isSome

/-- An error leaves the ring alone, and any other read accounts for its bytes.
    If there is a byte to deliver and the first address faults, the error is
    `-EFAULT`. -/
structure ReadAccounts (N len : Nat) (d : Dev) (u : UserMem) (r : Int × Dev × UserMem) :
    Prop where
  error : r.1 < 0 → r.2.1 = d
  bytes : 0 ≤ r.1 → ∃ n, Delivered N d u r n
  efault : 0 < min len (d.held N) → u 0 = none → r.1 = -EFAULT

structure WriteAccounts (N len : Nat) (d : Dev) (u : UserMem) (r : Int × Dev) : Prop where
  error : r.1 < 0 → r.2 = d
  bytes : 0 ≤ r.1 → ∃ n, Fetched N d u r n
  efault : 0 < min len (d.room N) → u 0 = none → r.1 = -EFAULT

/-- What a call that is made now returns accounts for its bytes, if it
    returns. -/
def Accounts {φ : Type*} (N : Nat) (_ : History (Sys φ) (Step φ)) (s : Sys φ) : Step φ → Prop
  | .read _ nonblock len u =>
    ∀ r, deviceRead N nonblock len s.dev u = .done r → ReadAccounts N len s.dev u r
  | .write _ nonblock len u =>
    ∀ r, deviceWrite N nonblock len s.dev u = .done r → WriteAccounts N len s.dev u r
  | .openFile _ | .releaseFile _ => True

/-- No address faults that the call has a byte for, or room. -/
def MeetsNoFault {φ : Type*} (N : Nat) (_ : History (Sys φ) (Step φ)) (s : Sys φ) : Step φ → Prop
  | .read _ _ len u => NoFault u (min len (s.dev.held N))
  | .write _ _ len u => NoFault u (min len (s.dev.room N))
  | .openFile _ | .releaseFile _ => True

instance {φ : Type*} (N : Nat) (h : History (Sys φ) (Step φ)) (s : Sys φ) :
    (l : Step φ) → Decidable (MeetsNoFault N h s l)
  | .read _ _ len u => inferInstanceAs (Decidable (NoFault u (min len (s.dev.held N))))
  | .write _ _ len u => inferInstanceAs (Decidable (NoFault u (min len (s.dev.room N))))
  | .openFile _ | .releaseFile _ => .isTrue trivial

section Transfers

variable {N : Nat} {d : Dev}

/-- Where nothing faults the first address does not. -/
theorem first_of_noFault {n : Nat} {u : UserMem} (hu : NoFault u n) (hpos : 0 < n) :
    u 0 ≠ none := by
  intro hnone
  have h0 := hu 0 hpos
  rw [hnone] at h0
  exact absurd h0 Bool.false_ne_true

/-- What a read leaves at each address: the byte of the ring where there was
    one to deliver and the address does not fault. -/
theorem readTransfer_at (hd : d.Ok N) (len : Nat) (u : UserMem) (j : Nat) :
    (readTransfer N len d u).2.2 j =
      if j < min len (d.held N) ∧ (u j).isSome then (d.contents N)[j]? else u j := by
  rw [readTransfer, readLoop_eq len 0 d u hd]
  simp only
  rw [putUsers_apply, List.length_take, contents_length, Nat.zero_add, Nat.sub_zero]
  by_cases hj : j < min len (d.held N) ∧ (u j).isSome
  · rw [if_pos ⟨Nat.zero_le j, hj⟩, if_pos hj, List.getElem?_take, if_pos (by omega)]
  · rw [if_neg fun h => hj h.2, if_neg hj]

/-- A read accounts for its bytes exactly if no address faults that it has a
    byte for. -/
theorem readAccounts_iff (hd : d.Ok N) (len : Nat) (u : UserMem) :
    ReadAccounts N len d u ((readTransfer N len d u).1, (readTransfer N len d u).2) ↔
      NoFault u (min len (d.held N)) := by
  have hcount := readTransfer_count hd len u
  constructor
  · intro hacc
    rcases hacc.bytes (Int.natCast_nonneg _) with ⟨n, hn⟩
    have hret := hn.ret
    rw [hcount] at hret
    intro k hk
    exact (hn.delivered k (by omega)).1
  · intro hu
    refine ⟨fun h => absurd h (by simp only [Int.not_lt]; omega), fun _ => ?_, ?_⟩
    · refine ⟨min len (d.held N), by rw [hcount], readTransfer_contents hd len u, ?_, ?_⟩
      · intro j hj
        rw [readTransfer_at hd, if_pos ⟨hj, hu j hj⟩]
        exact ⟨hu j hj, rfl⟩
      · intro j hj
        rw [readTransfer_at hd, if_neg fun h => absurd h.1 (Nat.not_lt.mpr hj)]
    · intro hpos hnone
      exact absurd hnone (first_of_noFault hu hpos)

/-- And so does a write, for the bytes that it has room for. -/
theorem writeAccounts_iff (hd : d.Ok N) (len : Nat) (u : UserMem) :
    WriteAccounts N len d u ((writeTransfer N len d u).1, (writeTransfer N len d u).2) ↔
      NoFault u (min len (d.room N)) := by
  have hcount := writeTransfer_count hd len u
  constructor
  · intro hacc
    rcases hacc.bytes (Int.natCast_nonneg _) with ⟨n, hn⟩
    have hret := hn.ret
    rw [hcount] at hret
    intro k hk
    exact hn.fetched k (by omega)
  · intro hu
    refine ⟨fun h => absurd h (by simp only [Int.not_lt]; omega), fun _ => ?_, ?_⟩
    · exact ⟨min len (d.room N), by rw [hcount], writeTransfer_contents hd len u, hu⟩
    · intro hpos hnone
      exact absurd hnone (first_of_noFault hu hpos)

/-- A call that is turned away leaves everything as it is. -/
theorem turnedAway_done {α : Type} {nonblock : Bool} {x : α} {r : Int × α}
    (hr : turnedAway nonblock x = .done r) : r = (-EAGAIN, x) := by
  unfold turnedAway at hr
  split at hr
  · exact (Outcome.done.inj hr).symm
  · exact absurd hr (by simp only [reduceCtorEq, not_false_eq_true])

/-- The calls that are turned away have nothing to move. -/
theorem deviceRead_accounts_iff (hd : d.Ok N) (nonblock : Bool) (len : Nat) (u : UserMem) :
    (∀ r, deviceRead N nonblock len d u = .done r → ReadAccounts N len d u r) ↔
      NoFault u (min len (d.held N)) := by
  unfold deviceRead
  cases hempty : isBufferEmpty d with
  | true =>
      have hheld := hd.held_eq_zero_iff.mpr hempty
      rw [if_pos rfl, hheld, Nat.min_zero]
      refine iff_of_true (fun r hr => ?_) (fun k hk => absurd hk (Nat.not_lt_zero k))
      rw [turnedAway_done hr]
      refine ⟨fun _ => rfl, fun h : 0 ≤ -EAGAIN => absurd h (by decide), fun hpos => ?_⟩
      rw [hheld, Nat.min_zero] at hpos
      exact absurd hpos (Nat.lt_irrefl 0)
  | false =>
      rw [if_neg Bool.false_ne_true, ← readAccounts_iff hd]
      refine ⟨fun hall => hall _ rfl, fun hacc r hr => ?_⟩
      rw [← Outcome.done.inj hr]
      exact hacc

theorem deviceWrite_accounts_iff (hd : d.Ok N) (nonblock : Bool) (len : Nat) (u : UserMem) :
    (∀ r, deviceWrite N nonblock len d u = .done r → WriteAccounts N len d u r) ↔
      NoFault u (min len (d.room N)) := by
  unfold deviceWrite
  cases hfull : bufferFull d with
  | true =>
      have hroom := (hd.bufferFull_iff_room.mp hfull).1
      rw [if_pos rfl, hroom, Nat.min_zero]
      refine iff_of_true (fun r hr => ?_) (fun k hk => absurd hk (Nat.not_lt_zero k))
      rw [turnedAway_done hr]
      refine ⟨fun _ => rfl, fun h : 0 ≤ -EAGAIN => absurd h (by decide), fun hpos => ?_⟩
      rw [hroom, Nat.min_zero] at hpos
      exact absurd hpos (Nat.lt_irrefl 0)
  | false =>
      rw [if_neg Bool.false_ne_true, ← writeAccounts_iff hd]
      refine ⟨fun hall => hall _ rfl, fun hacc r hr => ?_⟩
      rw [← Outcome.done.inj hr]
      exact hacc

end Transfers

section Runs

variable {φ : Type*} [DecidableEq φ] {N : Nat} {s : Sys φ} {h : History (Sys φ) (Step φ)}

/-- In every run the calls account for their bytes exactly if none of them
    meets a fault. -/
theorem run_accounts_iff (hN : 0 < N) (hr : Run (step N) (Sys.init : Sys φ) h s) :
    EveryStep (Accounts N) h ↔ EveryStep (MeetsNoFault N) h := by
  refine hr.everyStep_iff ?_
  intro h s l s' hr _
  have hd := run_ok hN hr
  cases l with
  | openFile f => exact Iff.rfl
  | releaseFile f => exact Iff.rfl
  | read f nonblock len u => exact deviceRead_accounts_iff hd nonblock len u
  | write f nonblock len u => exact deviceWrite_accounts_iff hd nonblock len u

/-- Five bytes written from a buffer of five, and read to one of four. -/
theorem run_accounts_four : ∃ (h : History (Sys Nat) (Step Nat)) (s : Sys Nat),
    Run (step 23) Sys.init h s ∧ s.dev.contents 23 = [4] ∧ EveryStep (Accounts 23) h := by
  rcases exists_run_of_exec (step 23) (Sys.init : Sys Nat)
    [.openFile 0, .write 0 false 5 (fun k => if k < 5 then some k.toUInt8 else none),
      .read 0 false 4 (fun k => if k < 4 then some 0 else none)]
    (fun h s => EveryStep (MeetsNoFault 23) h ∧ s.dev.contents 23 = [4]) (by decide) with
    ⟨h, s, hr, hp⟩
  rcases of_decide_eq_true hp with ⟨hfree, hcontents⟩
  exact ⟨h, s, hr, hcontents, (run_accounts_iff (by decide) hr).mpr hfree⟩

/-- A byte is written, and read to an address that faults: the read returns 1,
    and the byte is gone. -/
theorem run_lost_byte : ∃ (h : History (Sys Nat) (Step Nat)) (s : Sys Nat),
    Run (step 23) Sys.init h s ∧ s.dev.contents 23 = [] ∧ ¬ EveryStep (Accounts 23) h := by
  have h0 : Run (step 23) (Sys.init : Sys Nat) [] _ := .start
  have h1 := h0.next (.openFile 0) rfl
  have h2 := h1.next (.write 0 false 1 fun _ => some 7) rfl
  have h3 := h2.next (.read 0 false 1 fun _ => none) rfl
  refine ⟨_, _, h3, by decide, fun hacc => ?_⟩
  exact absurd ((hacc.1 _ rfl).efault (by decide) rfl) (by decide)

end Runs

end Calls

end Poll

end KernelModules
