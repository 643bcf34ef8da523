import KernelModules.Simple.Registers

/-!
# What Stores Leave in the Buffer

The buffer of the simple driver is printed as a string, and it is written to
by user space, with nothing in between. `simple_write` and `SETMSG` copy raw
bytes into the live buffer, so a string need not end inside it, and a copy
that stops at a fault has already changed it: the readable bytes are stored,
and zeros behind them.

The calls are those of `Simple.Registers`, with memory that may fault. What a
byte of the buffer is goes back to the last call that covered it
(`run_supplied`). The string that an ioctl prints ends inside the buffer
exactly if one of these bytes is zero (`run_terminated_iff`).

## Main definitions

* `contentsStep`: Calls that copy no more than the buffer has.
* `printed`: What an ioctl prints.
* `Terminated`, `PrintsTerminated`: That it ends inside the buffer.
* `Kept`, `AlreadyThere`: The buffer as it was, and what a copy that stops at a
  fault would leave.

## Theorems

* `printed_eq`: A call prints what it leaves in the buffer.
* `run_supplied`: Each byte is the last one stored.
* `run_terminated_iff`: When every printed string ends inside the buffer.
* `copyIn_kept_iff`: When a copy that faults is harmless.
* `store_fault_iff`: The same for the two calls that store.
-/

namespace KernelModules

namespace Simple

open Kernel Lib

/-- The calls that ask for no more than the buffer has. -/
def contentsStep (c : Call) (d : Dev) : Option Dev :=
  if c.reach ≤ LENTH then some (c.result d).2 else none

/-- The memory from `kbuffer` on that `printk` is given as a string: after a
    `GETMSG` or a `SETMSG` that has not returned an error before. -/
def printed (d : Dev) : Call → Option (Nat → UInt8)
  | .ioctl cmd arg =>
    if (cmd = GETMSG ∨ cmd = SETMSG) ∧ (simpleIoctl cmd arg d).1 = 0 then
      some (simpleIoctl cmd arg d).2.2.mem
    else none
  | .write _ _ | .read _ _ => none

/-- A string ends inside the buffer. -/
def Terminated (mem : Nat → UInt8) : Prop := ∃ k < LENTH, mem k = 0

/-- What a call prints ends inside the buffer. -/
def PrintsTerminated (_ : History Dev Call) (d : Dev) (c : Call) : Prop :=
  ∀ mem ∈ printed d c, Terminated mem

instance (mem : Nat → UInt8) : Decidable (Terminated mem) :=
  inferInstanceAs (Decidable (∃ k < LENTH, mem k = 0))

/-- The bytes of the buffer are those of before. -/
def Kept (d d' : Dev) : Prop := ∀ k < LENTH, d'.mem k = d.mem k

/-- The first `n` bytes of the buffer are the readable ones of the user's and
    zeros behind them. -/
def AlreadyThere (u : UserMem) (n : Nat) (d : Dev) : Prop :=
  ∀ k < n, d.mem k = if k < readable u 0 n then getUser u k else 0

section Calls

variable {d d' : Dev} {c : Call} {u : UserMem} {n : Nat}

/-- A copy into the buffer reports an error exactly if it stops at a fault. -/
theorem copyIn_ret : (copyIn u n d).1 = 0 ↔ NoFault u n := copyFromUser_eq_zero_iff

theorem copyOut_ret : (copyOut u n d).1 = 0 ↔ NoFault u n := by
  have hret := copyToUser_eq_zero_iff (u := u) (d.fetch n)
  rw [fetch_length] at hret
  exact hret

/-- An ioctl prints exactly if its buffer does not fault, and then what it
    leaves in the driver's. -/
theorem printed_eq (d : Dev) (c : Call) :
    printed d c = if Prints c then some (c.result d).2.mem else none := by
  have hfault : -EFAULT ≠ 0 := by decide
  cases c with
  | write u len => rfl
  | read u len => rfl
  | ioctl cmd arg =>
      -- The value returned is zero where the copy met no fault.
      refine if_congr ?_ rfl rfl
      cases arg with
      | none =>
          refine iff_of_false ?_ id
          rintro ⟨rfl | rfl, hret⟩
          · exact absurd (show -EINVAL = 0 from hret) (by decide)
          · exact absurd (show -EINVAL = 0 from hret) (by decide)
      | some u =>
          refine and_congr_right ?_
          rintro (rfl | rfl)
          · rw [← copyOut_ret (d := d), (getmsg_spec u d).1]
            simp only [ite_eq_right_iff, hfault, imp_false, ne_eq, not_not]
          · rw [← copyIn_ret (d := d), (setmsg_spec u d).1]
            simp only [ite_eq_right_iff, hfault, imp_false, ne_eq, not_not]

theorem contentsStep_eq (hstep : contentsStep c d = some d') : d' = (c.result d).2 := by
  simp only [contentsStep, Option.ite_none_right_eq_some, Option.some.injEq] at hstep
  exact hstep.2.symm

end Calls

section Runs

variable {mem : Nat → UInt8} {h : History Dev Call} {d : Dev} {k : Nat}

/-- Every byte of the buffer is the last one stored there. -/
theorem run_supplied (hr : Run contentsStep (simpleInit mem) h d) (hk : k < LENTH) :
    d.mem k = lastSupplied h k := by
  refine hr.historyInvariant (fun h d => d.mem k = lastSupplied h k) (simpleInit_mem mem hk) ?_
  intro h d c d' _ hd hstep
  rw [contentsStep_eq hstep, result_mem, hd, lastSupplied]

/-- The strings that are printed end inside the buffer in the runs in which
    every ioctl that prints finds a zero among the bytes last stored, and in no
    others. -/
theorem run_terminated_iff (hr : Run contentsStep (simpleInit mem) h d) :
    EveryStep PrintsTerminated h ↔ EveryStep EndsInside h := by
  refine hr.everyStep_iff ?_
  intro h d c d' hr hstep
  -- The call prints what it leaves, so its own bytes count.
  have hafter : ∀ k < LENTH, (c.result d).2.mem k = lastSupplied ((d, c) :: h) k := by
    intro k hk
    rw [← contentsStep_eq hstep]
    exact run_supplied (hr.next c hstep) hk
  rw [PrintsTerminated, printed_eq, EndsInside]
  by_cases hprints : Prints c
  · rw [if_pos hprints]
    simp only [Option.mem_def, Option.some.injEq, forall_eq', hprints, true_implies]
    exact exists_congr fun k => and_congr_right fun hk => by rw [hafter k hk]
  · rw [if_neg hprints]
    exact iff_of_true (fun mem hmem => absurd hmem (Option.not_mem_none mem))
      fun h => absurd h hprints

/-- The message is printed, 100 letters are written and then twenty zeros over
    the first of them, and the buffer is printed again. -/
theorem run_terminated_again : ∃ h d, Run contentsStep (simpleInit fun _ => 1) h d ∧
    d.mem 19 = 0 ∧ d.mem 99 = 66 ∧ EveryStep PrintsTerminated h := by
  rcases exists_run_of_exec contentsStep (simpleInit fun _ => 1)
    [.ioctl GETMSG (some (filled 1)), .write (filled 66) 100, .write (filled 0) 20,
      .ioctl GETMSG (some (filled 1))]
    (fun h d => EveryStep EndsInside h ∧ d.mem 19 = 0 ∧ d.mem 99 = 66)
    (by decide +kernel) with ⟨h, d, hr, hp⟩
  rcases of_decide_eq_true hp with ⟨hends, h19, h99⟩
  exact ⟨h, d, hr, h19, h99, (run_terminated_iff hr).mpr hends⟩

/-- A `SETMSG` of 100 letters, which is printed with what is behind it. -/
theorem run_unterminated : ∃ h d, Run contentsStep (simpleInit fun _ => 1) h d ∧
    h.map Prod.snd = [.ioctl SETMSG (some (filled 65))] ∧
    (simpleIoctl SETMSG (some (filled 65)) (simpleInit fun _ => 1)).1 = 0 ∧
    ¬ EveryStep PrintsTerminated h := by
  have hstep : contentsStep (.ioctl SETMSG (some (filled 65))) (simpleInit fun _ => 1) =
      some ((Call.ioctl SETMSG (some (filled 65))).result (simpleInit fun _ => 1)).2 := rfl
  refine ⟨_, _, .next _ .start hstep, rfl, by decide +kernel, fun hall => ?_⟩
  have hprinted : printed (simpleInit fun _ => 1) (.ioctl SETMSG (some (filled 65))) =
      some ((Call.ioctl SETMSG (some (filled 65))).result (simpleInit fun _ => 1)).2.mem := by
    rw [printed_eq, if_pos (by decide +kernel)]
  exact absurd (hall.1 _ hprinted) (by decide +kernel)

end Runs

section Faults

variable {u : UserMem} {d : Dev} {n : Nat}

/-- A copy that reports a fault keeps the buffer exactly if there is no fault,
    or the buffer has already what it would leave. -/
theorem copyIn_kept_iff (hn : n ≤ LENTH) :
    ((copyIn u n d).1 ≠ 0 → Kept d (copyIn u n d).2) ↔ NoFault u n ∨ AlreadyThere u n d := by
  -- Behind the `n` bytes nothing is stored.
  have hkept : Kept d (copyIn u n d).2 ↔ AlreadyThere u n d := by
    constructor
    · intro hkept k hk
      have hmem := hkept k (Nat.lt_of_lt_of_le hk hn)
      rw [copyIn_mem, copyFromUser_getElem u n hk, Option.getD_some] at hmem
      exact hmem.symm
    · intro hthere k _
      rw [copyIn_mem]
      by_cases hk : k < n
      · rw [copyFromUser_getElem u n hk, Option.getD_some, hthere k hk]
      · rw [List.getElem?_eq_none (by rw [copyFromUser_length]; exact Nat.not_lt.mp hk),
          Option.getD_none]
  rw [hkept, ne_eq, copyIn_ret]
  exact or_iff_not_imp_left.symm

/-- A store that returns `-EFAULT` keeps the buffer exactly under that
    condition, whether it is a write or a `SETMSG`. -/
theorem store_fault_iff (u : UserMem) (d : Dev) :
    (∀ len ≤ LENTH, ((simpleWrite u len d).1 = -EFAULT → Kept d (simpleWrite u len d).2) ↔
      (NoFault u len ∨ AlreadyThere u len d)) ∧
    (((simpleIoctl SETMSG (some u) d).1 = -EFAULT → Kept d (simpleIoctl SETMSG (some u) d).2.2) ↔
      (NoFault u LENTH ∨ AlreadyThere u LENTH d)) := by
  have hret : ∀ n, (if (copyIn u n d).1 ≠ 0 then -EFAULT else 0) = -EFAULT ↔
      (copyIn u n d).1 ≠ 0 := by
    intro n
    rw [ite_eq_left_iff, not_imp_comm]
    exact ⟨fun h => h (by decide), fun h _ => h⟩
  refine ⟨fun len hlen => ?_, ?_⟩
  · rw [← copyIn_kept_iff hlen, ← hret len]
    rfl
  · rw [← copyIn_kept_iff (Nat.le_refl LENTH), ← hret LENTH, (setmsg_spec u d).1, Kept,
      (setmsg_spec u d).2]
    rfl

/-- A buffer in which two bytes can be read. -/
def twoBytes : UserMem := fun k => if k < 2 then some 65 else none

/-- The same failed write for a second time changes nothing. -/
theorem store_fault_repeated :
    ((simpleWrite twoBytes 5 (simpleWrite twoBytes 5 (simpleInit fun _ => 1)).2).1 = -EFAULT →
      Kept (simpleWrite twoBytes 5 (simpleInit fun _ => 1)).2
        (simpleWrite twoBytes 5 (simpleWrite twoBytes 5 (simpleInit fun _ => 1)).2).2) ∧
      AlreadyThere twoBytes 5 (simpleWrite twoBytes 5 (simpleInit fun _ => 1)).2 := by
  have hthere : AlreadyThere twoBytes 5 (simpleWrite twoBytes 5 (simpleInit fun _ => 1)).2 := by
    unfold AlreadyThere
    decide +kernel
  exact ⟨((store_fault_iff twoBytes _).1 5 (by decide)).mpr (.inr hthere), hthere⟩

/-- A write of five bytes of which two can be read. -/
theorem store_fault_short :
    (simpleWrite twoBytes 5 (simpleInit fun _ => 1)).1 = -EFAULT ∧
      ¬ Kept (simpleInit fun _ => 1) (simpleWrite twoBytes 5 (simpleInit fun _ => 1)).2 := by
  refine ⟨by decide +kernel, fun hkept => ?_⟩
  exact absurd (hkept 3 (by decide)) (by decide +kernel)

end Faults

end Simple

end KernelModules
