import KernelModules.Lib.Run
import KernelModules.Simple.Driver

/-!
# The Simple Driver as an Array of Bytes

Runs of `simple_write`, `simple_read` and the two ioctls, by any number of
callers and with user memory that does not fault. Every call begins at the
start of the buffer, so the calls overlap and the last one to cover a byte
decides what it is.

Inside the buffer that is what the driver does, whatever the calls
(`run_mem`). Two things take it out of the buffer. A call that asks for more
than the buffer has is not turned away, and an ioctl prints what is in the
buffer as a string, which need not end there. The driver stays inside exactly
as long as neither happens (`run_array_iff`).

## Main definitions

* `Call`, `step`: The calls.
* `Call.result`: What a call returns and leaves.
* `delivered`: What a call hands to its caller.
* `Call.supplied`, `lastSupplied`: The bytes that a call stores, and the byte
  that the last covering call stored.
* `Inside`, `Delivers`: No call leaves the buffer, and a call hands on the
  last bytes supplied.
* `Fits`, `Prints`, `EndsInside`: The condition on a call: what it copies and
  what it prints.

## Theorems

* `result_mem`, `result_touched`, `delivered_spec`: What a call does.
* `run_mem`: Each byte of the buffer is the last one supplied.
* `run_array_iff`: When the driver is an array of `LENTH` bytes.
* `run_overrun`: A write of one byte too many.
-/

namespace KernelModules

namespace Simple

open Kernel Lib

/-- A call with the memory of its caller. -/
inductive Call where
  | write (u : UserMem) (len : Nat)
  | read (u : UserMem) (len : Nat)
  | ioctl (cmd : BitVec 32) (arg : Option UserMem)

/-- How many bytes of the buffer a call copies. -/
def Call.reach : Call → Nat
  | .write _ len | .read _ len => len
  | .ioctl cmd (some _) => if cmd = GETMSG ∨ cmd = SETMSG then LENTH else 0
  | .ioctl _ none => 0

/-- The memory of the caller does not fault where the call uses it. -/
def Call.Sound : Call → Prop
  | .write u len | .read u len => NoFault u len
  | .ioctl _ arg => ∀ u ∈ arg, NoFault u LENTH

instance : (c : Call) → Decidable c.Sound
  | .write u len | .read u len => inferInstanceAs (Decidable (NoFault u len))
  | .ioctl _ arg => Option.decidableForallMem arg

/-- What a call returns, and the driver afterwards. -/
def Call.result (d : Dev) : Call → Int × Dev
  | .write u len => simpleWrite u len d
  | .read u len => ((simpleRead u len d).1, (simpleRead u len d).2.2)
  | .ioctl cmd arg => ((simpleIoctl cmd arg d).1, (simpleIoctl cmd arg d).2.2)

def step (c : Call) (d : Dev) : Option Dev := if c.Sound then some (c.result d).2 else none

/-- What a call hands to its caller: the bytes in the caller's memory after a
    read or a `GETMSG`. -/
def delivered (d : Dev) : Call → List UInt8
  | .write _ _ => []
  | .read u len => bytes (simpleRead u len d).2.1 0 len
  | .ioctl cmd arg =>
    if cmd = GETMSG then
      match (simpleIoctl cmd arg d).2.1 with
      | none => []
      | some u => bytes u 0 LENTH
    else []

/-- The bytes that a call stores at the start of the buffer: those it can read,
    and zeros behind a fault. -/
def Call.supplied : Call → List UInt8
  | .write u len => (copyFromUser u len).2
  | .ioctl cmd (some u) => if cmd = SETMSG then (copyFromUser u LENTH).2 else []
  | .read _ _ | .ioctl _ none => []

/-- The byte that the last call to cover offset `k` stored, or the initial
    one. -/
def lastSupplied : History Dev Call → Nat → UInt8
  | [], k => message[k]?.getD 0
  | (_, c) :: h, k => c.supplied[k]?.getD (lastSupplied h k)

/-- The bytes that a call hands on are the last ones supplied. -/
def Delivers (h : History Dev Call) (d : Dev) (c : Call) : Prop :=
  ∀ k, ∀ b ∈ (delivered d c)[k]?, b = lastSupplied h k

/-- No call has left the buffer. -/
def Inside (d : Dev) : Prop := ∀ k, d.touched k = true → k < LENTH

/-- The call asks for no more than the buffer has. -/
def Fits (c : Call) : Prop := c.reach ≤ LENTH

instance (c : Call) : Decidable (Fits c) := inferInstanceAs (Decidable (_ ≤ _))

/-- A call that prints: an ioctl whose buffer does not fault. -/
def Prints : Call → Prop
  | .ioctl cmd (some u) => (cmd = GETMSG ∨ cmd = SETMSG) ∧ NoFault u LENTH
  | .write _ _ | .read _ _ | .ioctl _ none => False

instance : (c : Call) → Decidable (Prints c)
  | .ioctl _ (some u) => inferInstanceAs (Decidable ((_ ∨ _) ∧ NoFault u LENTH))
  | .write _ _ | .read _ _ | .ioctl _ none => .isFalse id

/-- When a call prints, the byte last stored at some offset is zero, its own
    bytes included. -/
def EndsInside (h : History Dev Call) (d : Dev) (c : Call) : Prop :=
  Prints c → ∃ k < LENTH, lastSupplied ((d, c) :: h) k = 0

instance (h : History Dev Call) (d : Dev) (c : Call) : Decidable (EndsInside h d c) :=
  inferInstanceAs (Decidable (Prints c → ∃ k < LENTH, lastSupplied ((d, c) :: h) k = 0))

section Calls

variable {d : Dev} {c : Call} {u : UserMem} {k n : Nat}

theorem copyIn_mem : (copyIn u n d).2.mem k = (copyFromUser u n).2[k]?.getD (d.mem k) := rfl

/-- A call leaves the bytes that it stores, and the others as they were. -/
theorem result_mem (d : Dev) (c : Call) (k : Nat) :
    (c.result d).2.mem k = c.supplied[k]?.getD (d.mem k) := by
  have hne : GETMSG ≠ SETMSG := by decide
  cases c with
  | write u len => rfl
  | read u len => rfl
  | ioctl cmd arg =>
      cases arg with
      | none =>
          rcases simpleIoctl_null (d := d) cmd with ⟨e, hcall⟩
          simp only [Call.result, hcall, Call.supplied, List.getElem?_nil, Option.getD_none]
      | some u =>
          -- Only a `SETMSG` copies in, a `GETMSG` copies out.
          by_cases hset : cmd = SETMSG
          · subst hset
            simp only [Call.result, (setmsg_spec u d).2, Call.supplied, if_true, copyIn_mem]
          · by_cases hget : cmd = GETMSG
            · subst hget
              simp only [Call.result, (getmsg_spec u d).2, Call.supplied, if_neg hne,
                List.getElem?_nil, Option.getD_none]
            · simp only [Call.result, simpleIoctl_other hget hset, Call.supplied, hset, if_false,
                List.getElem?_nil, Option.getD_none]

/-- A call accesses what it copies, and the string that it prints. -/
theorem result_touched (hs : c.Sound) :
    (c.result d).2.touched k = true ↔ (d.touched k = true ∨ k < c.reach) ∨
      Prints c ∧ ∀ j < k, (c.result d).2.mem j ≠ 0 := by
  have hne : GETMSG ≠ SETMSG := by decide
  cases c with
  | write u len =>
      rw [Call.result, simpleWrite_of_noFault hs, store_touched, bytes_length]
      simp only [Call.reach, Prints, false_and, or_false]
  | read u len =>
      rcases simpleRead_of_noFault (d := d) hs with ⟨u', _, hread⟩
      rw [Call.result, hread, touch_touched]
      simp only [Call.reach, Prints, false_and, or_false]
  | ioctl cmd arg =>
      cases arg with
      | none =>
          rcases simpleIoctl_null (d := d) cmd with ⟨e, hcall⟩
          simp only [Call.result, hcall, Call.reach, Prints, Nat.not_lt_zero, false_and, or_false]
      | some u =>
          have hu : NoFault u LENTH := hs u rfl
          by_cases hget : cmd = GETMSG
          · subst hget
            rcases getmsg_of_noFault (d := d) hu with ⟨u', -, hcall⟩
            rw [Call.result, hcall, print_touched, print_mem, touch_touched]
            simp only [Call.reach, Prints, hne, or_false, if_true, hu, true_and]
          · by_cases hset : cmd = SETMSG
            · subst hset
              rw [Call.result, setmsg_of_noFault hu, print_touched, print_mem, store_touched,
                bytes_length]
              simp only [Call.reach, Prints, or_true, if_true, hu, true_and]
            · simp only [Call.result, simpleIoctl_other hget hset, Call.reach, Prints, hget, hset,
                or_self, if_false, Nat.not_lt_zero, false_and, or_false]

/-- A call hands on nothing or what is in the buffer. -/
theorem delivered_spec (hs : c.Sound) :
    delivered d c = [] ∨ delivered d c = d.fetch c.reach := by
  cases c with
  | write u len => exact .inl rfl
  | read u len =>
      rcases simpleRead_of_noFault (d := d) hs with ⟨u', hbytes, hread⟩
      refine .inr ?_
      rw [delivered, hread]
      exact hbytes
  | ioctl cmd arg =>
      by_cases hget : cmd = GETMSG
      · subst hget
        cases arg with
        | none =>
            rcases simpleIoctl_null (d := d) GETMSG with ⟨e, hcall⟩
            refine .inl ?_
            simp only [delivered, hcall, if_true]
        | some u =>
            rcases getmsg_of_noFault (d := d) (hs u rfl) with ⟨u', hbytes, hcall⟩
            refine .inr ?_
            simp only [delivered, hcall, hbytes, Call.reach, true_or, if_true]
      · exact .inl (if_neg hget)

/-- What can be said of a step. -/
theorem step_spec {d' : Dev} (hstep : step c d = some d') : c.Sound ∧ d' = (c.result d).2 := by
  simp only [step, Option.ite_none_right_eq_some, Option.some.injEq] at hstep
  exact ⟨hstep.1, hstep.2.symm⟩

end Calls

section Runs

variable {mem : Nat → UInt8} {h : History Dev Call} {d : Dev} {k : Nat}

/-- Every byte of the buffer is the one that the last covering call supplied,
    whatever the calls have done to the memory behind the buffer. -/
theorem run_mem (hr : Run step (simpleInit mem) h d) (hk : k < LENTH) :
    d.mem k = lastSupplied h k := by
  refine hr.historyInvariant (fun h d => d.mem k = lastSupplied h k) (simpleInit_mem mem hk) ?_
  intro h d c d' _ hd hstep
  rw [(step_spec hstep).2, result_mem, hd, lastSupplied]

/-- A call that fits hands on the last bytes supplied. -/
theorem delivers_of_fits {c : Call} (hr : Run step (simpleInit mem) h d) (hs : c.Sound)
    (hfits : Fits c) : Delivers h d c := by
  intro k b hb
  rcases delivered_spec (d := d) hs with hnil | hfetch
  · rw [hnil] at hb
    exact absurd hb (by simp only [List.getElem?_nil, Option.mem_def, reduceCtorEq,
      not_false_eq_true])
  · rw [hfetch, Option.mem_def, List.getElem?_eq_some_iff] at hb
    rcases hb with ⟨hk, hb⟩
    have hlt : k < c.reach := by
      rw [fetch_length] at hk
      exact hk
    rw [← hb, ← run_mem hr (Nat.lt_of_lt_of_le hlt hfits)]
    simp only [Dev.fetch, List.getElem_map, List.getElem_range]

/-- A call stays inside the buffer exactly if what it copies does, and the
    string that it prints. -/
theorem step_inside_iff {c : Call} {d' : Dev} (hr : Run step (simpleInit mem) h d)
    (hstep : step c d = some d') (hinside : Inside d) :
    Inside d' ↔ Fits c ∧ EndsInside h d c := by
  rcases step_spec hstep with ⟨hs, rfl⟩
  -- Below `LENTH` the call leaves the bytes that were stored last.
  have hlast : (∃ j < LENTH, (c.result d).2.mem j = 0) ↔
      ∃ j < LENTH, lastSupplied ((d, c) :: h) j = 0 := by
    refine exists_congr fun j => and_congr_right fun hj => ?_
    rw [run_mem (hr.next c hstep) hj]
  rw [Fits, EndsInside, ← hlast, ← string_inside_iff]
  constructor
  · intro hafter
    refine ⟨?_, fun hprints k hk => hafter k ((result_touched hs).mpr (.inr ⟨hprints, hk⟩))⟩
    by_contra hreach
    have htouched := (result_touched (d := d) hs).mpr (.inl (.inr (Nat.not_le.mp hreach)))
    exact Nat.lt_irrefl LENTH (hafter LENTH htouched)
  · rintro ⟨hfits, hends⟩ k hk
    rcases (result_touched hs).mp hk with (hbefore | hcopied) | ⟨hprints, hread⟩
    · exact hinside k hbefore
    · exact Nat.lt_of_lt_of_le hcopied hfits
    · exact hends hprints k hread

/-- The driver is an array of `LENTH` bytes in the runs in which nobody asks
    for more than that and every string that is printed ends in the buffer, and
    in no others. -/
theorem run_array_iff (hr : Run step (simpleInit mem) h d) :
    EveryState Inside h d ∧ EveryStep Delivers h ↔
      EveryStep (fun h d c => Fits c ∧ EndsInside h d c) h := by
  have hinside : EveryState Inside h d ↔ EveryStep (fun h d c => Fits c ∧ EndsInside h d c) h :=
    hr.everyState_iff_everyStep (fun _ => simpleInit_inside mem)
      fun h d c d' hr hd hstep => step_inside_iff hr hstep hd
  rw [hinside, ← everyStep_and]
  refine hr.everyStep_iff ?_
  intro h d c d' hr hstep
  exact and_iff_left_of_imp fun hstays => delivers_of_fits hr (step_spec hstep).1 hstays.1

/-- A caller's memory of 200 bytes, all of them the same. -/
def filled (b : UInt8) : UserMem := fun k => if k < 200 then some b else none

/-- The same with a zero at offset 60. -/
def ended (b : UInt8) : UserMem := fun k => if k = 60 then some 0 else filled b k

/-- A write, a `SETMSG` over it, a shorter write over that, and reads. -/
theorem run_array_overwritten : ∃ h d, Run step (simpleInit fun _ => 1) h d ∧
    d.mem 2 = 67 ∧ d.mem 99 = 66 ∧ EveryState Inside h d ∧ EveryStep Delivers h := by
  rcases exists_run_of_exec step (simpleInit fun _ => 1)
    [.write (filled 65) 20, .ioctl SETMSG (some (ended 66)), .write (filled 67) 10,
      .read (filled 0) 20, .ioctl GETMSG (some (filled 0))]
    (fun h d => EveryStep (fun h d c => Fits c ∧ EndsInside h d c) h ∧ d.mem 2 = 67 ∧
      d.mem 99 = 66)
    (by decide +kernel) with ⟨h, d, hr, hp⟩
  rcases of_decide_eq_true hp with ⟨hstays, h2, h99⟩
  exact ⟨h, d, hr, h2, h99, (run_array_iff hr).mpr hstays⟩

/-- A write of 101 bytes is accepted, and changes the byte behind the buffer. -/
theorem run_overrun : ∃ h d, Run step (simpleInit fun _ => 1) h d ∧ d.mem LENTH = 65 ∧
    ¬ EveryState Inside h d := by
  rcases exists_run_of_exec step (simpleInit fun _ => 1) [.write (filled 65) 101]
    (fun _ d => d.mem LENTH = 65 ∧ d.touched LENTH = true) (by decide +kernel) with ⟨h, d, hr, hp⟩
  rcases of_decide_eq_true hp with ⟨hmem, htouched⟩
  exact ⟨h, d, hr, hmem, fun hall => Nat.lt_irrefl LENTH (hall.1 LENTH htouched)⟩

end Runs

end Simple

end KernelModules
