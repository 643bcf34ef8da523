import KernelModules.Timers.Blink

/-!
# The Argument of the blinkplus.c Ioctls

`blink_ioctl` starts with `arg = *(int *)arg`, for every command and without a
check of the address. So what a call does is up to the address first and to
the command only then: the kernel oopses if it cannot read an `int` there, and
takes the one it reads for an argument, be it from user space or not.

The commands that have an argument should refuse an address that a checked
access refuses, and the others should not look at it. A `SETINV` or `SETLED`
never does so: an address that is refused makes it oops or go by memory of the
kernel, and any other is read unchecked. The others do so only where there is
nothing to go wrong, since the kernel can read from every address there is
(`survives_iff`).

## Main definitions

* `Space`: What the kernel can read, and what of it is user memory.
* `Space.load`: `*(int *)a`.
* `Call`, `blinkIoctl`: What a call accesses, and how it ends.
* `Survives`: What is asked of a call.

## Theorems

* `blinkIoctl_other`: A command without an argument.
* `outcome_of_load`: How a call that can read its argument ends.
* `survives_iff`: When a call does what is asked of it.
* `survives_missing`: A `GETINV` without an argument.
-/

namespace KernelModules

namespace Timers

namespace BlinkArg

open Kernel Blink

/-- The address space of a call: what the kernel reads at an address, unless it
    faults there, and whether the address belongs to user space. -/
structure Space where
  byte : BitVec 64 → Option UInt8
  user : BitVec 64 → Bool

/-- The memory from an address on. -/
def Space.from (sp : Space) (a : BitVec 64) : UserMem := fun k => sp.byte (a + BitVec.ofNat 64 k)

/-- The same for an access that checks the address. -/
def Space.userFrom (sp : Space) (a : BitVec 64) : UserMem := fun k =>
  if sp.user (a + BitVec.ofNat 64 k) then sp.byte (a + BitVec.ofNat 64 k) else none

/-- `*(int *)a`, without a value if it faults. -/
def Space.load (sp : Space) (a : BitVec 64) : Option (BitVec 32) :=
  if NoFault (sp.from a) 4 then some ((toLong (bytes (sp.from a) 0 4)).setWidth 32) else none

/-- Some byte of the `int` at an address is user memory. -/
def Space.TouchesUser (sp : Space) (a : BitVec 64) : Prop :=
  ∃ k < 4, sp.user (a + BitVec.ofNat 64 k) = true

/-- An `int` that is read at an address, and whether the address is checked. -/
structure Access where
  addr : BitVec 64
  checked : Bool

/-- What a call reads through its argument, and what it returns with the
    variables afterwards; nothing if the kernel oopses. -/
structure Call where
  accesses : List Access
  outcome : Option (Int × Leds)

/-- `blink_ioctl`, which reads its argument first. -/
def blinkIoctl (hz : BitVec 32) (sp : Space) (cmd : BitVec 32) (arg : BitVec 64) (s : Leds) :
    Call :=
  { accesses := [{ addr := arg, checked := false }]
    outcome := (sp.load arg).map fun v => Blink.blinkIoctl hz cmd v s }

/-- The commands that have an argument. -/
def HasArg (cmd : BitVec 32) : Prop := cmd = SETINV ∨ cmd = SETLED

/-- The call returns. It reads user memory only for a command that has an
    argument, and checks the address. It fails and changes nothing where a
    checked access does, and a command without an argument ends the same
    whatever it is called with. -/
structure Survives (hz : BitVec 32) (sp : Space) (cmd : BitVec 32) (arg : BitVec 64) (s : Leds) :
    Prop where
  returns : (blinkIoctl hz sp cmd arg s).outcome ≠ none
  checked : ∀ a ∈ (blinkIoctl hz sp cmd arg s).accesses, sp.TouchesUser a.addr →
    HasArg cmd ∧ a.checked = true
  refused : HasArg cmd → (copyFromUser (sp.userFrom arg) 4).1 ≠ 0 →
    ∃ ret s', (blinkIoctl hz sp cmd arg s).outcome = some (ret, s') ∧ ret < 0 ∧
      s'.curExpireJiffies = s.curExpireJiffies ∧ s'.selectedLed = s.selectedLed
  ignored : ¬ HasArg cmd → ∀ arg',
    (blinkIoctl hz sp cmd arg' s).outcome = (blinkIoctl hz sp cmd arg s).outcome

section Calls

variable (hz : BitVec 32) {cmd : BitVec 32} {sp : Space} {arg : BitVec 64} (s : Leds)

/-- A command that has an argument returns zero, whatever it is. -/
theorem blinkIoctl_hasArg (hcmd : HasArg cmd) (v : BitVec 32) :
    (Blink.blinkIoctl hz cmd v s).1 = 0 := by
  unfold Blink.blinkIoctl
  rcases hcmd with rfl | rfl
  · rw [if_pos rfl]
  · rw [if_neg (by decide), if_neg (by decide), if_pos rfl]

/-- One that has none does the same with any two values. -/
theorem blinkIoctl_other (hcmd : ¬ HasArg cmd) (v w : BitVec 32) :
    Blink.blinkIoctl hz cmd v s = Blink.blinkIoctl hz cmd w s := by
  unfold Blink.blinkIoctl
  rw [if_neg fun h => hcmd (.inl h), if_neg fun h => hcmd (.inl h)]
  by_cases hget : cmd = GETINV
  · rw [if_pos hget, if_pos hget]
  · rw [if_neg hget, if_neg hget, if_neg fun h => hcmd (.inr h), if_neg fun h => hcmd (.inr h)]

/-- How a call ends that can read its argument. -/
theorem outcome_of_load {v : BitVec 32} (hv : sp.load arg = some v) :
    (blinkIoctl hz sp cmd arg s).outcome = some (Blink.blinkIoctl hz cmd v s) := by
  rw [blinkIoctl, hv, Option.map_some]

/-- A call returns exactly if it can. -/
theorem outcome_isSome (cmd : BitVec 32) :
    (blinkIoctl hz sp cmd arg s).outcome.isSome = (sp.load arg).isSome := by
  rw [blinkIoctl, Option.isSome_map]

/-- A checked access fails at an address outside of user space. -/
theorem copyFromUser_kernel (hkernel : ¬ sp.TouchesUser arg) :
    (copyFromUser (sp.userFrom arg) 4).1 ≠ 0 := by
  rw [ne_eq, copyFromUser_eq_zero_iff]
  intro hall
  have hfirst := hall 0 (by decide)
  rw [Space.userFrom, if_neg fun h => hkernel ⟨0, by decide, h⟩] at hfirst
  exact nomatch hfirst

/-- No command that has an argument does what is asked of it: if it returns,
    it has gone by user memory unchecked or by other memory. -/
theorem not_survives_hasArg (hcmd : HasArg cmd) : ¬ Survives hz sp cmd arg s := by
  intro hs
  rcases Option.ne_none_iff_exists'.mp hs.returns with ⟨r, hr⟩
  -- It reads at its argument, be it user memory or not.
  by_cases huser : sp.TouchesUser arg
  · exact absurd (hs.checked _ (List.mem_singleton_self _) huser).2 Bool.false_ne_true
  · rcases hs.refused hcmd (copyFromUser_kernel huser) with ⟨ret, s', hout, hneg, -, -⟩
    have hload : (sp.load arg).isSome := by
      rw [← outcome_isSome hz s cmd, hr, Option.isSome_some]
    rcases Option.isSome_iff_exists.mp hload with ⟨v, hv⟩
    rw [outcome_of_load hz s hv, Option.some.injEq] at hout
    rw [← blinkIoctl_hasArg hz s hcmd v, hout] at hneg
    exact absurd hneg (Int.lt_irrefl _)

/-- A call does what is asked of it if its command has no argument, the
    address is not that of user memory, and the kernel can read an `int` at
    any address at all, and not otherwise. -/
theorem survives_iff : Survives hz sp cmd arg s ↔
    ¬ HasArg cmd ∧ ¬ sp.TouchesUser arg ∧ ∀ a, (sp.load a).isSome := by
  constructor
  · intro hs
    have hcmd : ¬ HasArg cmd := fun hcmd => not_survives_hasArg hz s hcmd hs
    refine ⟨hcmd, fun huser => ?_, fun a => ?_⟩
    · exact hcmd (hs.checked _ (List.mem_singleton_self _) huser).1
    · rw [← outcome_isSome hz s cmd, hs.ignored hcmd a]
      exact Option.isSome_iff_ne_none.mpr hs.returns
  · rintro ⟨hcmd, hkernel, hload⟩
    -- The value read is dropped, so any address will do.
    have hsame : ∀ a, (blinkIoctl hz sp cmd a s).outcome = some (Blink.blinkIoctl hz cmd 0 s) := by
      intro a
      rcases Option.isSome_iff_exists.mp (hload a) with ⟨v, hv⟩
      rw [outcome_of_load hz s hv, blinkIoctl_other hz s hcmd v 0]
    refine ⟨?_, ?_, fun h => absurd h hcmd, fun _ a => ?_⟩
    · rw [hsame]
      exact Option.some_ne_none _
    · intro a ha huser
      rw [List.mem_singleton.mp ha] at huser
      exact absurd huser hkernel
    · rw [hsame, hsame]

/-- One page of user memory, all zeros, and nothing else. -/
def onePage : Space :=
  { byte := fun a => if a >>> 12 = 1 then some 0 else none
    user := fun a => a >>> 47 = 0 }

/-- An interval of two seconds. -/
def twoSeconds : Leds := { Leds.init 250 with curExpireJiffies := 500 }

/-- `GETINV` with no argument, whose place is taken by zero: the kernel oopses,
    where with the address of the page the call returns the interval. -/
theorem survives_missing : (blinkIoctl 250 onePage GETINV 0 twoSeconds).outcome = none ∧
    ((blinkIoctl 250 onePage GETINV 4096 twoSeconds).outcome.map Prod.fst) = some 2 ∧
    ¬ Survives 250 onePage GETINV 0 twoSeconds := by
  have hload : onePage.load 0 = none := by decide +kernel
  have hout : (blinkIoctl 250 onePage GETINV 0 twoSeconds).outcome = none := by
    rw [blinkIoctl, hload, Option.map_none]
  exact ⟨hout, by decide +kernel, fun hs => hs.returns hout⟩

end Calls

end BlinkArg

end Timers

end KernelModules
