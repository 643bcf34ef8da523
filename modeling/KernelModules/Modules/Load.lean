import KernelModules.Kernel.User
import KernelModules.Lib.Stages

/-!
# What the Modules Leave Behind

The init and exit functions of five modules, `poll.c`, `helloplus.c`,
`blinkplus.c`, `mmap_vmalloc.c` and `8139regs.c`, as tables of `Lib.Stages`,
over any number of loads and unloads in which any calls fail. (`simple.c` and
`mmap_kmalloc.c` have modules of their own.)

The four character drivers all make the same mistake. They get a device
structure from `cdev_alloc`, which `cdev_del` would free, and call `cdev_init`
on it, which is for structures that the driver has itself: it starts the
structure over, and `cdev_del` does not free it then. So every load that gets
that far leaves a structure behind, at the latest with its unload. Neither do
they look at what `cdev_alloc` returns: when there is no structure, `cdev_init`
follows a null pointer, and the load does not return.

`mmap_vmalloc.c` makes one mistake more: it registers the device first and
allocates its memory then, and when there is no memory it returns the error
with the device still registered. `8139regs.c` never gives back the reference
that `pci_get_device` takes.

What `cdev_init` and `cdev_del` do is the kernel's, and is taken here as the
kernel documents it. The comments of the drivers take `cdev_del` for the
release of the structure, as `Simple.Load` does for `simple.c`.

Nothing else is left, and nothing is released twice. So what a module that is
not loaded has left behind is counted by the steps of the run that are named
in `leaks` (`run_leftCounted`).

Timers are left out here. They are started at the end of a load, which cannot
fail any more, and how they are stopped is in `Timers.Unload`.

## Main definitions

* `Resource`: What the modules acquire.
* `registerThisDriverAsChar`, `myInit`, `helloplusInit`, `kbledsInit`,
  `mmapVmemInitModule`, `initModule`: The init functions.
* `Driver`, `Driver.module`: The modules.
* `leaks`: The steps that leave something.
* `LeftBehind`: The law.

## Theorems

* `module_ok`: No module names a resource twice.
* `left_char`, `mem_left_iff`: What a load leaves that returns an error.
* `isSome_strands`: The steps that leave something are those of `leaks`.
* `run_leftCounted`: The law holds at the end of every run.
-/

namespace KernelModules

namespace Modules

open Kernel Lib Stages

/-- A device region, a device structure, its entry in the map of the devices, a
    class and a device in sysfs, a vmalloc area, a reference to a PCI device,
    the mapping of its registers, and an entry in `/proc`. -/
inductive Resource where
  | region
  | cdev
  | map
  | sysfsClass
  | sysfsDevice
  | area
  | pciDev
  | mapping
  | procEntry
  deriving DecidableEq

/-- `register_this_driver_as_char`: the region, `cdev_alloc` with `cdev_init` on
    what it returns, and `cdev_add`. -/
def registerThisDriverAsChar : List (Stage Resource) :=
  [⟨.region, .returns [] none⟩,
   ⟨.cdev, .oops⟩,
   ⟨.map, .returns [.region] none⟩]

/-- `cdev_del` behind `cdev_init`: the entry goes, and the structure stays. -/
def cdevDel : List Resource := [.map]

/-- `my_init` of `poll.c`, written out there. -/
def myInit : List (Stage Resource) :=
  [⟨.region, .returns [] none⟩,
   ⟨.cdev, .oops⟩,
   ⟨.map, .returns [.region] none⟩]

def myExit : List Resource := cdevDel ++ [.region]

/-- `helloplus_init`. What `device_create` returns is not looked at. -/
def helloplusInit : List (Stage Resource) :=
  [⟨.region, .returns [] none⟩,
   ⟨.cdev, .oops⟩,
   ⟨.map, .returns [.region] none⟩,
   ⟨.sysfsClass, .returns (cdevDel ++ [.region]) (some (-1))⟩,
   ⟨.sysfsDevice, .ignored⟩]

def helloplusCleanup : List Resource := cdevDel ++ [.sysfsDevice, .sysfsClass, .region]

/-- `kbleds_init` of `blinkplus.c`. -/
def kbledsInit : List (Stage Resource) := registerThisDriverAsChar

def kbledsCleanup : List Resource := cdevDel ++ [.region]

/-- `mmap_vmem_init_module` of `mmap_vmalloc.c`. -/
def mmapVmemInitModule : List (Stage Resource) :=
  registerThisDriverAsChar ++ [⟨.area, .returns [] (some (-ENOMEM))⟩]

/-- `char_driver_cleanup`. -/
def charDriverCleanup : List Resource := cdevDel ++ [.region]

def mmapVmemCleanupModule : List Resource := .area :: charDriverCleanup

/-- `init_module` of `8139regs.c`. What `create_proc_read_entry` returns is not
    looked at. -/
def initModule : List (Stage Resource) :=
  [⟨.pciDev, .returns [] (some (-ENODEV))⟩,
   ⟨.mapping, .returns [] (some (-ENOSPC))⟩,
   ⟨.procEntry, .ignored⟩]

def cleanupModule : List Resource := [.procEntry, .mapping]

inductive Driver where
  | poll
  | helloplus
  | blinkplus
  | mmapVmalloc
  | regs
  deriving DecidableEq

def Driver.module : Driver → Module Resource
  | .poll => ⟨myInit, myExit⟩
  | .helloplus => ⟨helloplusInit, helloplusCleanup⟩
  | .blinkplus => ⟨kbledsInit, kbledsCleanup⟩
  | .mmapVmalloc => ⟨mmapVmemInitModule, mmapVmemCleanupModule⟩
  | .regs => ⟨initModule, cleanupModule⟩

/-- The steps after which an instance of a resource is with nobody. For the
    character drivers these are the loads that return an error behind
    `cdev_alloc`, and all unloads; for the region and the entry the loads whose
    `vmalloc` fails; and for `8139regs.c` the loads whose `ioremap` fails, and
    all unloads. -/
def leaks : Driver → Resource → Step Resource → Bool
  | .poll, .cdev, .load code | .blinkplus, .cdev, .load code =>
    decide (code .region = 0 ∧ code .map ≠ 0)
  | .helloplus, .cdev, .load code =>
    decide (code .region = 0 ∧ (code .map ≠ 0 ∨ code .sysfsClass ≠ 0))
  | .mmapVmalloc, .cdev, .load code =>
    decide (code .region = 0 ∧ (code .map ≠ 0 ∨ code .area ≠ 0))
  | .poll, .cdev, .unload | .helloplus, .cdev, .unload | .blinkplus, .cdev, .unload
  | .mmapVmalloc, .cdev, .unload => true
  | .mmapVmalloc, .region, .load code | .mmapVmalloc, .map, .load code =>
    decide (code .region = 0 ∧ code .map = 0 ∧ code .area ≠ 0)
  | .regs, .pciDev, .load code => decide (code .pciDev = 0 ∧ code .mapping ≠ 0)
  | .regs, .pciDev, .unload => true
  | _, _, _ => false

/-- The law: of each resource, as many instances are with nobody as steps of the
    run have left one, a loaded module holds what its variable points to, and
    every other instance has been released exactly once. -/
def LeftBehind (d : Driver) (h : History (State Resource) (Step Resource)) (s : State Resource) :
    Prop :=
  ∀ r, ∃ lost : List Nat, lost.Nodup ∧ lost.length = h.countP (fun p => leaks d r p.2) ∧
    (s.pools r).Owns fun n => n ∈ lost ∨ (s.loaded = true ∧ s.vars r = some n)

variable {d : Driver} {code : Resource → Nat} {r : Resource} {s : State Resource}
  {h : History (State Resource) (Step Resource)}

theorem module_ok (d : Driver) : d.module.Ok := by
  cases d <;> exact ⟨by decide, by decide, by decide⟩

/-- A load that returns has a structure if it has a region. -/
theorem cdev_of_returns {rest : List (Stage Resource)}
    (hreturns : oopses code (registerThisDriverAsChar ++ rest) = false)
    (hregion : code .region = 0) : code .cdev = 0 := by
  by_contra hcdev
  simp only [registerThisDriverAsChar, List.cons_append, oopses, hregion, hcdev, if_true, if_false,
    Bool.true_eq_false] at hreturns

/-- A load of a character driver leaves nothing without a region, the structure
    when it cannot be added, and else what the rest of the load leaves. -/
theorem left_char (rest : List (Stage Resource)) (exit : List Resource)
    (hreturns : oopses code (registerThisDriverAsChar ++ rest) = false) :
    left ⟨registerThisDriverAsChar ++ rest, exit⟩ code =
      if code .region ≠ 0 then []
      else if code .map ≠ 0 then [.cdev]
      else if 0 ≤ (returned code rest).2 then []
      else (.region :: .cdev :: .map :: acquired code rest).filter
        fun r => r ∉ (returned code rest).1 := by
  have hneg : ∀ {n : Nat}, n ≠ 0 → ¬ (0 : Int) ≤ -n := fun hn => by omega
  by_cases hregion : code .region = 0
  · have hcdev := cdev_of_returns hreturns hregion
    rw [if_neg (not_not.mpr hregion)]
    by_cases hmap : code .map = 0
    · rw [if_neg (not_not.mpr hmap)]
      simp only [left, registerThisDriverAsChar, List.cons_append, List.nil_append, acquired,
        returned, hregion, hcdev, hmap, if_true]
    · rw [if_pos hmap]
      simp only [left, registerThisDriverAsChar, List.cons_append, List.nil_append, acquired,
        returned, hregion, hcdev, hmap, if_true, if_false, Option.getD_none, hneg hmap]
      decide
  · rw [if_pos hregion]
    simp only [left, registerThisDriverAsChar, List.cons_append, List.nil_append, acquired,
      returned, hregion, if_false, Option.getD_none, hneg hregion]
    rfl

theorem mem_left_char (rest : List (Stage Resource)) (exit : List Resource)
    (hreturns : oopses code (registerThisDriverAsChar ++ rest) = false) :
    r ∈ left ⟨registerThisDriverAsChar ++ rest, exit⟩ code ↔ code .region = 0 ∧
      (code .map ≠ 0 ∧ r = .cdev ∨ code .map = 0 ∧ (returned code rest).2 < 0 ∧
        r ∈ Resource.region :: .cdev :: .map :: acquired code rest ∧
        r ∉ (returned code rest).1) := by
  rw [left_char rest exit hreturns]
  by_cases hregion : code .region = 0
  · by_cases hmap : code .map = 0
    · by_cases hdone : 0 ≤ (returned code rest).2
      · simp only [hregion, hmap, hdone, ne_eq, not_true, if_false, if_true, List.not_mem_nil,
          false_and, Int.not_lt.mpr hdone, and_false, or_self]
      · simp only [hregion, hmap, hdone, ne_eq, not_true, if_false, List.mem_filter,
          decide_eq_true_eq, false_and, Int.not_le.mp hdone, true_and, false_or]
    · simp only [hregion, hmap, ne_eq, not_true, not_false_iff, if_true, if_false,
        List.mem_singleton, true_and, false_and, or_false]
  · simp only [hregion, ne_eq, not_false_iff, if_true, List.not_mem_nil, false_and]

/-- What a load leaves that returns an error. -/
theorem mem_left_iff (hreturns : oopses code d.module.init = false) :
    r ∈ left d.module code ↔ leaks d r (.load code) = true := by
  cases d with
  | poll | blinkplus =>
      refine (mem_left_char [] _ hreturns).trans ?_
      simp only [returned, Int.lt_irrefl, false_and, and_false, or_false]
      cases r <;> simp only [leaks, decide_eq_true_eq, reduceCtorEq, and_false, and_true,
        Bool.false_eq_true]
  | helloplus =>
      refine (mem_left_char [_, _] _ hreturns).trans ?_
      -- A load without a class has undone everything else.
      by_cases hclass : code .sysfsClass = 0
      · simp only [returned, hclass, if_true, ite_self, Int.lt_irrefl, false_and, and_false,
          or_false]
        cases r <;> simp [leaks, hclass]
      · simp only [acquired, returned, hclass, if_false]
        by_cases hmap : code .map = 0 <;> cases r <;> simp [leaks, cdevDel, hmap, hclass]
  | mmapVmalloc =>
      refine (mem_left_char [_] _ hreturns).trans ?_
      by_cases harea : code .area = 0
      · simp only [returned, harea, if_true, Int.lt_irrefl, false_and, and_false, or_false]
        cases r <;> simp [leaks, harea]
      · simp only [acquired, returned, harea, if_false]
        by_cases hmap : code .map = 0 <;> cases r <;> simp [leaks, hmap, harea, ENOMEM]
  | regs =>
      rw [left, Driver.module, initModule]
      by_cases hdev : code .pciDev = 0
      · by_cases hmap : code .mapping = 0
        · simp only [returned, hdev, hmap, if_true, ite_self, Int.le_refl, List.not_mem_nil,
            false_iff]
          cases r <;> simp [leaks, hmap]
        · simp only [acquired, returned, hdev, hmap, if_true, if_false]
          cases r <;> simp [leaks, hdev, hmap, ENOSPC]
      · simp only [acquired, returned, hdev, if_false]
        cases r <;> simp [leaks, hdev, ENODEV]

theorem leaks_unload :
    leaks d r .unload = true ↔ d ≠ .regs ∧ r = .cdev ∨ d = .regs ∧ r = .pciDev := by
  cases d <;> cases r <;> decide

/-- An unload gives back all that a load acquires, but for the device structure
    and the reference to the PCI device. -/
theorem mem_exit (hmem : r ∈ d.module.init.map Stage.resource) :
    r ∈ d.module.exit ↔ leaks d r .unload = false := by
  revert r
  cases d <;> decide

/-- The steps that leave something are those of `leaks`. -/
theorem isSome_strands {l : Step Resource} {s' : State Resource}
    (hr : Run (step d.module) State.init h s) (hstep : step d.module l s = some s') :
    (strands d.module r (s, l)).isSome = leaks d r l := by
  cases l with
  | load code =>
      rw [step, Option.ite_none_left_eq_some, not_or, Bool.not_eq_true] at hstep
      rw [strands, Bool.eq_iff_iff, ← mem_left_iff (Bool.eq_false_iff.mpr hstep.1.2)]
      by_cases hleft : r ∈ left d.module code
      · simp only [hleft, if_true, Option.isSome_some]
      · simp only [hleft, if_false, Option.isSome_none, Bool.false_eq_true]
  | unload =>
      rw [step, Option.ite_none_right_eq_some] at hstep
      by_cases hmem : r ∈ d.module.init.map Stage.resource
      · by_cases hexit : r ∈ d.module.exit
        · rw [strands, if_pos hexit, (mem_exit hmem).mp hexit]
          rfl
        · have hleaks : leaks d r .unload = true := by
            rwa [mem_exit hmem, Bool.not_eq_false] at hexit
          rw [strands, if_neg hexit, hleaks, Option.isSome_iff_ne_none]
          -- A load does not go on without either of them.
          rcases leaks_unload.mp hleaks with ⟨hchar, rfl⟩ | ⟨rfl, rfl⟩
          · refine run_present (g := ⟨.cdev, .oops⟩) (module_ok d) hr hstep.1 ?_ ?_
            · cases d with
              | regs => exact absurd rfl hchar
              | _ => exact List.mem_cons_of_mem _ List.mem_cons_self
            · simp only [ne_eq, reduceCtorEq, not_false_eq_true]
          · refine run_present (module_ok .regs) hr hstep.1 List.mem_cons_self ?_
            simp only [ne_eq, reduceCtorEq, not_false_eq_true]
      · have hleaks : leaks d r .unload = false := by
          rw [← Bool.not_eq_true, leaks_unload]
          rintro (⟨hchar, rfl⟩ | ⟨rfl, rfl⟩)
          · cases d with
            | regs => exact hchar rfl
            | _ => exact hmem (by decide)
          · exact hmem (by decide)
        rw [hleaks, strands, run_absent hr hmem, ite_self]
        rfl

/-- What a module has left behind is counted by the steps that leave something,
    in every run. -/
theorem run_leftCounted (d : Driver) (hr : Run (step d.module) State.init h s) :
    LeftBehind d h s := by
  have hcount : ∀ r, h.countP (fun p => (strands d.module r p).isSome) =
      h.countP fun p => leaks d r p.2 := by
    intro r
    refine hr.historyInvariant (fun h _ => h.countP (fun p => (strands d.module r p).isSome) =
      h.countP fun p => leaks d r p.2) rfl ?_
    intro h s l s' hr hcount hstep
    rw [List.countP_cons, List.countP_cons, hcount, isSome_strands hr hstep]
  intro r
  refine ⟨stranded d.module h r, stranded_nodup (module_ok d) hr, ?_, ?_⟩
  · rw [stranded_length, hcount]
  · refine (run_books (module_ok d) hr r).owns.congr fun n => or_congr_right ?_
    rw [Bool.and_eq_true]
    refine ⟨fun h => ⟨⟨h.1, by rw [h.2]; rfl⟩, h.2⟩, fun h => ⟨h.1.1, h.2⟩⟩

/-- `mmap_vmalloc.c` is loaded without memory, and leaves a device registered
    whose functions are gone. Then it is loaded and unloaded, and leaves its
    device structure. -/
theorem run_leftCounted_registered : ∃ (h : History (State Resource) (Step Resource))
    (s : State Resource), LeftBehind .mmapVmalloc h s ∧ s.loaded = false ∧ h.length = 3 ∧
      (s.pools .map).Live 0 ∧ ¬ (s.pools .map).Live 1 ∧ (s.pools .cdev).Live 1 := by
  rcases exists_run_of_exec (step Driver.mmapVmalloc.module) State.init
    [.load fun r => if r = .area then 1 else 0, .load fun _ => 0, .unload]
    (fun h s => s.loaded = false ∧ h.length = 3 ∧ (s.pools .map).Live 0 ∧
      ¬ (s.pools .map).Live 1 ∧ (s.pools .cdev).Live 1)
    (by decide) with ⟨h, s, hr, hp⟩
  exact ⟨h, s, run_leftCounted .mmapVmalloc hr, of_decide_eq_true hp⟩

end Modules

end KernelModules
