import KernelModules.Lib.Pool
import KernelModules.Lib.Run

/-!
# Loading and Unloading the Simple Module

`simple_init` and `simple_exit` over any number of loads and unloads. The init
function acquires a buffer, a device region, a device structure, a class and a
device in sysfs, one after the other, and each call may fail, but for
`cdev_alloc`. What `cdev_init` and `cdev_del` do with the structure is the
kernel's: the first is left out, and the second is taken for the release of the
structure, as the comment behind its call says.

The undoing is written out at each return, and it falls short at all of them.
No return frees the buffer, and the one after a failing `cdev_add` leaves the
device structure behind as well. What a module that is not loaded still holds
is therefore a matter of how its loads have failed, and of nothing else
(`run_leaks`): an unload always releases everything that its own load has
acquired (`run_exit_once`). A `kmalloc` that fails does not end the load. The
kernel oopses on the first use of the buffer, and the module stays as it is.

## Main definitions

* `Outcomes`: How the calls of a load end.
* `Sys`, `Step`, `step`: The module, its loads and its unloads.
* `simpleInit`, `simpleExit`: The two functions.
* `lostBlocks`, `lostCdevs`: What failing loads have left, by the history.
* `NothingLeft`: The buffer is not touched when there is none, and nothing is
  held by a module that is not loaded.
* `Succeeds`: The condition on a step.

## Theorems

* `simpleInit_null`, `simpleInit_region`, `simpleInit_add`, `simpleInit_class`,
  `simpleInit_done`: What a load does.
* `step_books`, `run_books`: Who holds what, in any run.
* `run_leaks`: What is held while the module is not loaded.
* `run_exit_once`: An unload releases each thing once.
* `run_nothingLeft_iff`: When nothing is left behind.
* `run_leftBehind`: Loads that leave something.
-/

namespace KernelModules

namespace Simple

namespace Load

open Lib

/-- The error code of each call in a load, 0 where it succeeds. The kernel
    returns codes negated; `kmalloc` returns NULL instead, and `class_create`
    an error pointer. -/
structure Outcomes where
  kmalloc : Nat
  allocChrdevRegion : Nat
  cdevAdd : Nat
  classCreate : Nat
  deviceCreate : Nat
  deriving DecidableEq

/-- After an oops in its init function a module can be neither unloaded nor
    loaded again. -/
inductive Status where
  | absent
  | loaded
  | oopsed
  deriving DecidableEq

/-- What the kernel has given out, the module's variables, the device that
    sysfs has for `dev`, and the values of `kbuffer` that `simple_init` has
    used as a pointer, the latest first. -/
structure Sys where
  blocks : Pool
  regions : Pool
  cdevs : Pool
  classes : Pool
  devices : Pool
  kbuffer : Option Nat
  dev : Option Nat
  simpleCdev : Option Nat
  simpleClass : Option Nat
  device : Option Nat
  touched : List (Option Nat)
  status : Status

def Sys.init : Sys :=
  { blocks := .empty, regions := .empty, cdevs := .empty, classes := .empty, devices := .empty,
    kbuffer := none, dev := none, simpleCdev := none, simpleClass := none, device := none,
    touched := [], status := .absent }

/-- A fresh image of the module. -/
def Sys.fresh (s : Sys) : Sys :=
  { s with kbuffer := none, dev := none, simpleCdev := none, simpleClass := none }

/-- `kbuffer = kmalloc(LENTH, GFP_KERNEL)`. -/
def Sys.allocate (o : Outcomes) (s : Sys) : Sys :=
  if o.kmalloc ≠ 0 then { s with kbuffer := none }
  else { s with blocks := s.blocks.make, kbuffer := some s.blocks.made }

/-- `kbuffer` is used as a pointer. -/
def Sys.touch (s : Sys) : Sys := { s with touched := s.kbuffer :: s.touched }

/-- `simple_init`: the value it returns, or `none` if the kernel oopses. What
    is stored in the buffer is in `Simple.Driver`. -/
def simpleInit (o : Outcomes) (s : Sys) : Option Int × Sys :=
  -- `memset` comes first.
  let s := (s.allocate o).touch
  if s.kbuffer = none then (none, s)
  else
    -- Then `memcpy`, and `printk` of the string.
    let s := s.touch.touch
    if o.allocChrdevRegion ≠ 0 then (some (-o.allocChrdevRegion), s)
    else
      let s := { s with regions := s.regions.make, dev := some s.regions.made }
      let s := { s with cdevs := s.cdevs.make, simpleCdev := some s.cdevs.made }
      if o.cdevAdd ≠ 0 then
        (some (-o.cdevAdd), { s with regions := s.regions.releaseOpt s.dev })
      else if o.classCreate ≠ 0 then
        let s := { s with cdevs := s.cdevs.releaseOpt s.simpleCdev }
        (some (-1), { s with regions := s.regions.releaseOpt s.dev })
      else
        let s := { s with classes := s.classes.make, simpleClass := some s.classes.made }
        -- What `device_create` returns is not looked at.
        if o.deviceCreate ≠ 0 then (some 0, s)
        else (some 0, { s with devices := s.devices.make, device := some s.devices.made })

/-- `simple_exit`. `device_destroy` does nothing where there is no device. -/
def simpleExit (s : Sys) : Sys :=
  let s := { s with blocks := s.blocks.releaseOpt s.kbuffer }
  let s := { s with cdevs := s.cdevs.releaseOpt s.simpleCdev }
  let s := { s with regions := s.regions.releaseOpt s.dev }
  let s := { s with devices := s.devices.releaseOpt s.device, device := none }
  { s with classes := s.classes.releaseOpt s.simpleClass }

/-- The module is loaded unless its init function returns a negative value. -/
def Sys.returned (s : Sys) : Option Int → Sys
  | none => { s with status := .oopsed }
  | some ret => { s with status := if ret < 0 then .absent else .loaded }

inductive Step where
  | load (o : Outcomes)
  | unload
  deriving DecidableEq

def step : Step → Sys → Option Sys
  | .load o, s =>
    if s.status = .absent then
      let r := simpleInit o s.fresh
      some (r.2.returned r.1)
    else none
  | .unload, s =>
    if s.status = .loaded then some { simpleExit s with status := .absent } else none

/-- A load that returns an error, and one that does so for its `cdev_add`. -/
def Outcomes.Fails (o : Outcomes) : Prop :=
  o.kmalloc = 0 ∧ (o.allocChrdevRegion ≠ 0 ∨ o.cdevAdd ≠ 0 ∨ o.classCreate ≠ 0)
def Outcomes.FailsAdd (o : Outcomes) : Prop :=
  o.kmalloc = 0 ∧ o.allocChrdevRegion = 0 ∧ o.cdevAdd ≠ 0

instance (o : Outcomes) : Decidable o.Fails := inferInstanceAs (Decidable (_ ∧ _))
instance (o : Outcomes) : Decidable o.FailsAdd := inferInstanceAs (Decidable (_ ∧ _))

/-- The buffers that failing loads have left. -/
def lostBlocks : History Sys Step → List Nat
  | [] => []
  | (s, .load o) :: h => if o.Fails then s.blocks.made :: lostBlocks h else lostBlocks h
  | (_, .unload) :: h => lostBlocks h

/-- The device structures that they have left. -/
def lostCdevs : History Sys Step → List Nat
  | [] => []
  | (s, .load o) :: h => if o.FailsAdd then s.cdevs.made :: lostCdevs h else lostCdevs h
  | (_, .unload) :: h => lostCdevs h

/-- The init function has never used NULL as its buffer, and a module that is
    not loaded has released everything once. -/
def NothingLeft (s : Sys) : Prop :=
  none ∉ s.touched ∧
    (s.status = .absent → s.blocks.Settled ∧ s.regions.Settled ∧ s.cdevs.Settled ∧
      s.classes.Settled ∧ s.devices.Settled)

/-- No load fails: the buffer is allocated, and the region, the addition of the
    device and the class succeed. -/
def Succeeds : Step → Prop
  | .load o => o.kmalloc = 0 ∧ ¬ o.Fails
  | .unload => True

instance : (l : Step) → Decidable (Succeeds l)
  | .load _ => inferInstanceAs (Decidable (_ ∧ _))
  | .unload => .isTrue trivial

/-- Whether the module holds what its variables point to. -/
def Status.holds : Status → Bool
  | .loaded => true
  | .absent | .oopsed => false

/-- Who holds what: the module its own while it is loaded, failing loads what
    they have left, and all else has been released. -/
structure Books (h : History Sys Step) (s : Sys) : Prop where
  blocks : s.blocks.Account (lostBlocks h) s.status.holds s.kbuffer
  cdevs : s.cdevs.Account (lostCdevs h) s.status.holds s.simpleCdev
  regions : s.regions.Slot s.status.holds s.dev
  classes : s.classes.Slot s.status.holds s.simpleClass
  devices : s.devices.Slot s.device.isSome s.device
  device : s.status ≠ .loaded → s.device = none
  touched : none ∈ s.touched ↔ s.status = .oopsed

section Init

variable {o : Outcomes} {s : Sys}

/-- The ways a load may go, by the first call that fails. -/
theorem Outcomes.cases (o : Outcomes) :
    o.kmalloc ≠ 0 ∨ o.kmalloc = 0 ∧ (o.allocChrdevRegion ≠ 0 ∨ o.allocChrdevRegion = 0 ∧
      (o.cdevAdd ≠ 0 ∨ o.cdevAdd = 0 ∧ (o.classCreate ≠ 0 ∨ o.classCreate = 0))) := by
  omega

theorem Outcomes.not_fails (hregion : o.allocChrdevRegion = 0) (hadd : o.cdevAdd = 0)
    (hclass : o.classCreate = 0) : ¬ o.Fails := by
  rintro ⟨-, hf | hf | hf⟩
  · exact hf hregion
  · exact hf hadd
  · exact hf hclass

/-- The load with a buffer, up to its device region. -/
def Sys.buffered (s : Sys) : Sys :=
  { s with
    blocks := s.blocks.make, kbuffer := some s.blocks.made
    touched := List.replicate 3 (some s.blocks.made) ++ s.touched }

/-- The load with a device region and a device structure as well. -/
def Sys.described (s : Sys) : Sys :=
  { s.buffered with
    regions := s.regions.make, dev := some s.regions.made
    cdevs := s.cdevs.make, simpleCdev := some s.cdevs.made }

/-- A load that gets no buffer uses NULL. -/
theorem simpleInit_null (hk : o.kmalloc ≠ 0) :
    simpleInit o s = (none, { s with kbuffer := none, touched := none :: s.touched }) := by
  simp only [simpleInit, Sys.allocate, Sys.touch, if_pos hk, if_true]

theorem allocate_touch (hk : o.kmalloc = 0) : (s.allocate o).touch.touch.touch = s.buffered := by
  rw [Sys.allocate, if_neg (not_not.mpr hk)]
  rfl

theorem allocate_ne_none (hk : o.kmalloc = 0) : (s.allocate o).touch.kbuffer ≠ none := by
  rw [Sys.allocate, if_neg (not_not.mpr hk)]
  exact Option.some_ne_none _

/-- One that gets no device region keeps the buffer. -/
theorem simpleInit_region (hk : o.kmalloc = 0) (hregion : o.allocChrdevRegion ≠ 0) :
    simpleInit o s = (some (-(o.allocChrdevRegion : Int)), s.buffered) := by
  simp only [simpleInit, if_neg (allocate_ne_none hk), allocate_touch hk, if_pos hregion]

/-- One whose device cannot be added keeps the buffer and the device structure. -/
theorem simpleInit_add (hk : o.kmalloc = 0) (hregion : o.allocChrdevRegion = 0)
    (hadd : o.cdevAdd ≠ 0) :
    simpleInit o s = (some (-(o.cdevAdd : Int)), { s.described with
      regions := s.regions.make.releaseOpt (some s.regions.made) }) := by
  simp only [simpleInit, if_neg (allocate_ne_none hk), allocate_touch hk,
    if_neg (not_not.mpr hregion), if_pos hadd]
  rfl

/-- One that gets no class keeps the buffer. -/
theorem simpleInit_class (hk : o.kmalloc = 0) (hregion : o.allocChrdevRegion = 0)
    (hadd : o.cdevAdd = 0) (hclass : o.classCreate ≠ 0) :
    simpleInit o s = (some (-1), { s.described with
      cdevs := s.cdevs.make.releaseOpt (some s.cdevs.made)
      regions := s.regions.make.releaseOpt (some s.regions.made) }) := by
  simp only [simpleInit, if_neg (allocate_ne_none hk), allocate_touch hk,
    if_neg (not_not.mpr hregion), if_neg (not_not.mpr hadd), if_pos hclass]
  rfl

/-- And one that gets all of them keeps all, with a device or without. -/
theorem simpleInit_done (hk : o.kmalloc = 0) (hregion : o.allocChrdevRegion = 0)
    (hadd : o.cdevAdd = 0) (hclass : o.classCreate = 0) :
    simpleInit o s = (some 0,
      let s := { s.described with classes := s.classes.make, simpleClass := some s.classes.made }
      if o.deviceCreate ≠ 0 then s
      else { s with devices := s.devices.make, device := some s.devices.made }) := by
  simp only [simpleInit, if_neg (allocate_ne_none hk), allocate_touch hk,
    if_neg (not_not.mpr hregion), if_neg (not_not.mpr hadd), if_neg (not_not.mpr hclass)]
  by_cases hdevice : o.deviceCreate ≠ 0
  · simp only [if_pos hdevice]
    rfl
  · simp only [if_neg hdevice]
    rfl

end Init

section Steps

variable {o : Outcomes} {s s' : Sys} {l : Step} {h : History Sys Step}

theorem step_load : step (.load o) s = some s' ↔ s.status = .absent ∧
    (simpleInit o s.fresh).2.returned (simpleInit o s.fresh).1 = s' := by
  simp only [step, Option.ite_none_right_eq_some, Option.some.injEq]

theorem step_unload : step .unload s = some s' ↔ s.status = .loaded ∧
    { simpleExit s with status := .absent } = s' := by
  simp only [step, Option.ite_none_right_eq_some, Option.some.injEq]

theorem init_books : Books [] Sys.init where
  blocks := Pool.empty_account
  cdevs := Pool.empty_account
  regions := Pool.empty_slot
  classes := Pool.empty_slot
  devices := Pool.empty_slot
  device := fun _ => rfl
  touched := by decide

theorem returned_error {code : Nat} (hcode : code ≠ 0) :
    s.returned (some (-(code : Int))) = { s with status := .absent } := by
  have hneg : (-code : Int) < 0 := by omega
  simp only [Sys.returned, if_pos hneg]

/-- What a load finds: nothing of its own, and no use of NULL before. -/
theorem Books.absent (hb : Books h s) (habsent : s.status = .absent) :
    s.blocks.Account (lostBlocks h) false s.kbuffer ∧
      s.cdevs.Account (lostCdevs h) false s.simpleCdev ∧ s.regions.Slot false s.dev ∧
      s.classes.Slot false s.simpleClass ∧ s.device = none ∧ none ∉ s.touched := by
  rcases hb with ⟨hblocks, hcdevs, hregions, hclasses, -, hdevice, htouched⟩
  rw [habsent] at hblocks hcdevs hregions hclasses hdevice htouched
  refine ⟨hblocks, hcdevs, hregions, hclasses, hdevice nofun, ?_⟩
  rw [htouched]
  exact nofun

theorem none_notMem_buffered (hok : none ∉ s.touched) : none ∉ s.buffered.touched := by
  simp only [Sys.buffered, List.mem_append, List.mem_replicate, reduceCtorEq, and_false, false_or]
  exact hok

theorem null_books (hb : Books h s) (habsent : s.status = .absent) (hk : o.kmalloc ≠ 0) :
    Books ((s, .load o) :: h) ((simpleInit o s.fresh).2.returned (simpleInit o s.fresh).1) := by
  rcases hb.absent habsent with ⟨hblocks, hcdevs, hregions, hclasses, hdevice, -⟩
  have hfails : ¬ o.Fails := fun hf => hk hf.1
  have hfailsAdd : ¬ o.FailsAdd := fun hf => hk hf.1
  rw [simpleInit_null hk]
  refine ⟨?_, ?_, hregions.unheld, hclasses.unheld, hb.devices, fun _ => hdevice, ?_⟩
  · rw [lostBlocks, if_neg hfails]
    exact hblocks.unheld
  · rw [lostCdevs, if_neg hfailsAdd]
    exact hcdevs.unheld
  · exact iff_of_true List.mem_cons_self rfl

theorem region_books (hb : Books h s) (habsent : s.status = .absent) (hk : o.kmalloc = 0)
    (hregion : o.allocChrdevRegion ≠ 0) :
    Books ((s, .load o) :: h) ((simpleInit o s.fresh).2.returned (simpleInit o s.fresh).1) := by
  rcases hb.absent habsent with ⟨hblocks, hcdevs, hregions, hclasses, hdevice, hok⟩
  have hfails : o.Fails := ⟨hk, .inl hregion⟩
  have hfailsAdd : ¬ o.FailsAdd := fun hf => hregion hf.2.1
  rw [simpleInit_region hk hregion, returned_error hregion]
  refine ⟨?_, ?_, hregions.unheld, hclasses.unheld, hb.devices, fun _ => hdevice, ?_⟩
  · rw [lostBlocks, if_pos hfails]
    exact hblocks.make.lose
  · rw [lostCdevs, if_neg hfailsAdd]
    exact hcdevs.unheld
  · exact iff_of_false (none_notMem_buffered hok) nofun

theorem add_books (hb : Books h s) (habsent : s.status = .absent) (hk : o.kmalloc = 0)
    (hregion : o.allocChrdevRegion = 0) (hadd : o.cdevAdd ≠ 0) :
    Books ((s, .load o) :: h) ((simpleInit o s.fresh).2.returned (simpleInit o s.fresh).1) := by
  rcases hb.absent habsent with ⟨hblocks, hcdevs, hregions, hclasses, hdevice, hok⟩
  have hfails : o.Fails := ⟨hk, .inr (.inl hadd)⟩
  have hfailsAdd : o.FailsAdd := ⟨hk, hregion, hadd⟩
  rw [simpleInit_add hk hregion hadd, returned_error hadd]
  refine ⟨?_, ?_, hregions.make.release, hclasses.unheld, hb.devices, fun _ => hdevice, ?_⟩
  · rw [lostBlocks, if_pos hfails]
    exact hblocks.make.lose
  · -- The device structure is not deleted here.
    rw [lostCdevs, if_pos hfailsAdd]
    exact hcdevs.make.lose
  · exact iff_of_false (none_notMem_buffered hok) nofun

theorem class_books (hb : Books h s) (habsent : s.status = .absent) (hk : o.kmalloc = 0)
    (hregion : o.allocChrdevRegion = 0) (hadd : o.cdevAdd = 0) (hclass : o.classCreate ≠ 0) :
    Books ((s, .load o) :: h) ((simpleInit o s.fresh).2.returned (simpleInit o s.fresh).1) := by
  rcases hb.absent habsent with ⟨hblocks, hcdevs, hregions, hclasses, hdevice, hok⟩
  have hfails : o.Fails := ⟨hk, .inr (.inr hclass)⟩
  have hfailsAdd : ¬ o.FailsAdd := fun hf => hf.2.2 hadd
  rw [simpleInit_class hk hregion hadd hclass]
  refine ⟨?_, ?_, hregions.make.release, hclasses.unheld, hb.devices, fun _ => hdevice, ?_⟩
  · rw [lostBlocks, if_pos hfails]
    exact hblocks.make.lose
  · -- Here it is.
    rw [lostCdevs, if_neg hfailsAdd]
    exact hcdevs.make.release
  · exact iff_of_false (none_notMem_buffered hok) nofun

theorem done_books (hb : Books h s) (habsent : s.status = .absent) (hk : o.kmalloc = 0)
    (hregion : o.allocChrdevRegion = 0) (hadd : o.cdevAdd = 0) (hclass : o.classCreate = 0) :
    Books ((s, .load o) :: h) ((simpleInit o s.fresh).2.returned (simpleInit o s.fresh).1) := by
  rcases hb.absent habsent with ⟨hblocks, hcdevs, hregions, hclasses, hdevice, hok⟩
  have hfails : ¬ o.Fails := Outcomes.not_fails hregion hadd hclass
  have hfailsAdd : ¬ o.FailsAdd := fun hf => hf.2.2 hadd
  have hdevices : s.devices.Slot false s.device := by
    have hslot := hb.devices
    rw [hdevice] at hslot ⊢
    exact hslot
  have hblocks' : s.blocks.make.Account (lostBlocks ((s, .load o) :: h)) true
      (some s.blocks.made) := by
    rw [lostBlocks, if_neg hfails]
    exact hblocks.make
  have hcdevs' : s.cdevs.make.Account (lostCdevs ((s, .load o) :: h)) true
      (some s.cdevs.made) := by
    rw [lostCdevs, if_neg hfailsAdd]
    exact hcdevs.make
  rw [simpleInit_done hk hregion hadd hclass]
  by_cases hcreate : o.deviceCreate ≠ 0
  · simp only [if_pos hcreate]
    exact ⟨hblocks', hcdevs', hregions.make, hclasses.make, hb.devices, fun h => absurd rfl h,
      iff_of_false (none_notMem_buffered hok) nofun⟩
  · simp only [if_neg hcreate]
    exact ⟨hblocks', hcdevs', hregions.make, hclasses.make, hdevices.make, fun h => absurd rfl h,
      iff_of_false (none_notMem_buffered hok) nofun⟩

/-- A load leaves the module with all that it has acquired, or loses what it
    does not undo. -/
theorem load_books (hb : Books h s) (habsent : s.status = .absent) :
    Books ((s, .load o) :: h) ((simpleInit o s.fresh).2.returned (simpleInit o s.fresh).1) := by
  rcases o.cases with hk | ⟨hk, hregion | ⟨hregion, hadd | ⟨hadd, hclass | hclass⟩⟩⟩
  · exact null_books hb habsent hk
  · exact region_books hb habsent hk hregion
  · exact add_books hb habsent hk hregion hadd
  · exact class_books hb habsent hk hregion hadd hclass
  · exact done_books hb habsent hk hregion hadd hclass

/-- An unload releases all that the module has. -/
theorem unload_books (hb : Books h s) (hloaded : s.status = .loaded) :
    Books ((s, .unload) :: h) { simpleExit s with status := .absent } := by
  rcases hb with ⟨hblocks, hcdevs, hregions, hclasses, hdevices, -, htouched⟩
  rw [hloaded] at hblocks hcdevs hregions hclasses htouched
  refine ⟨hblocks.release, hcdevs.release, hregions.release, hclasses.release, ?_, fun _ => rfl, ?_⟩
  · show (s.devices.releaseOpt s.device).Slot false none
    cases hdevice : s.device with
    | none =>
        rw [hdevice] at hdevices
        exact hdevices
    | some n =>
        rw [hdevice] at hdevices
        exact hdevices.release
  · exact iff_of_false (fun hmem => nomatch htouched.mp hmem) nofun

theorem step_books (hb : Books h s) (hstep : step l s = some s') : Books ((s, l) :: h) s' := by
  cases l with
  | load o =>
      rcases step_load.mp hstep with ⟨habsent, rfl⟩
      exact load_books hb habsent
  | unload =>
      rcases step_unload.mp hstep with ⟨hloaded, rfl⟩
      exact unload_books hb hloaded

/-- How a load ends. -/
theorem load_status : ((simpleInit o s).2.returned (simpleInit o s).1).status =
    if o.kmalloc ≠ 0 then .oopsed else if o.Fails then .absent else .loaded := by
  rcases o.cases with hk | ⟨hk, hregion | ⟨hregion, hadd | ⟨hadd, hclass | hclass⟩⟩⟩
  · rw [if_pos hk, simpleInit_null hk]
    rfl
  · rw [if_neg (not_not.mpr hk), if_pos ⟨hk, .inl hregion⟩, simpleInit_region hk hregion,
      returned_error hregion]
  · rw [if_neg (not_not.mpr hk), if_pos ⟨hk, .inr (.inl hadd)⟩, simpleInit_add hk hregion hadd,
      returned_error hadd]
  · rw [if_neg (not_not.mpr hk), if_pos ⟨hk, .inr (.inr hclass)⟩,
      simpleInit_class hk hregion hadd hclass]
    rfl
  · rw [if_neg (not_not.mpr hk), if_neg (Outcomes.not_fails hregion hadd hclass),
      simpleInit_done hk hregion hadd hclass]
    rfl

end Steps

section Runs

variable {s s' : Sys} {l : Step} {h : History Sys Step}

theorem run_books (hr : Run step Sys.init h s) : Books h s :=
  hr.historyInvariant Books init_books fun _ _ _ _ _ hb hstep => step_books hb hstep

/-- A module that is not loaded holds a buffer for every load that has failed
    and a device structure for every one that has failed at `cdev_add`, and
    everything else has been released once. -/
theorem run_leaks (hr : Run step Sys.init h s) (habsent : s.status = .absent) :
    (∀ n, s.blocks.Live n ↔ n ∈ lostBlocks h) ∧ (∀ n, s.cdevs.Live n ↔ n ∈ lostCdevs h) ∧
      s.regions.Settled ∧ s.classes.Settled ∧ s.devices.Settled := by
  have hb := run_books hr
  rcases hb.absent habsent with ⟨hblocks, hcdevs, hregions, hclasses, hdevice, -⟩
  refine ⟨fun n => ?_, fun n => ?_, hregions.settled_iff.mpr rfl, hclasses.settled_iff.mpr rfl, ?_⟩
  · rw [hblocks.owns.live_iff]
    simp only [Bool.false_eq_true, false_and, or_false]
  · rw [hcdevs.owns.live_iff]
    simp only [Bool.false_eq_true, false_and, or_false]
  · rw [hb.devices.settled_iff, hdevice]
    rfl

/-- While the module is loaded each of its variables has something that was not
    released, and the exit function releases it for the first time. -/
theorem run_exit_once (hr : Run step Sys.init h s) (hloaded : s.status = .loaded) :
    (∃ n, s.kbuffer = some n ∧ s.blocks.Live n ∧ (simpleExit s).blocks.released n = 1) ∧
    (∃ n, s.dev = some n ∧ s.regions.Live n ∧ (simpleExit s).regions.released n = 1) ∧
    (∃ n, s.simpleCdev = some n ∧ s.cdevs.Live n ∧ (simpleExit s).cdevs.released n = 1) ∧
    ∃ n, s.simpleClass = some n ∧ s.classes.Live n ∧ (simpleExit s).classes.released n = 1 := by
  rcases run_books hr with ⟨hblocks, hcdevs, hregions, hclasses, -, -, -⟩
  rw [hloaded] at hblocks hcdevs hregions hclasses
  exact ⟨hblocks.release_once, hregions.release_once, hcdevs.release_once, hclasses.release_once⟩

/-- The law, by the books: no oops, and nothing lost when nothing is loaded. -/
theorem Books.nothingLeft_iff (hb : Books h s) : NothingLeft s ↔
    s.status ≠ .oopsed ∧ (s.status = .absent → lostBlocks h = [] ∧ lostCdevs h = []) := by
  refine and_congr (not_congr hb.touched) (forall_congr' fun habsent => ?_)
  rcases hb.absent habsent with ⟨hblocks, hcdevs, hregions, hclasses, hdevice, -⟩
  have hdevices : s.devices.Settled := hb.devices.settled_iff.mpr (by rw [hdevice]; rfl)
  rw [hblocks.settled_iff, hcdevs.settled_iff]
  simp only [and_true, hregions.settled_iff.mpr rfl, hclasses.settled_iff.mpr rfl, hdevices,
    true_and]

/-- Loads that succeed lose nothing. -/
theorem lost_of_succeeds (hall : EveryStep (fun _ _ => Succeeds) h) :
    lostBlocks h = [] ∧ lostCdevs h = [] := by
  induction h with
  | nil => exact ⟨rfl, rfl⟩
  | cons p h ih =>
      rcases p with ⟨s, l⟩
      rcases ih hall.2 with ⟨hblocks, hcdevs⟩
      cases l with
      | load o =>
          have hfails : ¬ o.Fails := hall.1.2
          have hfailsAdd : ¬ o.FailsAdd := fun hf => hfails ⟨hf.1, .inr (.inl hf.2.2)⟩
          rw [lostBlocks, if_neg hfails, lostCdevs, if_neg hfailsAdd]
          exact ⟨hblocks, hcdevs⟩
      | unload => exact ⟨hblocks, hcdevs⟩

/-- A step leaves nothing behind, where nothing was left before, exactly if it
    is not a load that fails. -/
theorem step_nothingLeft_iff (hb : Books h s) (hlost : lostBlocks h = [] ∧ lostCdevs h = [])
    (hstep : step l s = some s') : NothingLeft s' ↔ Succeeds l := by
  rw [(step_books hb hstep).nothingLeft_iff]
  cases l with
  | unload =>
      rcases step_unload.mp hstep with ⟨-, rfl⟩
      exact iff_of_true ⟨nofun, fun _ => hlost⟩ trivial
  | load o =>
      rcases step_load.mp hstep with ⟨-, rfl⟩
      rw [load_status]
      by_cases hk : o.kmalloc = 0
      · rw [if_neg (not_not.mpr hk)]
        by_cases hfails : o.Fails
        · -- The buffer is lost.
          rw [if_pos hfails]
          refine iff_of_false (fun hleft => ?_) fun hs => hs.2 hfails
          have hnil := (hleft.2 rfl).1
          rw [lostBlocks, if_pos hfails] at hnil
          exact nomatch hnil
        · rw [if_neg hfails]
          exact iff_of_true ⟨nofun, nofun⟩ ⟨hk, hfails⟩
      · rw [if_pos hk]
        exact iff_of_false (fun hleft => hleft.1 rfl) fun hs => hk hs.1

/-- Nothing is left behind, and the buffer is never used without being there,
    in the runs in which no load fails, and in no others. -/
theorem run_nothingLeft_iff (hr : Run step Sys.init h s) :
    EveryState NothingLeft h s ↔ EveryStep (fun _ _ => Succeeds) h := by
  have hinit : NothingLeft Sys.init :=
    init_books.nothingLeft_iff.mpr ⟨nofun, fun _ => ⟨rfl, rfl⟩⟩
  refine hr.everyState_iff_everyStep_of_before hinit ?_
  intro h s l s' hr hbefore _ hstep
  exact step_nothingLeft_iff (run_books hr) (lost_of_succeeds hbefore) hstep

/-- Calls that all succeed. -/
def allSucceed : Outcomes :=
  { kmalloc := 0, allocChrdevRegion := 0, cdevAdd := 0, classCreate := 0, deviceCreate := 0 }

/-- Two loads and unloads, of which the second has no device in sysfs. -/
theorem run_nothingLeft_twice : ∃ h s, Run step Sys.init h s ∧ s.blocks.made = 2 ∧
    s.devices.made = 1 ∧ s.status = .absent ∧ EveryState NothingLeft h s := by
  rcases exists_run_of_exec step Sys.init
    [.load allSucceed, .unload, .load { allSucceed with deviceCreate := 12 }, .unload]
    (fun h s => EveryStep (fun _ _ => Succeeds) h ∧ s.blocks.made = 2 ∧ s.devices.made = 1 ∧
      s.status = .absent)
    (by decide) with ⟨h, s, hr, hp⟩
  rcases of_decide_eq_true hp with ⟨hall, hblocks, hdevices, habsent⟩
  exact ⟨h, s, hr, hblocks, hdevices, habsent, (run_nothingLeft_iff hr).mpr hall⟩

/-- A load fails at `cdev_add`, and its buffer and its device structure stay
    behind. The next one gets no buffer, and uses NULL. -/
theorem run_leftBehind : ∃ h s h' s',
    Run step Sys.init h s ∧ s.status = .absent ∧ s.blocks.Live 0 ∧ s.cdevs.Live 0 ∧
      ¬ NothingLeft s ∧
    Run step Sys.init h' s' ∧ h' = (s, .load { allSucceed with kmalloc := 12 }) :: h ∧
      none ∈ s'.touched ∧ ¬ NothingLeft s' := by
  have hadd : Run step Sys.init [(Sys.init, .load { allSucceed with cdevAdd := 12 })] _ :=
    .next _ .start rfl
  have hnull : Run step Sys.init _ _ := .next (.load { allSucceed with kmalloc := 12 }) hadd rfl
  refine ⟨_, _, _, _, hadd, rfl, by decide, by decide, fun hleft => ?_, hnull, rfl, by decide,
    fun hleft => hleft.1 (by decide)⟩
  have honce := (hleft.2 rfl).1.1 0 (by decide)
  exact absurd honce (by decide)

end Runs

end Load

end Simple

end KernelModules
