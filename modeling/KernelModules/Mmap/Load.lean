import KernelModules.Kernel.User
import KernelModules.Lib.Pool
import KernelModules.Lib.Run

/-!
# Loading and Unloading the Mmap Module

The init and exit functions of `mmap_kmalloc.c` statement by statement, over
any number of loads and unloads, with device opens and reads of the `/proc`
entry between any two statements. Every acquisition that the init function
checks may fail, and is told so by the label of the step. `cdev_init` is left
out, and `cdev_del` is taken for the release of the structure, as it is in
`Simple.Load`.

The five things acquired are kept in pools, so that the books say what is
held and whether anything was released twice. The module's own variables are
fresh in every load, as its image is.

Two laws are asked for. The device and the `/proc` entry should be registered
over allocated buffers only. They never are: the init function registers both
before it allocates either buffer (`run_published_iff`). And a module that is
not loaded should hold nothing. That is so exactly as long as no load fails
after its device region (`run_released_iff`), since the init function undoes
nothing but the region, and that only for a failing `cdev_add`.

## Main definitions

* `Pc`, `Sys`, `Step`, `step`: The module and its callers.
* `Published`, `Released`, `Clean`: The two laws, and both.
* `KeepsPrivate`, `FailsEarly`: Their conditions.
* `Holds`: What the module holds at a statement.

## Theorems

* `step_call`: Callers leave what the module has acquired alone.
* `step_access`: Callers of a published module touch allocated memory.
* `run_published_iff`, `run_released_iff`: When each law holds.
* `run_clean_iff`: When both do.
* `run_early_read`: A read of the `/proc` entry before there is a buffer.
-/

namespace KernelModules

namespace Mmap

namespace Load

open Kernel Lib

/-- The statements of `register_this_driver_as_char`, of the rest of
    `mmap_kmalloc_init_module`, and of `mmap_kmalloc_cleanup_module`. The
    module is `absent` before a load, after one that failed and after an
    unload. -/
inductive Pc where
  | absent
  | allocRegion
  | cdevAlloc
  | cdevAdd
  | undoRegion
  | procCreate
  | setReadFlag
  | kmallocPtr
  | kmallocArea
  | vmallocPtr
  | loaded
  | kfree
  | vfree
  | cdevDel
  | unregisterRegion
  | removeProcEntry
  deriving DecidableEq

/-- What the kernel has given out, the module's variables, the registered
    devices and `/proc` entries, the open files, and whether a caller has
    come to memory that is not there. `result` is the module's local of that
    name and then what its init function returned. -/
structure Sys where
  regions : Pool
  cdevs : Pool
  entries : Pool
  kblocks : Pool
  vblocks : Pool
  dev : Option Nat
  testMmapCdev : Option Nat
  procEntry : Option Nat
  kmallocPtr : Option Nat
  kmallocArea : Option Nat
  vmallocPtr : Option Nat
  readFlag : Bool
  added : List Nat
  listed : List Nat
  pc : Pc
  result : Int
  opens : Nat
  fault : Bool

def Sys.init : Sys :=
  { regions := .empty, cdevs := .empty, entries := .empty, kblocks := .empty, vblocks := .empty,
    dev := none, testMmapCdev := none, procEntry := none, kmallocPtr := none, kmallocArea := none,
    vmallocPtr := none, readFlag := true, added := [], listed := [], pc := .absent, result := 0,
    opens := 0, fault := false }

/-- A pointer to an allocated block. -/
def Points (p : Pool) (ptr : Option Nat) : Prop := ∃ n, ptr = some n ∧ p.Live n

instance (p : Pool) : (ptr : Option Nat) → Decidable (Points p ptr)
  | none => .isFalse fun ⟨_, hn, _⟩ => absurd hn.symm (Option.some_ne_none _)
  | some n => decidable_of_iff (p.Live n)
    ⟨fun h => ⟨n, rfl, h⟩, fun ⟨_, hm, h⟩ => Option.some.inj hm ▸ h⟩

/-- The steps. `err` is what the acquisition returns, 0 for success; an
    allocation returns NULL for any other. -/
inductive Step where
  | load
  | init (err : Int)
  | unload
  | exit
  | openDevice (minor : Nat)
  | closeDevice
  | procRead

/-- One statement of the init function. -/
def initStmt (err : Int) (s : Sys) : Option Sys :=
  match s.pc with
  | .allocRegion =>
    if err ≠ 0 then some { s with result := err, pc := .absent }
    else some { s with
      regions := s.regions.make, dev := some s.regions.made, result := 0, pc := .cdevAlloc }
  | .cdevAlloc =>
    some { s with cdevs := s.cdevs.make, testMmapCdev := some s.cdevs.made, pc := .cdevAdd }
  | .cdevAdd =>
    if err ≠ 0 then some { s with result := err, pc := .undoRegion }
    else some { s with
      added := s.testMmapCdev.toList ++ s.added, result := 0, pc := .procCreate }
  -- The only failure that undoes anything.
  | .undoRegion => some { s with regions := s.regions.releaseOpt s.dev, pc := .absent }
  | .procCreate =>
    some { s with
      entries := s.entries.make, procEntry := some s.entries.made
      listed := s.entries.made :: s.listed, pc := .setReadFlag }
  | .setReadFlag => some { s with readFlag := true, pc := .kmallocPtr }
  | .kmallocPtr =>
    if err ≠ 0 then some { s with kmallocPtr := none, result := -ENOMEM, pc := .absent }
    else some { s with
      kblocks := s.kblocks.make, kmallocPtr := some s.kblocks.made, pc := .kmallocArea }
  -- The area is a page-aligned part of the block.
  | .kmallocArea => some { s with kmallocArea := s.kmallocPtr, pc := .vmallocPtr }
  | .vmallocPtr =>
    if err ≠ 0 then some { s with vmallocPtr := none, result := -ENOMEM, pc := .absent }
    else some { s with
      vblocks := s.vblocks.make, vmallocPtr := some s.vblocks.made, result := 0, pc := .loaded }
  | _ => none

/-- One statement of the exit function. -/
def exitStmt (s : Sys) : Option Sys :=
  match s.pc with
  | .kfree => some { s with kblocks := s.kblocks.releaseOpt s.kmallocPtr, pc := .vfree }
  | .vfree => some { s with vblocks := s.vblocks.releaseOpt s.vmallocPtr, pc := .cdevDel }
  | .cdevDel =>
    some { s with
      cdevs := s.cdevs.releaseOpt s.testMmapCdev
      added := s.added.filter fun n => some n ≠ s.testMmapCdev, pc := .unregisterRegion }
  | .unregisterRegion =>
    some { s with regions := s.regions.releaseOpt s.dev, pc := .removeProcEntry }
  | .removeProcEntry =>
    some { s with
      entries := s.entries.releaseOpt s.procEntry
      listed := s.listed.filter fun n => some n ≠ s.procEntry, pc := .absent }
  | _ => none

/-- A caller of the module goes to its code and to memory behind `ptr`. -/
def Reaches (s : Sys) (p : Pool) (ptr : Option Nat) : Prop := s.pc ≠ .absent ∧ Points p ptr

instance (s : Sys) (p : Pool) (ptr : Option Nat) : Decidable (Reaches s p ptr) :=
  inferInstanceAs (Decidable (_ ∧ _))

/-- Loads and unloads do not overlap, and a module with open files is not
    unloaded. Opens and reads of the `/proc` entry come whenever the device
    and the entry are registered. -/
def step : Step → Sys → Option Sys
  | .load, s =>
    if s.pc = .absent then
      some { s with
        dev := none, testMmapCdev := none, procEntry := none, kmallocPtr := none
        kmallocArea := none, vmallocPtr := none, readFlag := true, pc := .allocRegion }
    else none
  | .init err, s => initStmt err s
  | .unload, s => if s.pc = .loaded ∧ s.opens = 0 then some { s with pc := .kfree } else none
  | .exit, s => exitStmt s
  | .openDevice minor, s =>
    if s.added = [] then none
    -- `test_mmap_open` fills the area of its minor.
    else if minor = 0 then
      some { s with opens := s.opens + 1, fault := s.fault || ¬ Reaches s s.kblocks s.kmallocArea }
    else if minor = 1 then
      some { s with opens := s.opens + 1, fault := s.fault || ¬ Reaches s s.vblocks s.vmallocPtr }
    else some s
  | .closeDevice, s => if s.opens = 0 then none else some { s with opens := s.opens - 1 }
  | .procRead, s =>
    if s.listed = [] then none
    else some { s with
      readFlag := !s.readFlag
      fault := s.fault || (s.readFlag && ¬ Reaches s s.kblocks s.kmallocArea) }

/-- While the device or the `/proc` entry is registered, both areas refer to
    allocated memory. -/
def Published (s : Sys) : Prop :=
  s.added ≠ [] ∨ s.listed ≠ [] → Points s.kblocks s.kmallocArea ∧ Points s.vblocks s.vmallocPtr

instance (s : Sys) : Decidable (Published s) := inferInstanceAs (Decidable (_ → _))

/-- While the module is not loaded, everything it acquired has been released,
    each thing once. -/
def Released (s : Sys) : Prop :=
  s.pc = .absent → s.regions.Settled ∧ s.cdevs.Settled ∧ s.entries.Settled ∧
    s.kblocks.Settled ∧ s.vblocks.Settled

def Clean (s : Sys) : Prop := Published s ∧ Released s

/-- `cdev_add` fails. -/
def KeepsPrivate (s : Sys) : Step → Prop
  | .init err => s.pc = .cdevAdd → err ≠ 0
  | _ => True

/-- The load does not return after a failing `cdev_add`, and no allocation
    fails. -/
def FailsEarly (s : Sys) : Step → Prop
  | .init err => s.pc ≠ .undoRegion ∧ (s.pc = .kmallocPtr ∨ s.pc = .vmallocPtr → err = 0)
  | _ => True

instance (s : Sys) : (l : Step) → Decidable (KeepsPrivate s l)
  | .init _ => inferInstanceAs (Decidable (_ → _))
  | .load | .unload | .exit | .openDevice _ | .closeDevice | .procRead => .isTrue trivial

instance (s : Sys) : (l : Step) → Decidable (FailsEarly s l)
  | .init _ => inferInstanceAs (Decidable (_ ∧ _))
  | .load | .unload | .exit | .openDevice _ | .closeDevice | .procRead => .isTrue trivial

section Callers

variable {s s' : Sys} {l : Step}

/-- The steps of callers of the module. -/
def Step.IsCall : Step → Prop
  | .openDevice _ | .closeDevice | .procRead => True
  | _ => False

/-- A caller does nothing to what the module has acquired or registered. -/
theorem step_call (hstep : step l s = some s') (hl : l.IsCall) : ∃ readFlag opens fault,
    s' = { s with readFlag := readFlag, opens := opens, fault := fault } := by
  cases l with
  | openDevice minor =>
      simp only [step] at hstep
      split at hstep
      · simp only [reduceCtorEq] at hstep
      · split at hstep
        · cases hstep
          exact ⟨_, _, _, rfl⟩
        · split at hstep <;> cases hstep
          · exact ⟨_, _, _, rfl⟩
          · exact ⟨s.readFlag, s.opens, s.fault, rfl⟩
  | closeDevice =>
      simp only [step, Option.ite_none_left_eq_some, Option.some.injEq] at hstep
      rcases hstep with ⟨_, rfl⟩
      exact ⟨_, _, _, rfl⟩
  | procRead =>
      simp only [step, Option.ite_none_left_eq_some, Option.some.injEq] at hstep
      rcases hstep with ⟨_, rfl⟩
      exact ⟨_, _, _, rfl⟩
  | load => exact hl.elim
  | init err => exact hl.elim
  | unload => exact hl.elim
  | exit => exact hl.elim

end Callers

section Publishing

/-- Nothing is registered, and the module is not past `cdev_add`. -/
def Private (s : Sys) : Prop :=
  s.added = [] ∧ s.listed = [] ∧
    match s.pc with
    | .absent | .undoRegion => True
    | .allocRegion | .cdevAlloc => s.kmallocArea = none
    | .cdevAdd => s.kmallocArea = none ∧ s.testMmapCdev ≠ none
    | _ => False

variable {s s' : Sys} {l : Step} {h : History Sys Step}

theorem Private.published (hs : Private s) : Published s := by
  rintro (hadded | hlisted)
  · exact absurd hs.1 hadded
  · exact absurd hs.2.1 hlisted

theorem keepsPrivate_at {err : Int} {pc : Pc} (hat : s.pc = pc) (hadd : pc ≠ .cdevAdd) :
    KeepsPrivate s (.init err) := by
  rw [KeepsPrivate, hat]
  exact fun h => absurd h hadd

/-- A private module gets on to a published one only by `cdev_add`, and then
    its areas are not allocated. -/
theorem step_private (hs : Private s) (hstep : step l s = some s') :
    (KeepsPrivate s l ∧ Private s') ∨ (¬ KeepsPrivate s l ∧ ¬ Published s') := by
  rcases hs with ⟨hadded, hlisted, hpc⟩
  cases l with
  | load =>
      simp only [step, Option.ite_none_right_eq_some, Option.some.injEq] at hstep
      rcases hstep with ⟨_, rfl⟩
      exact .inl ⟨trivial, hadded, hlisted, rfl⟩
  | init err =>
      cases hat : s.pc <;> simp only [step, initStmt, hat, reduceCtorEq] at hpc hstep
      case allocRegion =>
        split at hstep <;> cases hstep
        · exact .inl ⟨keepsPrivate_at hat nofun, hadded, hlisted, trivial⟩
        · exact .inl ⟨keepsPrivate_at hat nofun, hadded, hlisted, hpc⟩
      case cdevAlloc =>
        cases hstep
        exact .inl ⟨keepsPrivate_at hat nofun, hadded, hlisted, hpc,
          Option.some_ne_none _⟩
      case cdevAdd =>
        split at hstep <;> cases hstep
        · rename_i herr
          exact .inl ⟨fun _ => herr, hadded, hlisted, trivial⟩
        · rename_i herr
          -- The device that is added has no area behind it.
          refine .inr ⟨fun h => herr (h hat), fun hpub => ?_⟩
          rcases Option.ne_none_iff_exists'.mp hpc.2 with ⟨n, hn⟩
          rcases (hpub (.inl (by simp only [hn, Option.toList_some, List.singleton_append, ne_eq,
            reduceCtorEq, not_false_eq_true]))).1 with ⟨m, hm, _⟩
          exact absurd (hpc.1.symm.trans hm) (Option.some_ne_none m).symm
      case undoRegion =>
        cases hstep
        exact .inl ⟨keepsPrivate_at hat nofun, hadded, hlisted, trivial⟩
  | unload =>
      simp only [step, Option.ite_none_right_eq_some] at hstep
      rw [hstep.1.1] at hpc
      exact hpc.elim
  | exit =>
      cases hat : s.pc <;> simp only [step, exitStmt, hat, reduceCtorEq] at hpc hstep
  | openDevice minor =>
      rw [step, if_pos hadded] at hstep
      simp only [reduceCtorEq] at hstep
  | closeDevice =>
      rcases step_call hstep trivial with ⟨flag, opens, fault, rfl⟩
      exact .inl ⟨trivial, hadded, hlisted, hpc⟩
  | procRead =>
      rw [step, if_pos hlisted] at hstep
      simp only [reduceCtorEq] at hstep

/-- The module is published over its areas in no run but those in which every
    `cdev_add` fails. -/
theorem run_published_iff (hr : Run step Sys.init h s) :
    EveryState Published h s ↔ EveryStep (fun _ => KeepsPrivate) h := by
  refine hr.everyState_iff_under (fun _ => Private) ⟨rfl, rfl, trivial⟩ (fun hreg => ?_) ?_
  · rcases hreg with hreg | hreg <;> exact absurd rfl hreg
  · intro h s l s' _ hs hstep
    rcases step_private hs hstep with ⟨hkeeps, hs'⟩ | ⟨hnot, hs'⟩
    · exact ⟨fun _ => iff_of_true hs'.published hkeeps, fun _ => hs'⟩
    · exact ⟨fun _ => iff_of_false hs' hnot, fun hkeeps => absurd hkeeps hnot⟩

/-- Callers of a published module that is loaded come to memory that is there. -/
theorem step_access (hs : Published s) (hpc : s.pc ≠ .absent) (hstep : step l s = some s')
    (hl : l = .procRead ∨ ∃ minor, l = .openDevice minor) : s'.fault = s.fault := by
  rcases hl with rfl | ⟨minor, rfl⟩
  · simp only [step] at hstep
    split at hstep
    · simp only [reduceCtorEq] at hstep
    · rename_i hlisted
      cases hstep
      have hreaches : Reaches s s.kblocks s.kmallocArea := ⟨hpc, (hs (.inr hlisted)).1⟩
      simp only [hreaches, not_true_eq_false, decide_false, Bool.and_false, Bool.or_false]
  · simp only [step] at hstep
    split at hstep
    · simp only [reduceCtorEq] at hstep
    · rename_i hadded
      have hpoints := hs (.inl hadded)
      have hkreaches : Reaches s s.kblocks s.kmallocArea := ⟨hpc, hpoints.1⟩
      have hvreaches : Reaches s s.vblocks s.vmallocPtr := ⟨hpc, hpoints.2⟩
      split at hstep
      · cases hstep
        simp only [hkreaches, not_true_eq_false, decide_false, Bool.or_false]
      · split at hstep <;> cases hstep
        · simp only [hvreaches, not_true_eq_false, decide_false, Bool.or_false]
        · rfl

end Publishing

section Releasing

/-- Where the module has its device region. -/
def Pc.holdsRegion : Pc → Bool
  | .absent | .allocRegion | .removeProcEntry => false
  | _ => true

/-- Where it has its device structure. -/
def Pc.holdsCdev : Pc → Bool
  | .absent | .allocRegion | .cdevAlloc | .unregisterRegion | .removeProcEntry => false
  | _ => true

/-- Where it has its `/proc` entry. -/
def Pc.holdsEntry : Pc → Bool
  | .absent | .allocRegion | .cdevAlloc | .cdevAdd | .undoRegion | .procCreate => false
  | _ => true

/-- Where it has the block of `kmalloc_ptr`. -/
def Pc.holdsKblock : Pc → Bool
  | .kmallocArea | .vmallocPtr | .loaded | .kfree => true
  | _ => false

/-- Where it has the block of `vmalloc_ptr`. -/
def Pc.holdsVblock : Pc → Bool
  | .loaded | .kfree | .vfree => true
  | _ => false

/-- At a statement the module holds what the tables say, and all else that was
    acquired in this load or an earlier one has been released. -/
structure Holds (pc : Pc) (s : Sys) : Prop where
  region : s.regions.Slot pc.holdsRegion s.dev
  cdev : s.cdevs.Slot pc.holdsCdev s.testMmapCdev
  entry : s.entries.Slot pc.holdsEntry s.procEntry
  kblock : s.kblocks.Slot pc.holdsKblock s.kmallocPtr
  vblock : s.vblocks.Slot pc.holdsVblock s.vmallocPtr

variable {s s' : Sys} {l : Step} {h : History Sys Step}

theorem init_holds : Holds .absent Sys.init where
  region := Pool.empty_slot
  cdev := Pool.empty_slot
  entry := Pool.empty_slot
  kblock := Pool.empty_slot
  vblock := Pool.empty_slot

theorem Holds.released (hs : Holds s.pc s) : Released s := by
  intro hpc
  rw [hpc] at hs
  exact ⟨hs.region.settled_iff.mpr rfl, hs.cdev.settled_iff.mpr rfl, hs.entry.settled_iff.mpr rfl,
    hs.kblock.settled_iff.mpr rfl, hs.vblock.settled_iff.mpr rfl⟩

/-- What a statement acquires that is neither an allocation nor the return
    after a failing `cdev_add` may fail. -/
theorem failsEarly_at {err : Int} {pc : Pc} (hat : s.pc = pc) (hundo : pc ≠ .undoRegion)
    (hk : pc ≠ .kmallocPtr) (hv : pc ≠ .vmallocPtr) : FailsEarly s (.init err) := by
  rw [FailsEarly, hat]
  refine ⟨hundo, fun halloc => ?_⟩
  rcases halloc with halloc | halloc
  · exact absurd halloc hk
  · exact absurd halloc hv

/-- A statement of the init function either leaves the module with what the
    tables say, or it ends a load that has released too little. -/
theorem initStmt_holds {err : Int} (hs : Holds s.pc s) (hstep : initStmt err s = some s') :
    (FailsEarly s (.init err) ∧ Holds s'.pc s') ∨ (¬ FailsEarly s (.init err) ∧ ¬ Released s') := by
  cases hat : s.pc <;> rw [hat] at hs <;>
    simp only [initStmt, hat, reduceCtorEq] at hstep
  case allocRegion =>
    refine .inl ⟨failsEarly_at hat nofun nofun nofun, ?_⟩
    split at hstep <;> cases hstep
    · exact ⟨hs.region, hs.cdev, hs.entry, hs.kblock, hs.vblock⟩
    · exact ⟨hs.region.make, hs.cdev, hs.entry, hs.kblock, hs.vblock⟩
  case cdevAlloc =>
    refine .inl ⟨failsEarly_at hat nofun nofun nofun, ?_⟩
    cases hstep
    exact ⟨hs.region, hs.cdev.make, hs.entry, hs.kblock, hs.vblock⟩
  case cdevAdd =>
    refine .inl ⟨failsEarly_at hat nofun nofun nofun, ?_⟩
    split at hstep <;> cases hstep
    · exact ⟨hs.region, hs.cdev, hs.entry, hs.kblock, hs.vblock⟩
    · exact ⟨hs.region, hs.cdev, hs.entry, hs.kblock, hs.vblock⟩
  case undoRegion =>
    -- The device structure stays behind.
    refine .inr ⟨fun hearly => hearly.1 hat, fun hreleased => ?_⟩
    cases hstep
    exact Bool.noConfusion (hs.cdev.settled_iff.mp (hreleased rfl).2.1)
  case procCreate =>
    refine .inl ⟨failsEarly_at hat nofun nofun nofun, ?_⟩
    cases hstep
    exact ⟨hs.region, hs.cdev, hs.entry.make, hs.kblock, hs.vblock⟩
  case setReadFlag =>
    refine .inl ⟨failsEarly_at hat nofun nofun nofun, ?_⟩
    cases hstep
    exact ⟨hs.region, hs.cdev, hs.entry, hs.kblock, hs.vblock⟩
  case kmallocPtr =>
    split at hstep <;> rename_i herr <;> cases hstep
    · refine .inr ⟨fun hearly => herr (hearly.2 (.inl hat)), fun hreleased => ?_⟩
      exact Bool.noConfusion (hs.region.settled_iff.mp (hreleased rfl).1)
    · refine .inl ⟨⟨by rw [hat]; exact nofun, fun _ => not_not.mp herr⟩, ?_⟩
      exact ⟨hs.region, hs.cdev, hs.entry, hs.kblock.make, hs.vblock⟩
  case kmallocArea =>
    refine .inl ⟨failsEarly_at hat nofun nofun nofun, ?_⟩
    cases hstep
    exact ⟨hs.region, hs.cdev, hs.entry, hs.kblock, hs.vblock⟩
  case vmallocPtr =>
    split at hstep <;> rename_i herr <;> cases hstep
    · refine .inr ⟨fun hearly => herr (hearly.2 (.inr hat)), fun hreleased => ?_⟩
      exact Bool.noConfusion (hs.region.settled_iff.mp (hreleased rfl).1)
    · refine .inl ⟨⟨by rw [hat]; exact nofun, fun _ => not_not.mp herr⟩, ?_⟩
      exact ⟨hs.region, hs.cdev, hs.entry, hs.kblock, hs.vblock.make⟩

/-- The exit function releases what the tables say, and ends with nothing. -/
theorem exitStmt_holds (hs : Holds s.pc s) (hstep : exitStmt s = some s') : Holds s'.pc s' := by
  cases hat : s.pc <;> rw [hat] at hs <;>
    simp only [exitStmt, hat, reduceCtorEq] at hstep
  case kfree =>
    cases hstep
    exact ⟨hs.region, hs.cdev, hs.entry, hs.kblock.release, hs.vblock⟩
  case vfree =>
    cases hstep
    exact ⟨hs.region, hs.cdev, hs.entry, hs.kblock, hs.vblock.release⟩
  case cdevDel =>
    cases hstep
    exact ⟨hs.region, hs.cdev.release, hs.entry, hs.kblock, hs.vblock⟩
  case unregisterRegion =>
    cases hstep
    exact ⟨hs.region.release, hs.cdev, hs.entry, hs.kblock, hs.vblock⟩
  case removeProcEntry =>
    cases hstep
    exact ⟨hs.region, hs.cdev, hs.entry.release, hs.kblock, hs.vblock⟩

theorem step_holds (hs : Holds s.pc s) (hstep : step l s = some s') :
    (FailsEarly s l ∧ Holds s'.pc s') ∨ (¬ FailsEarly s l ∧ ¬ Released s') := by
  cases l with
  | init err => exact initStmt_holds hs hstep
  | exit => exact .inl ⟨trivial, exitStmt_holds hs hstep⟩
  | load =>
      simp only [step, Option.ite_none_right_eq_some, Option.some.injEq] at hstep
      rcases hstep with ⟨habsent, rfl⟩
      rw [habsent] at hs
      -- A fresh image of the module, which has nothing yet.
      exact .inl ⟨trivial, hs.region.unheld, hs.cdev.unheld, hs.entry.unheld, hs.kblock.unheld,
        hs.vblock.unheld⟩
  | unload =>
      simp only [step, Option.ite_none_right_eq_some, Option.some.injEq] at hstep
      rcases hstep with ⟨hloaded, rfl⟩
      rw [hloaded.1] at hs
      exact .inl ⟨trivial, hs.region, hs.cdev, hs.entry, hs.kblock, hs.vblock⟩
  | openDevice _ | closeDevice | procRead =>
      rcases step_call hstep trivial with ⟨flag, opens, fault, rfl⟩
      exact .inl ⟨trivial, hs.region, hs.cdev, hs.entry, hs.kblock, hs.vblock⟩

/-- A module that is not loaded has released everything once, in the runs in
    which no load fails after its device region, and in no others. -/
theorem run_released_iff (hr : Run step Sys.init h s) :
    EveryState Released h s ↔ EveryStep (fun _ => FailsEarly) h := by
  refine hr.everyState_iff_under (fun _ s => Holds s.pc s) init_holds init_holds.released ?_
  intro h s l s' _ hs hstep
  rcases step_holds hs hstep with ⟨hearly, hs'⟩ | ⟨hnot, hs'⟩
  · exact ⟨fun _ => iff_of_true hs'.released hearly, fun _ => hs'⟩
  · exact ⟨fun _ => iff_of_false hs' hnot, fun hearly => absurd hearly hnot⟩

end Releasing

/-- Both laws hold of a run exactly if every `cdev_add` in it fails and no load
    returns with an error but the one for its device region. -/
theorem run_clean_iff {h : History Sys Step} {s : Sys} (hr : Run step Sys.init h s) :
    EveryState Clean h s ↔ EveryStep (fun _ s l => KeepsPrivate s l ∧ FailsEarly s l) h := by
  rw [show Clean = fun s => Published s ∧ Released s from rfl, everyState_and, everyStep_and,
    run_published_iff hr, run_released_iff hr]

/-- Two loads that get no device region, and a third that is at `cdev_add`. -/
theorem run_clean_refused :
    ∃ h s, Run step Sys.init h s ∧ s.pc = .cdevAdd ∧ s.result = 0 ∧ EveryState Clean h s := by
  rcases exists_run_of_exec step Sys.init
    [.load, .init (-16), .load, .init (-12), .load, .init 0, .init 0]
    (fun h s => decide (EveryStep (fun _ s l => KeepsPrivate s l ∧ FailsEarly s l) h ∧
      s.pc = .cdevAdd ∧ s.result = 0))
    (by decide) with ⟨h, s, hr, hp⟩
  rcases of_decide_eq_true hp with ⟨hcond, hpc, hres⟩
  exact ⟨h, s, hr, hpc, hres, (run_clean_iff hr).mpr hcond⟩

/-- The `/proc` entry is read between `proc_create` and `kmalloc`: it is
    registered with no area behind it, and the reader comes to memory that is
    not there. Then `kmalloc` fails, and a load that returns `-ENOMEM` has
    released nothing. -/
theorem run_early_read : ∃ h s, Run step Sys.init h s ∧ s.result = -ENOMEM ∧ s.fault = true ∧
    ¬ Published s ∧ ¬ Released s := by
  rcases exists_run_of_exec step Sys.init
    [.load, .init 0, .init 0, .init 0, .init 0, .procRead, .init 0, .init (-12)]
    (fun _ s => s.result = -ENOMEM ∧ s.fault = true ∧ ¬ Published s ∧ s.pc = .absent ∧
      0 < s.regions.made ∧ s.regions.released 0 = 0)
    (by decide) with ⟨h, s, hr, hp⟩
  rcases of_decide_eq_true hp with ⟨hres, hfault, hpub, hpc, hmade, hregion⟩
  refine ⟨h, s, hr, hres, hfault, hpub, fun hreleased => ?_⟩
  have honce := (hreleased hpc).1.1 0 hmade
  rw [hregion] at honce
  exact absurd honce Nat.zero_ne_one

end Load

end Mmap

end KernelModules
