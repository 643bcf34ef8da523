import KernelModules.Lib.Run
import KernelModules.Lib.Table
import KernelModules.Mmap.Driver
import Mathlib.Data.Fintype.Basic

/-!
# Files on the Mmap Driver

Runs of open, release and mmap on any number of files of both minors. Each
file is opened once and released once, which is what the VFS promises, and in
between there may be any number of other opens, releases and mmaps.

Two things should go by the minor of a file: which handler serves its mmap,
and how long the pages of its area stay reserved. Both are kept in one place
for all files. The handler is the one the latest open stored, so it is the
right one exactly when the latest open was of the same minor
(`run_served_iff`). The reservation is a flag, set by every open and cleared
by every release, so it covers the open files exactly as long as only the last
file of a minor is released (`run_covered_iff`).

## Main definitions

* `Sys`, `Step`, `step`: Files on the driver.
* `lastMinor`: The minor of the latest successful open of a run.
* `Served`, `LatestOpen`: The handler is the file's own, and when.
* `Covered`, `LastOfMinor`: The reservation covers the open files, and when.

## Theorems

* `latest_inv`: The handler is the one of the latest open.
* `run_served_iff`: When every mmap is served by its own handler.
* `run_other_handler`: An mmap that is not.
* `step_covered_iff`: What a step does to the reservation.
* `run_covered_iff`: When the reservation covers the open files.
* `run_uncovered`: An open file without reserved pages.
-/

namespace KernelModules

namespace Mmap

open Kernel Lib

variable {π φ : Type*}

/-- The driver, and for each open file the minor behind its `private_data`. -/
structure Sys (π φ : Type*) where
  driver : Driver π
  files : φ → Option Nat

def Sys.loaded (kmallocArea vmallocPtr : Nat) (mem : Nat → UInt8) : Sys π φ :=
  { driver := Driver.loaded kmallocArea vmallocPtr mem, files := fun _ => none }

inductive Step (φ : Type*) where
  | openFile (f : φ) (minor : Nat)
  | releaseFile (f : φ)
  | mmapFile (f : φ) (vma : Vma) (fuel : Nat)

/-- A file whose open fails is not opened, and never released. A mapping
    changes nothing in the driver. -/
def step [DecidableEq π] [DecidableEq φ] (M : Machine π) : Step φ → Sys π φ → Option (Sys π φ)
  | .openFile f minor, s =>
    if (s.files f).isSome then none
    else
      let r := testMmapOpen M minor s.driver
      if r.1 = 0 then some { driver := r.2, files := Function.update s.files f (some minor) }
      else some { s with driver := r.2 }
  | .releaseFile f, s =>
    (s.files f).map fun minor =>
      { driver := (testMmapRelease M minor s.driver).2, files := Function.update s.files f none }
  | .mmapFile f _ _, s => if (s.files f).isSome then some s else none

/-- The minor of the latest open that succeeded. -/
def lastMinor : History (Sys π φ) (Step φ) → Option Nat
  | [] => none
  | (_, .openFile _ minor) :: h =>
    if Supported minor then some minor else lastMinor h
  | (_, .releaseFile _) :: h => lastMinor h
  | (_, .mmapFile _ _ _) :: h => lastMinor h

/-- An mmap on a file of this minor is served by the minor's handler, which
    maps the minor's area. -/
structure ServedAs (M : Machine π) (d : Driver π) (vma : Vma) (fuel minor : Nat) : Prop where
  minor0 : minor = MINOR_NUMBER_0 → d.mmap = .mmapKmalloc ∧
    ∀ res, d.mmapCall M fuel vma = some res → ∀ r ∈ res.2.2,
      r.pfn = M.virtToPhys d.kmallocArea >>> M.pageShift
  minor1 : minor = MINOR_NUMBER_1 → d.mmap = .mmapVmalloc ∧
    ∀ res, d.mmapCall M fuel vma = some res → ∀ r ∈ res.2.2,
      ∃ i, r.pfn = M.vmallocToPfn (d.vmallocPtr + i * M.pageSize)

/-- If the step is an mmap, it is served by the handler of its file. -/
def Served (M : Machine π) (_ : History (Sys π φ) (Step φ)) (s : Sys π φ) : Step φ → Prop
  | .mmapFile f vma fuel => ∀ minor ∈ s.files f, ServedAs M s.driver vma fuel minor
  | _ => True

/-- If the step is an mmap, the latest open was of the minor of its file. -/
def LatestOpen (h : History (Sys π φ) (Step φ)) (s : Sys π φ) : Step φ → Prop
  | .mmapFile f _ _ => lastMinor h = s.files f
  | _ => True

instance (h : History (Sys π φ) (Step φ)) (s : Sys π φ) : (l : Step φ) →
    Decidable (LatestOpen h s l)
  | .mmapFile f _ _ => inferInstanceAs (Decidable (lastMinor h = s.files f))
  | .openFile _ _ | .releaseFile _ => .isTrue trivial

/-- Both pages of the area of a minor are marked reserved. -/
def Reserved (M : Machine π) (d : Driver π) (minor : Nat) : Prop :=
  d.reserved (toPage M minor (d.area minor)) = true ∧
    d.reserved (toPage M minor (d.area minor + M.pageSize)) = true

/-- The pages of an area are reserved exactly while a file of its minor is
    open. -/
def Covered (M : Machine π) (s : Sys π φ) : Prop :=
  ∀ minor, Supported minor → (Reserved M s.driver minor ↔ ∃ f, s.files f = some minor)

/-- If the step is a release, no other file of the same minor is open. -/
def LastOfMinor (_ : History (Sys π φ) (Step φ)) (s : Sys π φ) : Step φ → Prop
  | .releaseFile f => ∀ g, g ≠ f → s.files g ≠ s.files f
  | _ => True

instance [Fintype φ] [DecidableEq φ] (h : History (Sys π φ) (Step φ)) (s : Sys π φ) :
    (l : Step φ) → Decidable (LastOfMinor h s l)
  | .releaseFile f => inferInstanceAs (Decidable (∀ g, g ≠ f → s.files g ≠ s.files f))
  | .openFile _ _ | .mmapFile _ _ _ => .isTrue trivial

/-- The two areas have no page in common. -/
structure Machine.Apart (M : Machine π) (kmallocArea vmallocPtr : Nat) : Prop where
  page : ∀ i j, i < 2 → j < 2 →
    M.virtToPage (kmallocArea + i * M.pageSize) ≠ M.vmallocToPage (vmallocPtr + j * M.pageSize)

/-- A machine with pages of 4096 bytes where every address is its own physical
    address and no mapping fails. -/
def flatMachine : Machine Nat :=
  { pageShift := 12
    virtToPhys := fun v => v
    virtToPage := fun v => v / 4096
    vmallocToPage := fun v => v / 4096
    vmallocToPfn := fun v => v / 4096
    remapPfnRange := fun _ _ => 0 }

/-- A mapping of two pages. -/
def twoPages : Vma :=
  { vmStart := 0x7f0000000000, vmEnd := 0x7f0000002000, vmFlags := 0, vmPageProt := 0 }

theorem flatMachine_apart : flatMachine.Apart 0x10000 0x40000 where
  page := fun i j hi hj => by
    simp only [flatMachine, Machine.pageSize]
    omega

section Handlers

variable [DecidableEq π] [DecidableEq φ] {M : Machine π} {s s' : Sys π φ} {l : Step φ}
  {h : History (Sys π φ) (Step φ)} {ka va : Nat} {mem : Nat → UInt8}

/-- The three steps of the system, by what they leave. -/
theorem step_openFile {f : φ} {minor : Nat} (hstep : step M (.openFile f minor) s = some s') :
    s.files f = none ∧
      ((Supported minor ∧ s'.driver = (testMmapOpen M minor s.driver).2 ∧
          s'.files = Function.update s.files f (some minor)) ∨
        (¬ Supported minor ∧ s' = s)) := by
  simp only [step] at hstep
  split at hstep
  · exact absurd hstep.symm (Option.some_ne_none s')
  · rename_i hnone
    rw [Bool.not_eq_true, Option.isSome_eq_false_iff, Option.isNone_iff_eq_none] at hnone
    refine ⟨hnone, ?_⟩
    by_cases hm : Supported minor
    · rw [if_pos (testMmapOpen_supported hm).1, Option.some.injEq] at hstep
      rw [← hstep]
      exact Or.inl ⟨hm, rfl, rfl⟩
    · -- The open returns `-1` before it touches anything of the driver.
      have hfail : ¬ (-1 : Int) = 0 := by decide
      rw [testMmapOpen_unsupported hm, if_neg hfail, Option.some.injEq] at hstep
      exact Or.inr ⟨hm, hstep.symm⟩

theorem step_releaseFile {f : φ} (hstep : step M (.releaseFile f) s = some s') :
    ∃ minor, s.files f = some minor ∧ s'.driver = (testMmapRelease M minor s.driver).2 ∧
      s'.files = Function.update s.files f none := by
  rcases Option.map_eq_some_iff.mp hstep with ⟨minor, hminor, rfl⟩
  exact ⟨minor, hminor, rfl, rfl⟩

theorem step_mmapFile {f : φ} {vma : Vma} {fuel : Nat}
    (hstep : step M (.mmapFile f vma fuel) s = some s') : (s.files f).isSome ∧ s' = s := by
  simp only [step, Option.ite_none_right_eq_some, Option.some.injEq] at hstep
  exact ⟨hstep.1, hstep.2.symm⟩

/-- A file open after a step was open before, unless the step opened it. -/
theorem step_files (hstep : step M l s = some s') {g : φ} {m : Nat} (hg : s'.files g = some m) :
    s.files g = some m ∨ (Supported m ∧ l = .openFile g m) := by
  cases l with
  | openFile f minor =>
      rcases step_openFile hstep with ⟨hnone, ⟨hm, hdriver, hfiles⟩ | ⟨hm, rfl⟩⟩
      · rw [hfiles, Table.update_some_iff] at hg
        rcases hg with ⟨rfl, rfl⟩ | ⟨_, hg⟩
        · exact Or.inr ⟨hm, rfl⟩
        · exact Or.inl hg
      · exact Or.inl hg
  | releaseFile f =>
      rcases step_releaseFile hstep with ⟨minor, hminor, hdriver, hfiles⟩
      rw [hfiles, Table.update_none_iff] at hg
      exact Or.inl hg.2
  | mmapFile f vma fuel =>
      rcases step_mmapFile hstep with ⟨-, rfl⟩
      exact Or.inl hg

/-- A step keeps the open files of supported minors. -/
theorem step_supported (hs : ∀ f minor, s.files f = some minor → Supported minor)
    (hstep : step M l s = some s') {g : φ} {m : Nat} (hg : s'.files g = some m) :
    Supported m := by
  rcases step_files hstep hg with hbefore | ⟨hm, -⟩
  · exact hs g m hbefore
  · exact hm

/-- Open files are of supported minors, and the handler is the one of the
    latest open. -/
structure Latest (h : History (Sys π φ) (Step φ)) (s : Sys π φ) : Prop where
  files : ∀ f minor, s.files f = some minor → Supported minor
  some_open : ∀ f minor, s.files f = some minor → lastMinor h ≠ none
  last : ∀ minor, lastMinor h = some minor →
    Supported minor ∧ s.driver.mmap = handlerOf minor

/-- A step keeps the handler the one of the latest open. -/
theorem step_latest (hs : Latest h s) (hstep : step M l s = some s') : Latest ((s, l) :: h) s' := by
  cases l with
  | openFile f minor =>
      rcases step_openFile hstep with ⟨hnone, ⟨hm, hdriver, hfiles⟩ | ⟨hm, rfl⟩⟩
      · have hlast : lastMinor ((s, Step.openFile f minor) :: h) = some minor := by
          rw [lastMinor, if_pos hm]
        refine ⟨fun g m hg => step_supported hs.files hstep hg, ?_, ?_⟩
        · intro g m hg
          rw [hlast]
          exact Option.some_ne_none minor
        · intro m hlm
          rw [hlast, Option.some.injEq] at hlm
          rw [← hlm, hdriver]
          exact ⟨hm, (testMmapOpen_supported hm).2.1⟩
      · have hlast : lastMinor ((s', Step.openFile f minor) :: h) = lastMinor h := by
          rw [lastMinor, if_neg hm]
        exact ⟨hs.files, by rw [hlast]; exact hs.some_open, by rw [hlast]; exact hs.last⟩
  | releaseFile f =>
      rcases step_releaseFile hstep with ⟨minor, hminor, hdriver, hfiles⟩
      refine ⟨fun g m hg => step_supported hs.files hstep hg, ?_, ?_⟩
      · intro g m hg
        rcases step_files hstep hg with hbefore | ⟨-, hl⟩
        · exact hs.some_open g m hbefore
        · simp only [reduceCtorEq] at hl
      · -- A release leaves the table alone, so the latest open still decides.
        intro m hlm
        rw [hdriver, (testMmapRelease_supported (hs.files f minor hminor)).1]
        exact hs.last m hlm
  | mmapFile f vma fuel =>
      rcases step_mmapFile hstep with ⟨-, rfl⟩
      exact ⟨hs.files, hs.some_open, hs.last⟩

theorem latest_inv (hr : Run (step M) (Sys.loaded ka va mem) h s) : Latest h s :=
  hr.historyInvariant Latest
    ⟨fun f m hf => by simp only [Sys.loaded, reduceCtorEq] at hf,
      fun f m hf => by simp only [Sys.loaded, reduceCtorEq] at hf,
      fun m hm => by simp only [lastMinor, reduceCtorEq] at hm⟩
    (fun _ _ _ _ _ hs hstep => step_latest hs hstep)

omit [DecidableEq π] in
/-- A file is served as it should be exactly when the table holds the handler
    of its minor. -/
theorem servedAs_iff {d : Driver π} {vma : Vma} {fuel minor : Nat} (hm : Supported minor) :
    ServedAs M d vma fuel minor ↔ d.mmap = handlerOf minor := by
  rcases hm with rfl | rfl
  · refine ⟨fun hserved => (hserved.minor0 rfl).1, fun hmmap => ⟨fun _ => ⟨hmmap, ?_⟩, ?_⟩⟩
    · intro res hres r hr
      rw [Driver.mmapCall, hmmap] at hres
      rw [← Option.some.inj hres] at hr
      exact mmapKmalloc_pfn hr
    · exact fun hne => absurd hne (by decide)
  · refine ⟨fun hserved => (hserved.minor1 rfl).1, fun hmmap => ⟨?_, fun _ => ⟨hmmap, ?_⟩⟩⟩
    · exact fun hne => absurd hne (by decide)
    · intro res hres r hr
      rw [Driver.mmapCall, hmmap] at hres
      exact mmapVmalloc_pfn hres hr

/-- An mmap is served by the handler of its file exactly when the latest open
    was of the same minor. -/
theorem step_served_iff (hs : Latest h s) (hstep : step M l s = some s') :
    Served M h s l ↔ LatestOpen h s l := by
  cases l with
  | openFile f minor => exact Iff.rfl
  | releaseFile f => exact Iff.rfl
  | mmapFile f vma fuel =>
      rcases Option.isSome_iff_exists.mp (step_mmapFile hstep).1 with ⟨minor, hf⟩
      have hm := hs.files f minor hf
      -- A file is open, so there was an open that succeeded.
      cases hlast : lastMinor h with
      | none => exact absurd hlast (hs.some_open f minor hf)
      | some latest =>
          rcases hs.last latest hlast with ⟨hl, hmmap⟩
          have hserved : Served M h s (.mmapFile f vma fuel) ↔
              ServedAs M s.driver vma fuel minor := by
            refine ⟨fun hsv => hsv minor hf, fun hsv m hmem => ?_⟩
            rw [hf, Option.mem_some] at hmem
            rw [← hmem]
            exact hsv
          have hopen : LatestOpen h s (.mmapFile f vma fuel) ↔ latest = minor := by
            rw [LatestOpen, hlast, hf, Option.some.injEq]
          rw [hserved, servedAs_iff hm, hmmap, hopen]
          exact ⟨handlerOf_injective hl hm, congrArg handlerOf⟩

/-- In a run every mmap is served by the handler of its file exactly when at
    every mmap the latest open was of the file's minor. -/
theorem run_served_iff (hr : Run (step M) (Sys.loaded ka va mem) h s) :
    EveryStep (Served M) h ↔ EveryStep LatestOpen h :=
  hr.everyStep_iff fun _ _ _ _ hr hstep => step_served_iff (latest_inv hr) hstep

/-- One file of each minor, each mapped right after its open. -/
theorem run_served_own : ∃ (h : History (Sys Nat Nat) (Step Nat)) (s : Sys Nat Nat),
    EveryStep (Served flatMachine) h ∧ s.files 0 = some 0 ∧ s.files 1 = some 1 := by
  rcases exists_run_of_exec (step flatMachine) (Sys.loaded 0x10000 0x40000 fun _ => 0)
    [.openFile 0 0, .mmapFile 0 twoPages 3, .openFile 1 1, .mmapFile 1 twoPages 3]
    (fun h s => EveryStep LatestOpen h ∧ s.files 0 = some 0 ∧ s.files 1 = some 1)
    (by decide) with ⟨h, s, hr, hp⟩
  rcases of_decide_eq_true hp with ⟨hlatest, h0, h1⟩
  exact ⟨h, s, (run_served_iff hr).mpr hlatest, h0, h1⟩

/-- A file of minor 0 is mapped after a file of minor 1 was opened, and the
    handler of minor 1 serves it. -/
theorem run_other_handler : ∃ (h : History (Sys Nat Nat) (Step Nat)) (s : Sys Nat Nat),
    Run (step flatMachine) (Sys.loaded 0x10000 0x40000 fun _ => 0) h s ∧
      (step flatMachine (.mmapFile 0 twoPages 3) s).isSome ∧ s.files 0 = some 0 ∧
      s.driver.mmap = .mmapVmalloc ∧ ¬ Served flatMachine h s (.mmapFile 0 twoPages 3) := by
  rcases exists_run_of_exec (step flatMachine) (Sys.loaded 0x10000 0x40000 fun _ => 0)
    [.openFile 0 0, .openFile 1 1]
    (fun _ s => (step flatMachine (.mmapFile 0 twoPages 3) s).isSome ∧ s.files 0 = some 0 ∧
      s.driver.mmap = .mmapVmalloc) (by decide) with ⟨h, s, hr, hp⟩
  rcases of_decide_eq_true hp with ⟨hopen, h0, hmmap⟩
  refine ⟨h, s, hr, hopen, h0, hmmap, fun hserved => ?_⟩
  have hown := ((hserved 0 h0).minor0 rfl).1
  rw [hmmap] at hown
  exact Handler.noConfusion hown

end Handlers

section Reservation

variable [DecidableEq π] [DecidableEq φ] {M : Machine π} {s s' : Sys π φ} {l : Step φ}
  {h : History (Sys π φ) (Step φ)} {ka va : Nat} {mem : Nat → UInt8}

/-- The areas are where they were allocated, and open files are of supported
    minors. -/
structure Placed (ka va : Nat) (s : Sys π φ) : Prop where
  kmallocArea : s.driver.area MINOR_NUMBER_0 = ka
  vmallocPtr : s.driver.area MINOR_NUMBER_1 = va
  files : ∀ f minor, s.files f = some minor → Supported minor

/-- No step moves an area. -/
theorem step_area (hstep : step M l s = some s') (minor : Nat) :
    s'.driver.area minor = s.driver.area minor := by
  cases l with
  | openFile f m =>
      rcases step_openFile hstep with ⟨-, ⟨-, hdriver, -⟩ | ⟨-, rfl⟩⟩
      · rw [hdriver, testMmapOpen_area]
      · rfl
  | releaseFile f =>
      rcases step_releaseFile hstep with ⟨m, -, hdriver, -⟩
      rw [hdriver, testMmapRelease_area]
  | mmapFile f vma fuel =>
      rcases step_mmapFile hstep with ⟨-, rfl⟩
      rfl

theorem step_placed (hs : Placed ka va s) (hstep : step M l s = some s') : Placed ka va s' where
  kmallocArea := by rw [step_area hstep, hs.kmallocArea]
  vmallocPtr := by rw [step_area hstep, hs.vmallocPtr]
  files := fun _ _ hg => step_supported hs.files hstep hg

omit [DecidableEq π] [DecidableEq φ] in
/-- Pages of different minors are different. -/
theorem toPage_ne (hM : M.Apart ka va) (hs : Placed ka va s) {m m' : Nat} (hm : Supported m)
    (hm' : Supported m') (hne : m ≠ m') {i j : Nat} (hi : i < 2) (hj : j < 2) :
    toPage M m (s.driver.area m + i * M.pageSize) ≠
      toPage M m' (s.driver.area m' + j * M.pageSize) := by
  rcases hm with rfl | rfl <;> rcases hm' with rfl | rfl
  · exact absurd rfl hne
  · rw [hs.kmallocArea, hs.vmallocPtr]
    exact hM.page i j hi hj
  · rw [hs.kmallocArea, hs.vmallocPtr]
    exact (hM.page j i hj hi).symm
  · exact absurd rfl hne

omit [DecidableEq φ] in
/-- Marking the pages of one minor leaves those of the other alone. -/
theorem reserved_other (hM : M.Apart ka va) (hs : Placed ka va s) {d : Driver π} {m m' : Nat}
    {flag : Bool} (hm : Supported m) (hm' : Supported m') (hne : m' ≠ m)
    (hd : d.reserved = (markPages M m (s.driver.area m) flag s.driver.reserved).2)
    (harea : d.area m' = s.driver.area m') : Reserved M d m' ↔ Reserved M s.driver m' := by
  have hkeep : ∀ i, i < 2 → d.reserved (toPage M m' (s.driver.area m' + i * M.pageSize)) =
      s.driver.reserved (toPage M m' (s.driver.area m' + i * M.pageSize)) := by
    intro i hi
    have h0 := toPage_ne hM hs hm' hm hne hi (Nat.zero_lt_two)
    have h1 := toPage_ne hM hs hm' hm hne hi (Nat.one_lt_two)
    rw [Nat.zero_mul, Nat.add_zero] at h0
    rw [Nat.one_mul] at h1
    rw [hd, markPages_of_ne M m _ flag _ h0 h1]
  have hfirst := hkeep 0 Nat.zero_lt_two
  have hsecond := hkeep 1 Nat.one_lt_two
  rw [Nat.zero_mul, Nat.add_zero] at hfirst
  rw [Nat.one_mul] at hsecond
  rw [Reserved, Reserved, harea, hfirst, hsecond]

/-- After an open the reservation covers the open files, if it did before. -/
theorem open_covered (hM : M.Apart ka va) (hs : Placed ka va s) (hbefore : Covered M s) {f : φ}
    {minor : Nat} (hstep : step M (.openFile f minor) s = some s') : Covered M s' := by
  rcases step_openFile hstep with ⟨hnone, ⟨hm, hdriver, hfiles⟩ | ⟨hm, rfl⟩⟩
  · have hres := (testMmapOpen_supported (M := M) (d := s.driver) hm).2.2
    have harea : ∀ m, s'.driver.area m = s.driver.area m := step_area hstep
    rw [← hdriver] at hres
    intro m hm'
    by_cases hmm : m = minor
    · -- The pages have just been reserved, for the file just opened.
      rw [hmm]
      refine iff_of_true ?_ ⟨f, by rw [hfiles, Function.update_self]⟩
      rw [Reserved, harea, hres]
      exact markPages_self M minor _ true _
    · -- For the other minor neither the pages nor the files have changed.
      rw [reserved_other hM hs hm hm' hmm hres (harea m), hbefore m hm', hfiles,
        Table.exists_update_some_iff hnone, or_iff_right hmm]
  · exact hbefore

/-- After a release the reservation covers the open files, provided it did
    before, exactly when no other file of the same minor is open. -/
theorem release_covered_iff (hM : M.Apart ka va) (hs : Placed ka va s) (hbefore : Covered M s)
    {f : φ} (hstep : step M (.releaseFile f) s = some s') :
    Covered M s' ↔ ∀ g, g ≠ f → s.files g ≠ s.files f := by
  rcases step_releaseFile hstep with ⟨minor, hminor, hdriver, hfiles⟩
  have hm := hs.files f minor hminor
  have hres := (testMmapRelease_supported (M := M) (d := s.driver) hm).2
  have harea : ∀ m, s'.driver.area m = s.driver.area m := step_area hstep
  rw [← hdriver] at hres
  -- The pages of this minor are free now.
  have hfree : ¬ Reserved M s'.driver minor := by
    rw [Reserved, harea, hres, (markPages_self M minor _ false _).1]
    exact fun hreserved => Bool.noConfusion hreserved.1
  have hother : ∀ m g, m ≠ minor → (s'.files g = some m ↔ s.files g = some m) := by
    intro m g hne
    rw [hfiles, Table.update_none_iff]
    refine and_iff_right_of_imp fun hg hgf => ?_
    rw [hgf, hminor, Option.some.injEq] at hg
    exact hne hg.symm
  constructor
  · -- Another file of the minor would be open without its pages reserved.
    intro hafter g hgf hsame
    refine hfree ((hafter minor hm).mpr ⟨g, ?_⟩)
    rw [hfiles, Function.update_of_ne hgf, hsame, hminor]
  · intro hlast m hm'
    by_cases hmm : m = minor
    · rw [hmm]
      refine iff_of_false hfree fun ⟨g, hg⟩ => ?_
      rw [hfiles, Table.update_none_iff] at hg
      exact hlast g hg.1 (by rw [hg.2, hminor])
    · rw [reserved_other hM hs hm hm' hmm hres (harea m), hbefore m hm']
      exact exists_congr fun g => (hother m g hmm).symm

/-- A step keeps the reservation covering the open files exactly when it is
    not the release of one file among several of its minor. -/
theorem step_covered_iff (hM : M.Apart ka va) (hs : Placed ka va s) (hbefore : Covered M s)
    (hstep : step M l s = some s') : Covered M s' ↔ LastOfMinor h s l := by
  cases l with
  | openFile f minor => exact iff_of_true (open_covered hM hs hbefore hstep) trivial
  | releaseFile f => exact release_covered_iff hM hs hbefore hstep
  | mmapFile f vma fuel =>
      rcases step_mmapFile hstep with ⟨-, rfl⟩
      exact iff_of_true hbefore trivial

omit [DecidableEq π] [DecidableEq φ] in
theorem loaded_covered : Covered M (Sys.loaded ka va mem : Sys π φ) := by
  intro m _
  refine iff_of_false (fun hreserved => ?_) fun ⟨f, hf⟩ => ?_
  · exact Bool.noConfusion hreserved.1
  · simp only [Sys.loaded, reduceCtorEq] at hf

/-- In a run the pages of both areas are reserved exactly while a file of
    their minor is open, in every state, exactly when every release is the one
    of the last open file of its minor. -/
theorem run_covered_iff (hM : M.Apart ka va) (hr : Run (step M) (Sys.loaded ka va mem) h s) :
    EveryState (Covered M) h s ↔ EveryStep LastOfMinor h := by
  have hplaced : ∀ h s, Run (step M) (Sys.loaded ka va mem : Sys π φ) h s → Placed ka va s :=
    fun _ _ hr => hr.invariant (Placed ka va)
      ⟨rfl, rfl, fun f m hf => by simp only [Sys.loaded, reduceCtorEq] at hf⟩
      (fun _ _ _ hs hstep => step_placed hs hstep)
  exact hr.everyState_iff_everyStep loaded_covered
    (fun _ _ _ _ hr hbefore hstep => step_covered_iff hM (hplaced _ _ hr) hbefore hstep)

/-- Files of both minors, each released as the last of its minor. -/
theorem run_covered_last : ∃ (h : History (Sys Nat (Fin 3)) (Step (Fin 3))) (s : Sys Nat (Fin 3)),
    EveryState (Covered flatMachine) h s ∧ s.files 1 = some 1 ∧ s.files 2 = some 0 := by
  rcases exists_run_of_exec (step flatMachine) (Sys.loaded 0x10000 0x40000 fun _ => 0)
    [.openFile 0 0, .openFile 1 1, .releaseFile 0, .openFile (2 : Fin 3) 0]
    (fun h s => EveryStep LastOfMinor h ∧ s.files 1 = some 1 ∧ s.files 2 = some 0)
    (by decide) with ⟨h, s, hr, hp⟩
  rcases of_decide_eq_true hp with ⟨hlast, h1, h2⟩
  exact ⟨h, s, (run_covered_iff flatMachine_apart hr).mpr hlast, h1, h2⟩

/-- Two files of minor 0, one released: the pages are free and the other file
    is open. -/
theorem run_uncovered : ∃ (h : History (Sys Nat Nat) (Step Nat)) (s : Sys Nat Nat),
    Run (step flatMachine) (Sys.loaded 0x10000 0x40000 fun _ => 0) h s ∧
      s.files 1 = some 0 ∧ ¬ Reserved flatMachine s.driver 0 ∧ ¬ Covered flatMachine s := by
  rcases exists_run_of_exec (step flatMachine) (Sys.loaded 0x10000 0x40000 fun _ => 0)
    [.openFile 0 0, .openFile 1 0, .releaseFile 0]
    (fun _ s => s.files 1 = some 0 ∧
      s.driver.reserved (toPage flatMachine 0 (s.driver.area 0)) = false) (by decide) with
    ⟨h, s, hr, hp⟩
  rcases of_decide_eq_true hp with ⟨h1, hfree⟩
  have hnot : ¬ Reserved flatMachine s.driver 0 := fun hres => by
    rw [hres.1] at hfree
    exact Bool.noConfusion hfree
  exact ⟨h, s, hr, h1, hnot, fun hcov => hnot ((hcov 0 (Or.inl rfl)).mpr ⟨1, h1⟩)⟩

end Reservation

end Mmap

end KernelModules
