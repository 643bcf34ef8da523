import KernelModules.Lib.Heap
import KernelModules.Mmap.Files

/-!
# The Private Data of a File

`test_mmap_open` stores the minor of its file in a block of its own, and
leaves its address in `private_data`. `test_mmap_release` reads it there and
frees it. Here the blocks lie in a heap that hands out any address where
nothing is allocated, those of files already released included, and that may
be out of memory, which the open does not check.

In every run a file finds in its block what its own open has stored, whatever
was allocated and freed in between, so that a run is one of the files of
`Mmap.Files`, where there is no heap at all (`run_private`). A block is freed
only by the release of its file, once, and nothing is read or freed that was
freed before. The only null pointer ever followed is the one of an allocation
that failed. What is lost are the blocks of the opens that refuse their minor:
such an open returns without a `kfree`, and no release follows it.

## Main definitions

* `Sys`, `Step`, `step`: Files whose private data lies in a heap.
* `Sys.files`: The minor behind the `private_data` of each file.
* `event`: What a step is without the heap.
* `lost`, `leaked`: The blocks of the opens that refuse their minor.
* `NoMemory`: A step whose allocation fails.

## Theorems

* `step_openFile`, `step_releaseFile`, `step_mmapFile`: The steps, in order.
* `step_inv`: A step keeps the files in order with the heap.
* `step_event`: A step is one of the files without a heap.
* `run_private`: Both for every run.
* `run_private_reused`: A block that lies where another one was freed.
-/

namespace KernelModules

namespace Mmap

namespace Private

open Kernel Lib

variable {π φ α : Type*}

/-- The driver, the blocks of `sizeof(int)` by their addresses, and the
    `private_data` of the files that are open. -/
structure Sys (π φ α : Type*) where
  driver : Driver π
  heap : α → Option Nat
  privateData : φ → Option α
  /-- A null pointer or one of a freed block has been followed. -/
  fault : Bool

def Sys.loaded (kmallocArea vmallocPtr : Nat) (mem : Nat → UInt8) : Sys π φ α :=
  { driver := Driver.loaded kmallocArea vmallocPtr mem
    heap := fun _ => none
    privateData := fun _ => none
    fault := false }

inductive Step (φ α : Type*) where
  | openFile (f : φ) (minor : Nat) (priv : Option α)
  | releaseFile (f : φ)
  | mmapFile (f : φ) (vma : Vma) (fuel : Nat)

/-- The label of an open says what its `kmalloc` returns: NULL or an address
    where no block is allocated. After a fault nothing happens any more. -/
def step [DecidableEq π] [DecidableEq φ] [DecidableEq α] (M : Machine π) :
    Step φ α → Sys π φ α → Option (Sys π φ α)
  | .openFile f minor priv, s =>
    if s.fault ∨ (s.privateData f).isSome then none
    else match priv with
      -- `*priv = iminor(inode);` without a test of `priv`
      | none => some { s with fault := true }
      | some a =>
        if (s.heap a).isSome then none
        else
          let heap := Function.update s.heap a (some minor)
          let r := testMmapOpen M minor s.driver
          -- The `return -1;` of an unsupported minor frees nothing.
          if r.1 = 0 then some { s with
            driver := r.2, heap := heap
            privateData := Function.update s.privateData f (some a) }
          else some { s with driver := r.2, heap := heap }
  | .releaseFile f, s =>
    if s.fault then none
    else (s.privateData f).map fun a =>
      match s.heap a with
      | none => { s with fault := true }
      | some minor =>
        let r := testMmapRelease M minor s.driver
        { s with
          driver := r.2
          heap := if r.1 = 0 then Function.update s.heap a none else s.heap
          privateData := Function.update s.privateData f none }
  | .mmapFile f _ _, s =>
    if s.fault then none
    else (s.privateData f).map fun a =>
      -- Both handlers print what lies behind `private_data`.
      match s.heap a with
      | none => { s with fault := true }
      | some _ => s

/-- The minor that each open file finds behind its `private_data`. -/
def Sys.files (s : Sys π φ α) : Mmap.Sys π φ :=
  { driver := s.driver, files := Heap.behind s.heap s.privateData }

/-- The step without the heap, if it is not an open that runs out of
    memory. -/
def event : Sys π φ α × Step φ α → Option (Mmap.Step φ)
  | (_, .openFile f minor (some _)) => some (.openFile f minor)
  | (_, .openFile _ _ none) => none
  | (_, .releaseFile f) => some (.releaseFile f)
  | (_, .mmapFile f vma fuel) => some (.mmapFile f vma fuel)

/-- The block of an open that refuses its minor. -/
def lost : Sys π φ α × Step φ α → Option α
  | (_, .openFile _ minor (some a)) => if Supported minor then none else some a
  | _ => none

/-- The blocks of all the opens that refused their minors. -/
def leaked (h : History (Sys π φ α) (Step φ α)) : List α := h.filterMap lost

/-- The step is an open whose allocation fails. -/
def NoMemory : Step φ α → Prop
  | .openFile _ _ none => True
  | _ => False

/-- The files are in order with the heap, they are of supported minors, and
    only a failed allocation has led to a fault. -/
structure Inv (h : History (Sys π φ α) (Step φ α)) (s : Sys π φ α) : Prop where
  owns : Heap.Owns s.heap s.privateData (leaked h)
  supported : ∀ f minor, s.files.files f = some minor → Supported minor
  fault : s.fault = true ↔ ∃ p ∈ h, NoMemory p.2

section Steps

variable [DecidableEq π] [DecidableEq φ] [DecidableEq α] {M : Machine π} {s s' : Sys π φ α}
  {h : History (Sys π φ α) (Step φ α)}

omit [DecidableEq φ] [DecidableEq α] in
theorem testMmapRelease_zero {d : Driver π} {minor : Nat} (hm : Supported minor) :
    (testMmapRelease M minor d).1 = 0 := by
  rw [testMmapRelease, select_supported hm]

omit [DecidableEq φ] [DecidableEq α] in
theorem testMmapOpen_refused {d : Driver π} {minor : Nat} (hm : ¬ Supported minor) :
    ¬ (testMmapOpen M minor d).1 = 0 := by
  rw [testMmapOpen_unsupported hm]
  exact (by decide : ¬ (-1 : Int) = 0)

/-- An open either faults, at an allocation that failed, or has a new block.
    It keeps the block if its minor is supported. -/
theorem step_openFile {f : φ} {minor : Nat} {priv : Option α}
    (hstep : step M (.openFile f minor priv) s = some s') :
    s.fault = false ∧ s.privateData f = none ∧
      ((priv = none ∧ s' = { s with fault := true }) ∨
        ∃ a, priv = some a ∧ s.heap a = none ∧ s'.fault = false ∧
          s'.heap = Function.update s.heap a (some minor) ∧
          s'.driver = (testMmapOpen M minor s.driver).2 ∧
          ((Supported minor ∧ s'.privateData = Function.update s.privateData f (some a)) ∨
            (¬ Supported minor ∧ s'.privateData = s.privateData))) := by
  simp only [step] at hstep
  by_cases hgo : s.fault ∨ (s.privateData f).isSome
  · rw [if_pos hgo] at hstep
    exact absurd hstep.symm (Option.some_ne_none s')
  rw [if_neg hgo] at hstep
  rw [not_or, Bool.not_eq_true, Bool.not_eq_true, Option.isSome_eq_false_iff,
    Option.isNone_iff_eq_none] at hgo
  refine ⟨hgo.1, hgo.2, ?_⟩
  cases priv with
  | none => exact Or.inl ⟨rfl, (Option.some.inj hstep).symm⟩
  | some a =>
      by_cases ha : (s.heap a).isSome
      · simp only [if_pos ha, reduceCtorEq] at hstep
      · simp only [if_neg ha] at hstep
        rw [Bool.not_eq_true, Option.isSome_eq_false_iff, Option.isNone_iff_eq_none] at ha
        refine Or.inr ⟨a, rfl, ha, ?_⟩
        by_cases hm : Supported minor
        · rw [if_pos (testMmapOpen_supported hm).1, Option.some.injEq] at hstep
          rw [← hstep]
          exact ⟨hgo.1, rfl, rfl, Or.inl ⟨hm, rfl⟩⟩
        · rw [if_neg (testMmapOpen_refused hm), Option.some.injEq] at hstep
          rw [← hstep]
          exact ⟨hgo.1, rfl, rfl, Or.inr ⟨hm, rfl⟩⟩

/-- A release finds the block of its file and frees it. -/
theorem step_releaseFile (hs : Inv h s) {f : φ}
    (hstep : step M (.releaseFile f) s = some s') :
    s.fault = false ∧ s'.fault = false ∧ ∃ a minor, s.privateData f = some a ∧
      s.heap a = some minor ∧ s'.driver = (testMmapRelease M minor s.driver).2 ∧
      s'.heap = Function.update s.heap a none ∧
      s'.privateData = Function.update s.privateData f none := by
  simp only [step, Option.ite_none_left_eq_some, Bool.not_eq_true] at hstep
  rcases hstep with ⟨hfault, hstep⟩
  rcases Option.map_eq_some_iff.mp hstep with ⟨a, hf, rfl⟩
  rcases hs.owns.deref hf with ⟨minor, ha⟩
  have hbehind : s.files.files f = some minor := by
    simp only [Sys.files, Heap.behind, hf, Option.bind_some, ha]
  have hzero := testMmapRelease_zero (M := M) (d := s.driver) (hs.supported f minor hbehind)
  simp only [ha, if_pos hzero]
  exact ⟨hfault, hfault, a, minor, hf, ha, rfl, rfl, trivial⟩

/-- A mapping finds the block of its file. -/
theorem step_mmapFile (hs : Inv h s) {f : φ} {vma : Vma} {fuel : Nat}
    (hstep : step M (.mmapFile f vma fuel) s = some s') :
    s' = s ∧ s.fault = false ∧ (s.files.files f).isSome := by
  simp only [step, Option.ite_none_left_eq_some, Bool.not_eq_true] at hstep
  rcases hstep with ⟨hfault, hstep⟩
  rcases Option.map_eq_some_iff.mp hstep with ⟨a, hf, rfl⟩
  rcases hs.owns.deref hf with ⟨minor, ha⟩
  simp only [ha, Sys.files, Heap.behind, hf, Option.bind_some, Option.isSome_some, hfault,
    and_self]

omit [DecidableEq π] [DecidableEq φ] [DecidableEq α] in
theorem leaked_cons (l : Step φ α) : leaked ((s, l) :: h) = (lost (s, l)).toList ++ leaked h := by
  rw [leaked, List.filterMap_cons]
  cases lost (s, l) with
  | none => rfl
  | some a => rfl

omit [DecidableEq π] [DecidableEq φ] [DecidableEq α] in
/-- A step between two states without a fault has not run out of memory. -/
theorem Inv.fault_cons (hs : Inv h s) {l : Step φ α} (hfault : s.fault = false)
    (hfault' : s'.fault = false) (hl : ¬ NoMemory l) :
    s'.fault = true ↔ ∃ p ∈ (s, l) :: h, NoMemory p.2 := by
  rw [List.exists_mem_cons_iff, ← hs.fault, hfault, hfault']
  exact iff_of_false Bool.false_ne_true fun hor => hor.elim hl Bool.false_ne_true

/-- An open keeps the files in order: its block is behind its pointer if the
    minor is supported and among the lost ones if it is not. -/
theorem openFile_inv (hs : Inv h s) {f : φ} {minor : Nat} {priv : Option α}
    (hstep : step M (.openFile f minor priv) s = some s') :
    Inv ((s, .openFile f minor priv) :: h) s' := by
  have hsteps := step_openFile hstep
  rcases hsteps with ⟨hfault, hf, ⟨rfl, rfl⟩ | ⟨a, rfl, ha, hfault', hheap, -, hkept⟩⟩
  · exact ⟨hs.owns, hs.supported, iff_of_true rfl ⟨_, List.mem_cons_self, trivial⟩⟩
  have hiff := hs.fault_cons (l := .openFile f minor (some a)) hfault hfault' not_false
  rcases hkept with ⟨hm, hptr⟩ | ⟨hm, hptr⟩
  · have hlost : lost (s, Step.openFile f minor (some a)) = none := by
      rw [lost, if_pos hm]
    refine ⟨?_, ?_, hiff⟩
    · rw [leaked_cons, hlost, hheap, hptr]
      exact hs.owns.keep ha hf
    · intro g m hg
      simp only [Sys.files, hheap, hptr, Heap.behind_keep hs.owns ha] at hg
      rw [Table.update_some_iff] at hg
      rcases hg with ⟨-, rfl⟩ | ⟨-, hg⟩
      · exact hm
      · exact hs.supported g m hg
  · have hlost : lost (s, Step.openFile f minor (some a)) = some a := by
      rw [lost, if_neg hm]
    refine ⟨?_, ?_, hiff⟩
    · rw [leaked_cons, hlost, hheap, hptr]
      exact hs.owns.lose ha
    · intro g m hg
      simp only [Sys.files, hheap, hptr, Heap.behind_lose hs.owns ha] at hg
      exact hs.supported g m hg

theorem releaseFile_inv (hs : Inv h s) {f : φ} (hstep : step M (.releaseFile f) s = some s') :
    Inv ((s, .releaseFile f) :: h) s' := by
  rcases step_releaseFile hs hstep with ⟨hfault, hfault', a, minor, hf, ha, -, hheap, hptr⟩
  refine ⟨?_, ?_, hs.fault_cons hfault hfault' not_false⟩
  · rw [hheap, hptr]
    exact hs.owns.free hf
  · intro g m hg
    simp only [Sys.files, hheap, hptr, Heap.behind_free hs.owns hf] at hg
    exact hs.supported g m (Table.update_none_iff.mp hg).2

/-- A step keeps the files in order with the heap. -/
theorem step_inv (hs : Inv h s) {l : Step φ α} (hstep : step M l s = some s') :
    Inv ((s, l) :: h) s' := by
  cases l with
  | openFile f minor priv => exact openFile_inv hs hstep
  | releaseFile f => exact releaseFile_inv hs hstep
  | mmapFile f vma fuel =>
      rcases step_mmapFile hs hstep with ⟨rfl, hfault, -⟩
      exact ⟨hs.owns, hs.supported, hs.fault_cons hfault hfault not_false⟩

/-- A step is the same one of the files without a heap, or an open that runs
    out of memory, which has not opened anything. -/
theorem step_event (hs : Inv h s) {l : Step φ α} (hstep : step M l s = some s') :
    (event (s, l) = none ∧ s'.files = s.files) ∨
      ∃ l', event (s, l) = some l' ∧ Mmap.step M l' s.files = some s'.files := by
  cases l with
  | openFile f minor priv =>
      rcases step_openFile hstep with ⟨-, hf, ⟨rfl, rfl⟩ | ⟨a, rfl, ha, -, hheap, hdriver, hkept⟩⟩
      · exact Or.inl ⟨rfl, rfl⟩
      refine Or.inr ⟨_, rfl, ?_⟩
      have hnone : ¬ (s.files.files f).isSome := by
        simp only [Sys.files, Heap.behind, hf, Option.bind_none, Option.isSome_none,
          Bool.false_eq_true, not_false_eq_true]
      rw [Mmap.step, if_neg hnone]
      rcases hkept with ⟨hm, hptr⟩ | ⟨hm, hptr⟩
      · rw [if_pos (testMmapOpen_supported hm).1]
        simp only [Sys.files, hdriver, hheap, hptr, Heap.behind_keep hs.owns ha]
      · rw [if_neg (testMmapOpen_refused hm)]
        simp only [Sys.files, hdriver, hheap, hptr, Heap.behind_lose hs.owns ha]
  | releaseFile f =>
      rcases step_releaseFile hs hstep with ⟨-, -, a, minor, hf, ha, hdriver, hheap, hptr⟩
      refine Or.inr ⟨_, rfl, ?_⟩
      have hminor : s.files.files f = some minor := by
        simp only [Sys.files, Heap.behind, hf, Option.bind_some, ha]
      rw [Mmap.step, hminor, Option.map_some]
      simp only [Sys.files, hdriver, hheap, hptr, Heap.behind_free hs.owns hf]
  | mmapFile f vma fuel =>
      rcases step_mmapFile hs hstep with ⟨rfl, -, hopen⟩
      exact Or.inr ⟨_, rfl, by rw [Mmap.step, if_pos hopen]⟩

omit [DecidableEq π] [DecidableEq φ] [DecidableEq α] in
theorem inv_loaded (ka va : Nat) (mem : Nat → UInt8) :
    Inv [] (Sys.loaded ka va mem : Sys π φ α) where
  owns := Heap.owns_empty
  supported := fun f minor hf => by
    simp only [Sys.files, Sys.loaded, Heap.behind, Option.bind_none, reduceCtorEq] at hf
  fault := by
    simp only [Sys.loaded, Bool.false_eq_true, List.not_mem_nil, false_and, exists_false]

/-- In every run each file finds behind its `private_data` the minor its own
    open has stored, as if there were no heap. The blocks that are allocated
    are those of the open files, one each, and those of the opens that refused
    their minors, and only an open that ran out of memory has followed a wrong
    pointer. -/
theorem run_private {ka va : Nat} {mem : Nat → UInt8}
    (hr : Run (step M) (Sys.loaded ka va mem) h s) :
    (∃ h', Run (Mmap.step M) (Mmap.Sys.loaded ka va mem) h' s.files ∧
        h'.map Prod.snd = h.filterMap event) ∧
      Heap.Owns s.heap s.privateData (leaked h) ∧
      (s.fault = true ↔ ∃ p ∈ h, NoMemory p.2) := by
  have hinv : ∀ h s, Run (step M) (Sys.loaded ka va mem : Sys π φ α) h s → Inv h s := by
    intro h s hr
    exact hr.historyInvariant Inv (inv_loaded ka va mem)
      fun _ _ _ _ _ hs hstep => step_inv hs hstep
  refine ⟨?_, (hinv h s hr).owns, (hinv h s hr).fault⟩
  exact hr.simulate Sys.files event fun h s l s' hr hstep => step_event (hinv h s hr) hstep

end Steps

/-- A file of minor 0 is released while a refused open has left a block
    behind, and a file of minor 1 gets the block that was freed. -/
theorem run_private_reused :
    ∃ (h : History (Sys Nat Nat Nat) (Step Nat Nat)) (s : Sys Nat Nat Nat),
      s.privateData 1 = some 0 ∧ s.files.files 1 = some 1 ∧ leaked h = [1] ∧
        (∃ h', Run (Mmap.step flatMachine) (Mmap.Sys.loaded 0x10000 0x40000 fun _ => 0) h'
          s.files ∧ h'.map Prod.snd = h.filterMap event) ∧
        (s.heap 1).isSome ∧ s.fault = false := by
  rcases exists_run_of_exec (step flatMachine) (Sys.loaded 0x10000 0x40000 fun _ => 0)
    [.openFile 0 0 (some 0), .openFile 1 2 (some 1), .mmapFile 0 twoPages 3, .releaseFile 0,
      .openFile 1 1 (some 0)]
    (fun h s => s.privateData 1 = some 0 ∧ s.files.files 1 = some 1 ∧ leaked h = [1] ∧
      s.fault = false) (by decide) with ⟨h, s, hr, hp⟩
  rcases of_decide_eq_true hp with ⟨h0, h1, hleaked, hfault⟩
  rcases run_private hr with ⟨hfiles, howns, -⟩
  have hlost : 1 ∈ leaked h := by
    rw [hleaked]
    exact List.mem_cons_self
  exact ⟨h, s, h0, h1, hleaked, hfiles, (howns.live_iff 1).mpr (Or.inr hlost), hfault⟩

end Private

end Mmap

end KernelModules
