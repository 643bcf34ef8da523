import Mathlib.Logic.Function.Basic
import KernelModules.Kernel.User

/-!
# The Driver of mmap_kmalloc.c

The static data of the mmap driver and its file operations: open and release,
which mark the pages of one of two memory areas as reserved and as free again,
and the two mmap handlers, which map the one area or the other.

The driver reaches the rest of the kernel through a `Machine`: the page size,
the page structures and frames behind an address, and `remap_pfn_range`, whose
calls are recorded with the results it gave. Addresses of kernel memory are
natural numbers, since the areas lie inside the address space and the loops
stop at their ends. The user's addresses and the lengths computed from them
are words, because a handler narrows one of them to 32 bits.

The minor number is stored per file, behind `private_data`. The mmap handler
is not: open stores it in `test_mmap_ops`, the one table of the driver.

A loop whose rounds the source does not count runs on fuel. The page loop gets
one unit for every byte of the area, and needs one for every page.

## Main definitions

* `Machine`: What the driver uses of the rest of the kernel.
* `Driver`: The static data, and what open and release change elsewhere.
* `pageLoop`: The loop over the pages of an area.
* `fillGroup`, `fillLoop`: The nested loops that fill an area.
* `testMmapOpen`, `testMmapRelease`: Open and release.
* `mmapKmalloc`, `mmapVmalloc`, `Driver.mmapCall`: The handlers and the call
  through the table.

## Theorems

* `pageLoop_two`: The page loop visits the two pages of the area.
* `markPages_self`, `markPages_of_ne`: Which pages open and release mark.
* `testMmapOpen_supported`, `testMmapRelease_supported`: What they do.
* `mmapKmalloc_pfn`, `mmapVmalloc_pfn`: Which frames a handler maps.
-/

namespace KernelModules

namespace Mmap

open Kernel

/-- A mapping as the handlers see it. -/
structure Vma where
  vmStart : BitVec 64
  vmEnd : BitVec 64
  vmFlags : BitVec 64
  vmPageProt : BitVec 64

/-- A call of `remap_pfn_range`: where, from which frame on, how many bytes. -/
structure Remap where
  start : BitVec 64
  pfn : Nat
  size : BitVec 64

/-- What the driver uses of the rest of the kernel. Pages are of any type. -/
structure Machine (π : Type*) where
  pageShift : Nat
  virtToPhys : Nat → Nat
  virtToPage : Nat → π
  vmallocToPage : Nat → π
  vmallocToPfn : Nat → Nat
  remapPfnRange : Vma → Remap → Int

variable {π : Type*}

def Machine.pageSize (M : Machine π) : Nat := 1 <<< M.pageShift

theorem Machine.pageSize_pos (M : Machine π) : 0 < M.pageSize := by
  rw [Machine.pageSize, Nat.one_shiftLeft]
  exact Nat.two_pow_pos _

/-- `LEN`. -/
def LEN : Nat := 16 * 1024

def VM_DONTEXPAND : BitVec 64 := 0x00040000
def VM_DONTDUMP : BitVec 64 := 0x04000000

def MINOR_NUMBER_0 : Nat := 0
def MINOR_NUMBER_1 : Nat := 1

/-- The two handlers that `test_mmap_ops.mmap` may point to. -/
inductive Handler where
  | mmapKmalloc
  | mmapVmalloc
  deriving DecidableEq

/-- The static data of the driver, with the page flags and the memory it
    works on. -/
structure Driver (π : Type*) where
  kmallocArea : Nat
  vmallocPtr : Nat
  virtAddr : Nat
  mmap : Handler
  reserved : π → Bool
  mem : Nat → UInt8

/-- The driver as loaded, with its two areas allocated. -/
def Driver.loaded (kmallocArea vmallocPtr : Nat) (mem : Nat → UInt8) : Driver π :=
  { kmallocArea := kmallocArea, vmallocPtr := vmallocPtr, virtAddr := 0, mmap := .mmapVmalloc,
    reserved := fun _ => false, mem := mem }

/-- `for (virt_addr = v; virt_addr < stop; virt_addr += PAGE_SIZE)` around the
    body, with the address it ends with. -/
def pageLoop {σ : Type*} (pageSize stop : Nat) (body : Nat → σ → σ) :
    (fuel v : Nat) → σ → Nat × σ
  | 0, v, r => (v, r)
  | fuel + 1, v, r =>
    if v < stop then pageLoop pageSize stop body fuel (v + pageSize) (body v r) else (v, r)

/-- The inner loop of the fill, with `rem` of its ten rounds left: digits up
    to `'9'`, as far as the area goes. -/
def fillGroup (area stop : Nat) : (rem i : Nat) → (Nat → UInt8) → Nat × (Nat → UInt8)
  | 0, i, mem => (i, mem)
  | rem + 1, i, mem =>
    if i < stop then
      fillGroup area stop rem (i + 1)
        (Function.update mem (area + i) (48 + (10 - (rem + 1)).toUInt8))
    else (i, mem)

/-- The outer loop of the fill. -/
def fillLoop (area stop : Nat) : (fuel i : Nat) → (Nat → UInt8) → (Nat → UInt8)
  | 0, _, mem => mem
  | fuel + 1, i, mem =>
    if i < stop then
      let r := fillGroup area stop 10 i mem
      fillLoop area stop fuel r.1 r.2
    else mem

/-- `memset(area, 'Z', n)`. -/
def memsetZ (area n : Nat) (mem : Nat → UInt8) : Nat → UInt8 :=
  fun a => if area ≤ a ∧ a < area + n then 90 else mem a

/-- The page structure behind an address of the area of a minor. -/
def toPage (M : Machine π) (minor v : Nat) : π :=
  if minor = MINOR_NUMBER_0 then M.virtToPage v else M.vmallocToPage v

/-- The area and the handler of a minor, or `none` where it is not
    supported. -/
def Driver.select (d : Driver π) (minor : Nat) : Option (Nat × Handler) :=
  if minor = MINOR_NUMBER_0 then some (d.kmallocArea, .mmapKmalloc)
  else if minor = MINOR_NUMBER_1 then some (d.vmallocPtr, .mmapVmalloc)
  else none

/-- The loop that marks the pages of an area. -/
def markPages [DecidableEq π] (M : Machine π) (minor area : Nat) (flag : Bool)
    (reserved : π → Bool) : Nat × (π → Bool) :=
  pageLoop M.pageSize (area + 2 * M.pageSize)
    (fun v r => Function.update r (toPage M minor v) flag) (2 * M.pageSize) area reserved

/-- `test_mmap_open` for an inode with this minor: what it returns and the
    driver afterwards. What it stores behind `private_data` is the minor. -/
def testMmapOpen [DecidableEq π] (M : Machine π) (minor : Nat) (d : Driver π) : Int × Driver π :=
  match d.select minor with
  | none => (-1, d)
  | some (area, handler) =>
    let marked := markPages M minor area true d.reserved
    let cleared := memsetZ area (2 * M.pageSize) d.mem
    (0, { d with
      -- `test_mmap_ops.mmap = mmap_kmalloc;` or `mmap_vmalloc`
      mmap := handler
      virtAddr := marked.1
      reserved := marked.2
      mem := fillLoop area (2 * M.pageSize) (2 * M.pageSize) 0 cleared })

/-- `test_mmap_release` for a file with this minor behind `private_data`. -/
def testMmapRelease [DecidableEq π] (M : Machine π) (minor : Nat) (d : Driver π) :
    Int × Driver π :=
  match d.select minor with
  | none => (-1, d)
  | some (area, _) =>
    let marked := markPages M minor area false d.reserved
    (0, { d with virtAddr := marked.1, reserved := marked.2 })

/-- `mmap_kmalloc`: what it returns, the mapping and the calls of
    `remap_pfn_range`. -/
def mmapKmalloc (M : Machine π) (d : Driver π) (vma : Vma) : Int × Vma × List Remap :=
  let length := vma.vmEnd - vma.vmStart
  -- `if (length > LEN * PAGE_SIZE)`, with an unsigned product
  if length > BitVec.ofNat 64 LEN * BitVec.ofNat 64 M.pageSize then (-eio, vma, [])
  else
    let vma' := { vma with vmFlags := vma.vmFlags ||| (VM_DONTEXPAND ||| VM_DONTDUMP) }
    let call : Remap :=
      { start := vma'.vmStart, pfn := M.virtToPhys d.kmallocArea >>> M.pageShift,
        size := vma'.vmEnd - vma'.vmStart }
    (if M.remapPfnRange vma' call ≠ 0 then -EAGAIN else 0, vma', [call])

/-- The loop of `mmap_vmalloc`, or `none` where it does not end. -/
def vmallocLoop (M : Machine π) (vma : Vma) :
    (fuel : Nat) → (area : Nat) → (start : BitVec 64) → (length : BitVec 32) →
      Option (Int × List Remap)
  | 0, _, _, _ => none
  | fuel + 1, area, start, length =>
    if length > 0 then
      let call : Remap :=
        { start := start, pfn := M.vmallocToPfn area, size := BitVec.ofNat 64 M.pageSize }
      let ret := M.remapPfnRange vma call
      -- The pages mapped before a failure stay mapped.
      if ret ≠ 0 then some (ret, [call])
      else
        (vmallocLoop M vma fuel (area + M.pageSize) (start + BitVec.ofNat 64 M.pageSize)
          (length - BitVec.ofNat 32 M.pageSize)).map fun r => (r.1, call :: r.2)
    else some (0, [])

/-- `mmap_vmalloc`, with fuel for its loop. The length is an `unsigned int`,
    compared as an `unsigned long`. -/
def mmapVmalloc (M : Machine π) (fuel : Nat) (d : Driver π) (vma : Vma) :
    Option (Int × Vma × List Remap) :=
  let length := (vma.vmEnd - vma.vmStart).setWidth 32
  if length.setWidth 64 > 2 * BitVec.ofNat 64 M.pageSize then some (-eio, vma, [])
  else
    let vma' := { vma with vmFlags := vma.vmFlags ||| (VM_DONTEXPAND ||| VM_DONTDUMP) }
    (vmallocLoop M vma' fuel d.vmallocPtr vma'.vmStart length).map fun r => (r.1, vma', r.2)

/-- The mmap call of the VFS, through `test_mmap_ops`. -/
def Driver.mmapCall (M : Machine π) (fuel : Nat) (d : Driver π) (vma : Vma) :
    Option (Int × Vma × List Remap) :=
  match d.mmap with
  | .mmapKmalloc => some (mmapKmalloc M d vma)
  | .mmapVmalloc => mmapVmalloc M fuel d vma

section Loops

/-- The page loop visits the two pages of the area and stops at its end. -/
theorem pageLoop_two {σ : Type*} {pageSize : Nat} (hpos : 0 < pageSize) (area : Nat)
    (body : Nat → σ → σ) {fuel : Nat} (hfuel : 2 ≤ fuel) (r : σ) :
    pageLoop pageSize (area + 2 * pageSize) body fuel area r =
      (area + 2 * pageSize, body (area + pageSize) (body area r)) := by
  -- Two rounds and the test that ends the loop, each unfolded once.
  rcases Nat.exists_eq_add_of_le hfuel with ⟨n, rfl⟩
  rw [Nat.add_comm 2 n, pageLoop, if_pos (by omega), pageLoop, if_pos (by omega),
    show area + pageSize + pageSize = area + 2 * pageSize by omega]
  cases n with
  | zero => rfl
  | succ n => rw [pageLoop, if_neg (Nat.lt_irrefl _)]

variable [DecidableEq π] (M : Machine π) (minor area : Nat) (flag : Bool) (reserved : π → Bool)

theorem markPages_eq :
    markPages M minor area flag reserved = (area + 2 * M.pageSize,
      Function.update (Function.update reserved (toPage M minor area) flag)
        (toPage M minor (area + M.pageSize)) flag) := by
  have hpos := M.pageSize_pos
  rw [markPages, pageLoop_two hpos area _ (by omega)]

/-- The loop leaves its flag on both pages of the area. -/
theorem markPages_self : (markPages M minor area flag reserved).2 (toPage M minor area) = flag ∧
    (markPages M minor area flag reserved).2 (toPage M minor (area + M.pageSize)) = flag := by
  simp only [markPages_eq]
  refine ⟨?_, Function.update_self _ _ _⟩
  -- The first page keeps the flag also if the second is the same page.
  by_cases hsame : toPage M minor area = toPage M minor (area + M.pageSize)
  · rw [hsame, Function.update_self]
  · rw [Function.update_of_ne hsame, Function.update_self]

/-- The loop leaves any other page alone. -/
theorem markPages_of_ne {p : π} (h0 : p ≠ toPage M minor area)
    (h1 : p ≠ toPage M minor (area + M.pageSize)) :
    (markPages M minor area flag reserved).2 p = reserved p := by
  simp only [markPages_eq, Function.update_of_ne h1, Function.update_of_ne h0]

end Loops

/-- The minors that open accepts. -/
def Supported (minor : Nat) : Prop := minor = MINOR_NUMBER_0 ∨ minor = MINOR_NUMBER_1

instance (minor : Nat) : Decidable (Supported minor) :=
  inferInstanceAs (Decidable (_ ∨ _))

/-- The area of a supported minor. -/
def Driver.area (d : Driver π) (minor : Nat) : Nat :=
  if minor = MINOR_NUMBER_0 then d.kmallocArea else d.vmallocPtr

/-- The handler of a supported minor. -/
def handlerOf (minor : Nat) : Handler :=
  if minor = MINOR_NUMBER_0 then .mmapKmalloc else .mmapVmalloc

section Select

variable {M : Machine π} {d : Driver π} {minor : Nat}

theorem select_supported (hm : Supported minor) :
    d.select minor = some (d.area minor, handlerOf minor) := by
  rcases hm with rfl | rfl <;> rfl

theorem select_unsupported (hm : ¬ Supported minor) : d.select minor = none := by
  rcases not_or.mp hm with ⟨h0, h1⟩
  rw [Driver.select, if_neg h0, if_neg h1]

theorem handlerOf_injective {m m' : Nat} (hm : Supported m) (hm' : Supported m')
    (h : handlerOf m = handlerOf m') : m = m' := by
  rcases hm with rfl | rfl <;> rcases hm' with rfl | rfl
  · rfl
  · exact absurd h (by decide)
  · exact absurd h (by decide)
  · rfl

variable [DecidableEq π]

/-- Open of a supported minor stores its handler and marks its pages. -/
theorem testMmapOpen_supported (hm : Supported minor) :
    (testMmapOpen M minor d).1 = 0 ∧ (testMmapOpen M minor d).2.mmap = handlerOf minor ∧
      (testMmapOpen M minor d).2.reserved =
        (markPages M minor (d.area minor) true d.reserved).2 := by
  rw [testMmapOpen, select_supported hm]
  exact ⟨rfl, rfl, rfl⟩

theorem testMmapOpen_unsupported (hm : ¬ Supported minor) :
    testMmapOpen M minor d = (-1, d) := by
  rw [testMmapOpen, select_unsupported hm]

/-- Release leaves the handler as it is and clears the pages of its minor. -/
theorem testMmapRelease_supported (hm : Supported minor) :
    (testMmapRelease M minor d).2.mmap = d.mmap ∧
      (testMmapRelease M minor d).2.reserved =
        (markPages M minor (d.area minor) false d.reserved).2 := by
  rw [testMmapRelease, select_supported hm]
  exact ⟨rfl, rfl⟩

/-- Neither open nor release moves an area. -/
theorem testMmapOpen_area (m : Nat) : (testMmapOpen M minor d).2.area m = d.area m := by
  unfold testMmapOpen
  split <;> rfl

theorem testMmapRelease_area (m : Nat) : (testMmapRelease M minor d).2.area m = d.area m := by
  unfold testMmapRelease
  split <;> rfl

end Select

section Handlers

variable {M : Machine π} {d : Driver π} {vma : Vma}

/-- `mmap_kmalloc` maps frames from the one of `kmalloc_area` on. -/
theorem mmapKmalloc_pfn {r : Remap} (hr : r ∈ (mmapKmalloc M d vma).2.2) :
    r.pfn = M.virtToPhys d.kmallocArea >>> M.pageShift := by
  unfold mmapKmalloc at hr
  simp only at hr
  split at hr
  · exact absurd hr List.not_mem_nil
  · rw [List.mem_singleton.mp hr]

theorem vmallocLoop_pfn (fuel : Nat) : ∀ (area : Nat) (start : BitVec 64) (length : BitVec 32)
    (res : Int × List Remap), vmallocLoop M vma fuel area start length = some res →
      ∀ r ∈ res.2, ∃ i, r.pfn = M.vmallocToPfn (area + i * M.pageSize) := by
  -- The area pointer moves up a page a round, so it varies with the fuel.
  induction fuel with
  | zero => intro area start length res h; simp only [vmallocLoop, reduceCtorEq] at h
  | succ fuel ih =>
      intro area start length res h r hr
      rw [vmallocLoop] at h
      simp only at h
      split at h
      · split at h
        · -- The call failed and was the last one.
          rw [Option.some.injEq] at h
          rw [← h, List.mem_singleton] at hr
          exact ⟨0, by rw [hr, Nat.zero_mul, Nat.add_zero]⟩
        · rcases Option.map_eq_some_iff.mp h with ⟨res', hres', rfl⟩
          rcases List.mem_cons.mp hr with hr | hr
          · exact ⟨0, by rw [hr, Nat.zero_mul, Nat.add_zero]⟩
          · rcases ih _ _ _ res' hres' r hr with ⟨i, hi⟩
            refine ⟨i + 1, ?_⟩
            rw [hi, Nat.add_assoc, Nat.succ_mul, Nat.add_comm (i * M.pageSize)]
      · rw [Option.some.injEq] at h
        rw [← h] at hr
        exact absurd hr List.not_mem_nil

/-- `mmap_vmalloc` maps the frames of pages behind `vmalloc_ptr`. -/
theorem mmapVmalloc_pfn {fuel : Nat} {res : Int × Vma × List Remap}
    (h : mmapVmalloc M fuel d vma = some res) {r : Remap} (hr : r ∈ res.2.2) :
    ∃ i, r.pfn = M.vmallocToPfn (d.vmallocPtr + i * M.pageSize) := by
  unfold mmapVmalloc at h
  simp only at h
  split at h
  · rw [Option.some.injEq] at h
    rw [← h] at hr
    exact absurd hr List.not_mem_nil
  · rcases Option.map_eq_some_iff.mp h with ⟨res', hres', rfl⟩
    exact vmallocLoop_pfn fuel _ _ _ res' hres' r hr

end Handlers

end Mmap

end KernelModules
