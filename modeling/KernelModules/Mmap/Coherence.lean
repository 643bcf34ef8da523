import KernelModules.Lib.Paging
import KernelModules.Mmap.Area

/-!
# What Processes See of the Areas

The areas of `mmap_kmalloc.c` are seen in three ways. Processes load and store
through their mappings, which show frames. The driver fills an area when it is
opened, at its addresses in the kernel. And a read of the `/proc` entry copies
from there.

Under all of them is one memory, of frames. Here mappings are page tables, made
from the calls of `remap_pfn_range`, and the kernel's addresses are translated.
What there is to know is that each area is one array of bytes for everybody, in
every run: a load gives what was stored last at that place of the area, through
whichever mapping, by whichever process, or by an open. So a process that opens
the device destroys what others have stored. Which area a mapping shows goes by
the latest open, not by the file that is mapped.

The handlers accept private mappings as well as shared ones. A store through a
private mapping gives the process a copy of the page, and from then on its page
is no more a matter of the areas.

Processes stay in the first two pages of a mapping. The handlers accept longer
ones, and what these show behind the area is in `Mmap.Mapping`.

## Main definitions

* `areaFrames`, `areaStart`: The frames of an area, and its address.
* `Frames`: What is known of the frames.
* `ptes`: The page table that calls of `remap_pfn_range` leave.
* `Mapping`: A mapping with its flags.
* `Sys`, `Sys.view`, `Sys.absorb`: The memory, and the driver's view of it.
* `Step`, `step`: Opens, releases, mappings, and stores of processes.
* `lastOpened`, `shown`, `flags`, `content`: The area of the latest open, the
  area that a mapping shows and its flags, and the bytes of an area, by the
  history.
* `Coherent`, `InPages`: The law, and where processes store.
* `Tracked`: The invariant.

## Theorems

* `ptes_kmalloc`, `ptes_vmalloc`, `ptes_mmapCall`: The frames that a mapping
  shows.
* `view_area`, `absorb_area`: What the driver loads from an area, and leaves.
* `step_tracked`: Steps keep the invariant.
* `run_coherent`: The law holds at the end of every run.
-/

namespace KernelModules

namespace Mmap

namespace Coherence

open Kernel Lib Paging

variable {π φ κ : Type*}

/-- The frames of an area, named by its handler. -/
def areaFrames (M : Machine π) (d : Driver π) : Handler → Nat → Nat
  | .mmapKmalloc, i => M.virtToPhys (d.kmallocArea + i * M.pageSize) >>> M.pageShift
  | .mmapVmalloc, i => M.vmallocToPfn (d.vmallocPtr + i * M.pageSize)

def areaStart (d : Driver π) : Handler → Nat
  | .mmapKmalloc => d.kmallocArea
  | .mmapVmalloc => d.vmallocPtr

/-- What is known of the frames: physical addresses of the first area are as
    far apart as its addresses, the four pages have frames of their own, and the
    areas do not overlap. -/
structure Frames (M : Machine π) (d : Driver π) : Prop where
  direct : ∃ offset ≤ d.kmallocArea, DirectMap M offset
  separate : Separate 2 (areaFrames M d)
  apart : d.kmallocArea + 2 * M.pageSize ≤ d.vmallocPtr ∨
    d.vmallocPtr + 2 * M.pageSize ≤ d.kmallocArea

/-- The frame that page `p` of a mapping shows after these calls. -/
def ptes (M : Machine π) (vma : Vma) (calls : List Remap) (p : Nat) : Option Nat :=
  calls.findSome? fun r =>
    let off := vma.vmStart + BitVec.ofNat 64 (p * M.pageSize) - r.start
    if off < r.size then some (r.pfn + off.toNat / M.pageSize) else none

def VM_READ : BitVec 64 := 0x1
def VM_WRITE : BitVec 64 := 0x2
def VM_SHARED : BitVec 64 := 0x8

/-- A mapping: the flags it was asked for with, and its page table. -/
structure Mapping where
  vmFlags : BitVec 64
  table : Nat → Option Nat

/-- The driver, the memory, the open files with their minors, and the mappings.
    The memory of the driver is what is outside of the areas. -/
structure Sys (π φ κ : Type*) where
  driver : Driver π
  phys : Nat → UInt8
  files : φ → Option Nat
  maps : κ → Option Mapping

def Sys.loaded (kmallocArea vmallocPtr : Nat) (mem phys : Nat → UInt8) : Sys π φ κ :=
  { driver := Driver.loaded kmallocArea vmallocPtr mem, phys := phys, files := fun _ => none,
    maps := fun _ => none }

/-- The driver with the memory at its addresses. -/
def Sys.view (M : Machine π) (s : Sys π φ κ) : Driver π :=
  { s.driver with
    mem := fun a =>
      if s.driver.kmallocArea ≤ a ∧ a < s.driver.kmallocArea + 2 * M.pageSize then
        s.phys (place M.pageSize (areaFrames M s.driver .mmapKmalloc) (a - s.driver.kmallocArea))
      else if s.driver.vmallocPtr ≤ a ∧ a < s.driver.vmallocPtr + 2 * M.pageSize then
        s.phys (place M.pageSize (areaFrames M s.driver .mmapVmalloc) (a - s.driver.vmallocPtr))
      else s.driver.mem a }

/-- The memory after the driver has worked on it. -/
def Sys.absorb (M : Machine π) (s : Sys π φ κ) (d : Driver π) : Sys π φ κ :=
  { s with
    driver := { d with mem := s.driver.mem }
    phys :=
      storeAll M.pageSize (areaFrames M s.driver .mmapKmalloc)
        (fun o => d.mem (s.driver.kmallocArea + o)) (2 * M.pageSize)
        (storeAll M.pageSize (areaFrames M s.driver .mmapVmalloc)
          (fun o => d.mem (s.driver.vmallocPtr + o)) (2 * M.pageSize) s.phys) }

inductive Step (φ κ : Type*) where
  | openFile (f : φ) (minor : Nat)
  | releaseFile (f : φ)
  | mmapFile (k : κ) (f : φ) (vma : Vma) (fuel : Nat)
  | munmap (k : κ)
  | store (k : κ) (page off : Nat) (b : UInt8)

/-- The VFS maps whole pages below 2^47. A mapping that the handler returns an
    error for is not made. A process stores where its mapping shows a frame and
    may be written to, to the frame itself if the mapping is shared. -/
def step [DecidableEq π] [DecidableEq φ] [DecidableEq κ] (M : Machine π) :
    Step φ κ → Sys π φ κ → Option (Sys π φ κ)
  | .openFile f minor, s =>
    if (s.files f).isSome then none
    else
      let r := testMmapOpen M minor (s.view M)
      let s' := s.absorb M r.2
      if r.1 = 0 then some { s' with files := Function.update s.files f (some minor) }
      else some s'
  | .releaseFile f, s =>
    (s.files f).map fun minor =>
      { s.absorb M (testMmapRelease M minor (s.view M)).2 with
        files := Function.update s.files f none }
  | .mmapFile k f vma fuel, s =>
    if (s.files f).isSome ∧ (s.maps k).isNone ∧ 3 ≤ fuel ∧ M.pageSize ∣ vma.vmStart.toNat ∧
        M.pageSize ∣ vma.vmEnd.toNat ∧ vma.vmStart.toNat < vma.vmEnd.toNat ∧
        vma.vmEnd.toNat < 2 ^ 47 then
      (s.driver.mmapCall M fuel vma).map fun r =>
        if r.1 = 0 then
          { s with maps := Function.update s.maps k (some ⟨vma.vmFlags, ptes M vma r.2.2⟩) }
        else s
    else none
  | .munmap k, s => some { s with maps := Function.update s.maps k none }
  | .store k page off b, s =>
    if off < M.pageSize then
      (s.maps k).bind fun m =>
        if m.vmFlags &&& VM_WRITE = 0 then none
        else (m.table page).map fun frame =>
          if m.vmFlags &&& VM_SHARED ≠ 0 then
            { s with phys := Function.update s.phys (frame * M.pageSize + off) b }
          -- The process gets a copy of the page.
          else
            { s with
              maps := Function.update s.maps k
                (some { m with table := Function.update m.table page none }) }
    else none

/-- The area of the latest open that succeeded. -/
def lastOpened : History (Sys π φ κ) (Step φ κ) → Handler
  | [] => .mmapVmalloc
  | (_, .openFile _ minor) :: h => if Supported minor then handlerOf minor else lastOpened h
  | (_, .releaseFile _) :: h | (_, .mmapFile _ _ _ _) :: h | (_, .munmap _) :: h
  | (_, .store _ _ _ _) :: h => lastOpened h

section Semantics

variable [DecidableEq κ]

/-- The area that a mapping shows: the one opened last when it was made. -/
def shown (k : κ) : History (Sys π φ κ) (Step φ κ) → Handler
  | [] => .mmapVmalloc
  | (_, .mmapFile k' _ _ _) :: h => if k' = k then lastOpened h else shown k h
  | (_, .openFile _ _) :: h | (_, .releaseFile _) :: h | (_, .munmap _) :: h
  | (_, .store _ _ _ _) :: h => shown k h

/-- The flags that a mapping was asked for with. -/
def flags (k : κ) : History (Sys π φ κ) (Step φ κ) → BitVec 64
  | [] => 0
  | (_, .mmapFile k' _ vma _) :: h => if k' = k then vma.vmFlags else flags k h
  | (_, .openFile _ _) :: h | (_, .releaseFile _) :: h | (_, .munmap _) :: h
  | (_, .store _ _ _ _) :: h => flags k h

/-- The bytes of an area: the digits after an open of it, and what processes
    have stored since through shared mappings. -/
def content (M : Machine π) (bytes : Handler → Nat → UInt8) :
    History (Sys π φ κ) (Step φ κ) → Handler → Nat → UInt8
  | [], a, o => bytes a o
  | (_, .openFile _ minor) :: h, a, o =>
    if Supported minor ∧ handlerOf minor = a then decimalDigit o else content M bytes h a o
  | (_, .store k page off b) :: h, a, o =>
    if flags k h &&& VM_SHARED ≠ 0 ∧ shown k h = a ∧ page * M.pageSize + off = o then b
    else content M bytes h a o
  | (_, .releaseFile _) :: h, a, o | (_, .mmapFile _ _ _ _) :: h, a, o
  | (_, .munmap _) :: h, a, o => content M bytes h a o

/-- The law: the bytes of each area are those that the history tells, in memory,
    through every mapping that shows a frame, and for a reader of the `/proc`
    entry. -/
structure Coherent (M : Machine π) (bytes : Handler → Nat → UInt8)
    (h : History (Sys π φ κ) (Step φ κ)) (s : Sys π φ κ) : Prop where
  memory : ∀ a o, o < 2 * M.pageSize →
    s.phys (place M.pageSize (areaFrames M s.driver a) o) = content M bytes h a o
  loads : ∀ k m, s.maps k = some m → ∀ page < 2, ∀ off < M.pageSize, ∀ frame,
    m.table page = some frame →
      s.phys (frame * M.pageSize + off) =
        content M bytes h (shown k h) (page * M.pageSize + off)
  proc : procContent M (s.view M) =
    (List.range (2 * M.pageSize)).map (content M bytes h .mmapKmalloc)

/-- A process stores in the first two pages of a mapping. -/
def InPages : Step φ κ → Prop
  | .store _ page _ _ => page < 2
  | .openFile _ _ | .releaseFile _ | .mmapFile _ _ _ _ | .munmap _ => True

instance : DecidablePred (InPages (φ := φ) (κ := κ))
  | .store _ page _ _ => inferInstanceAs (Decidable (page < 2))
  | .openFile _ _ | .releaseFile _ | .mmapFile _ _ _ _ | .munmap _ => .isTrue trivial

end Semantics

section View

variable {M : Machine π} {s : Sys π φ κ} {d d' : Driver π} {a : Handler} {o minor : Nat}

theorem areaStart_handlerOf (hm : Supported minor) :
    areaStart d (handlerOf minor) = d.area minor := by
  rcases hm with rfl | rfl <;> rfl

/-- The driver sees the areas where they are. -/
theorem view_frames : areaFrames M (s.view M) = areaFrames M s.driver ∧
    areaStart (s.view M) = areaStart s.driver := by
  refine ⟨?_, ?_⟩
  · funext a i
    cases a <;> rfl
  · funext a
    cases a <;> rfl

/-- The driver loads from an area what is in its frames. -/
theorem view_area (hf : Frames M s.driver) (ho : o < 2 * M.pageSize) :
    (s.view M).mem (areaStart s.driver a + o) =
      s.phys (place M.pageSize (areaFrames M s.driver a) o) := by
  have hapart := hf.apart
  cases a with
  | mmapKmalloc =>
      simp only [Sys.view, areaStart]
      rw [if_pos (by omega), Nat.add_sub_cancel_left]
  | mmapVmalloc =>
      simp only [Sys.view, areaStart]
      rw [if_neg (by omega), if_pos (by omega), Nat.add_sub_cancel_left]

/-- And leaves what it has stored. -/
theorem absorb_area (hf : Frames M s.driver) (ho : o < 2 * M.pageSize) :
    (s.absorb M d).phys (place M.pageSize (areaFrames M s.driver a) o) =
      d.mem (areaStart s.driver a + o) := by
  cases a with
  | mmapKmalloc =>
      exact storeAll_place _ (fun o' ho' h => (hf.separate.place_inj ho' ho h).2) ho
  | mmapVmalloc =>
      -- The places of the other area are others.
      refine (storeAll_of_ne _ fun o' ho' h => ?_).trans ?_
      · exact Handler.noConfusion (hf.separate.place_inj ho' ho h).1
      · exact storeAll_place _ (fun o' ho' h => (hf.separate.place_inj ho' ho h).2) ho

/-- The frames are known of the areas, wherever else the driver has got to. -/
theorem Frames.congr (hf : Frames M d) (hframes : areaFrames M d' = areaFrames M d)
    (hstart : areaStart d' = areaStart d) : Frames M d' := by
  have hkmalloc : d'.kmallocArea = d.kmallocArea := congrFun hstart .mmapKmalloc
  have hvmalloc : d'.vmallocPtr = d.vmallocPtr := congrFun hstart .mmapVmalloc
  refine ⟨?_, ?_, ?_⟩
  · rw [hkmalloc]
    exact hf.direct
  · rw [hframes]
    exact hf.separate
  · rw [hkmalloc, hvmalloc]
    exact hf.apart

/-- What the driver leaves in an area that it has not touched. -/
theorem absorb_untouched (hf : Frames M s.driver) (hmem : d.mem = (s.view M).mem)
    (ho : o < 2 * M.pageSize) :
    (s.absorb M d).phys (place M.pageSize (areaFrames M s.driver a) o) =
      s.phys (place M.pageSize (areaFrames M s.driver a) o) := by
  rw [absorb_area hf ho, hmem, view_area hf ho]

variable [DecidableEq π]

theorem testMmapOpen_frames (M : Machine π) (minor : Nat) (d : Driver π) :
    areaFrames M (testMmapOpen M minor d).2 = areaFrames M d ∧
      areaStart (testMmapOpen M minor d).2 = areaStart d := by
  have h0 : (testMmapOpen M minor d).2.kmallocArea = d.kmallocArea := testMmapOpen_area 0
  have h1 : (testMmapOpen M minor d).2.vmallocPtr = d.vmallocPtr := testMmapOpen_area 1
  refine ⟨?_, ?_⟩
  · funext a i
    cases a
    · simp only [areaFrames, h0]
    · simp only [areaFrames, h1]
  · funext a
    cases a
    · exact h0
    · exact h1

/-- An open leaves the digits in its area, and the other one alone. -/
theorem testMmapOpen_bytes (minor : Nat) (a : Handler) (hf : Frames M d) (ho : o < 2 * M.pageSize) :
    (testMmapOpen M minor d).2.mem (areaStart d a + o) =
      if Supported minor ∧ handlerOf minor = a then decimalDigit o
      else d.mem (areaStart d a + o) := by
  by_cases hm : Supported minor
  · have hstart := areaStart_handlerOf (d := d) hm
    simp only [testMmapOpen, select_supported hm, hm, true_and]
    rw [fillLoop_spec _ _ 0 _ (.inl rfl) (Nat.zero_le _) (by omega), Nat.add_zero, ← hstart]
    by_cases ha : handlerOf minor = a
    · rw [if_pos ha, ha, if_pos (by omega), Nat.add_sub_cancel_left]
    · have hout : ¬ (areaStart d (handlerOf minor) ≤ areaStart d a + o ∧
          areaStart d a + o < areaStart d (handlerOf minor) + 2 * M.pageSize) := by
        have hapart := hf.apart
        cases hh : handlerOf minor <;> cases a <;> rw [hh] at ha <;>
          first | exact absurd rfl ha | simp only [areaStart]; omega
      rw [if_neg ha, if_neg hout, memsetZ, if_neg hout]
  · rw [testMmapOpen_unsupported hm, if_neg fun h => hm h.1]

/-- A release stores nothing. -/
theorem testMmapRelease_bytes (M : Machine π) (minor : Nat) (d : Driver π) :
    (testMmapRelease M minor d).2.mem = d.mem ∧ (testMmapRelease M minor d).2.mmap = d.mmap := by
  unfold testMmapRelease
  split <;> exact ⟨rfl, rfl⟩

theorem testMmapRelease_frames (M : Machine π) (minor : Nat) (d : Driver π) :
    areaFrames M (testMmapRelease M minor d).2 = areaFrames M d ∧
      areaStart (testMmapRelease M minor d).2 = areaStart d := by
  have h0 : (testMmapRelease M minor d).2.kmallocArea = d.kmallocArea := testMmapRelease_area 0
  have h1 : (testMmapRelease M minor d).2.vmallocPtr = d.vmallocPtr := testMmapRelease_area 1
  refine ⟨?_, ?_⟩
  · funext a i
    cases a
    · simp only [areaFrames, h0]
    · simp only [areaFrames, h1]
  · funext a
    cases a
    · exact h0
    · exact h1

end View

section Tables

variable {M : Machine π} {d : Driver π} {vma : Vma}

/-- The call of `mmap_kmalloc` shows the first area from its first page on. -/
theorem ptes_kmalloc (hd : ∃ offset ≤ d.kmallocArea, DirectMap M offset) {page frame : Nat}
    (hpage : page * M.pageSize < 2 ^ 64) {r : Remap} (hstart : r.start = vma.vmStart)
    (hpfn : r.pfn = M.virtToPhys d.kmallocArea >>> M.pageShift)
    (hframe : ptes M vma [r] page = some frame) : frame = areaFrames M d .mmapKmalloc page := by
  rcases hd with ⟨offset, hoffset, hmap⟩
  have hoff : (vma.vmStart + BitVec.ofNat 64 (page * M.pageSize) - r.start).toNat =
      page * M.pageSize := by
    rw [hstart, BitVec.add_comm, BitVec.add_sub_cancel, BitVec.toNat_ofNat, Nat.mod_eq_of_lt hpage]
  simp only [ptes, List.findSome?_cons, List.findSome?_nil] at hframe
  split at hframe
  · rename_i hsome
    rw [Option.ite_none_right_eq_some, Option.some.injEq, hoff,
      Nat.mul_div_cancel _ M.pageSize_pos] at hsome
    rw [← Option.some.inj hframe, ← hsome.2, hpfn, frame_add hmap hoffset, areaFrames]
  · exact absurd hframe (Option.some_ne_none frame).symm

/-- The calls of `mmap_vmalloc` show the second area page by page. -/
theorem ptes_vmalloc {n page frame : Nat} (hn : n ≤ 2) (hpage : page < 2)
    (hsize : 2 * M.pageSize < 2 ^ 64)
    (hframe : ptes M vma ((List.range n).map (vmallocPage M d.vmallocPtr vma.vmStart)) page =
      some frame) : frame = areaFrames M d .mmapVmalloc page := by
  have hpos := M.pageSize_pos
  rcases List.exists_of_findSome?_eq_some hframe with ⟨r, hr, hsome⟩
  rcases List.mem_map.mp hr with ⟨i, hi, rfl⟩
  rw [List.mem_range] at hi
  have hoff : vma.vmStart + BitVec.ofNat 64 (page * M.pageSize) -
      (vma.vmStart + BitVec.ofNat 64 (i * M.pageSize)) =
        BitVec.ofNat 64 (page * M.pageSize) - BitVec.ofNat 64 (i * M.pageSize) := by
    bv_omega
  simp only [vmallocPage, hoff] at hsome
  rw [Option.ite_none_right_eq_some, Option.some.injEq] at hsome
  by_cases hsame : i = page
  · rw [hsame, BitVec.sub_self, BitVec.toNat_zero, Nat.zero_div, Nat.add_zero] at hsome
    exact hsome.2.symm
  · -- The page is a page behind the call, or the other way round.
    exfalso
    have hlt := hsome.1
    rw [BitVec.lt_def, BitVec.toNat_sub, BitVec.toNat_ofNat, BitVec.toNat_ofNat,
      BitVec.toNat_ofNat] at hlt
    rcases (show i = 0 ∧ page = 1 ∨ i = 1 ∧ page = 0 by omega) with ⟨rfl, rfl⟩ | ⟨rfl, rfl⟩
    · rw [Nat.zero_mul, Nat.one_mul] at hlt
      omega
    · rw [Nat.zero_mul, Nat.one_mul] at hlt
      omega

/-- A mapping of whole pages below 2^47 has pages that small. -/
theorem pageSize_lt (hvma : vma.Aligned M) (hbound : vma.vmEnd.toNat < 2 ^ 47) :
    M.pageSize < 2 ^ 47 := by
  have := Nat.le_of_dvd hvma.length_pos hvma.dvd_length
  rw [hvma.length_eq] at this
  omega

/-- A handler that returns 0 leaves a page table with frames of its area. -/
theorem ptes_mmapCall (hd : ∃ offset ≤ d.kmallocArea, DirectMap M offset) {fuel : Nat}
    (hfuel : 3 ≤ fuel) (hvma : vma.Aligned M) (hbound : vma.vmEnd.toNat < 2 ^ 47)
    {r : Int × Vma × List Remap} (hcall : d.mmapCall M fuel vma = some r) (hr : r.1 = 0)
    {page frame : Nat} (hpage : page < 2) (hframe : ptes M vma r.2.2 page = some frame) :
    frame = areaFrames M d d.mmap page := by
  have hsize := pageSize_lt hvma hbound
  have heio : -eio ≠ 0 := by decide
  unfold Driver.mmapCall at hcall
  cases hmmap : d.mmap with
  | mmapKmalloc =>
      simp only [hmmap, Option.some.injEq] at hcall
      rw [← hcall] at hframe hr
      unfold mmapKmalloc at hframe hr
      by_cases hlong : vma.vmEnd - vma.vmStart > BitVec.ofNat 64 LEN * BitVec.ofNat 64 M.pageSize
      · simp only [if_pos hlong] at hr
        exact absurd hr heio
      · simp only [if_neg hlong] at hframe
        have hword : page * M.pageSize < 2 ^ 64 := by
          rcases (show page = 0 ∨ page = 1 by omega) with rfl | rfl <;> omega
        exact ptes_kmalloc hd hword rfl rfl hframe
  | mmapVmalloc =>
      simp only [hmmap] at hcall
      rcases mmapVmalloc_cases (d := d) hfuel hvma hbound with
        ⟨-, hres⟩ | ⟨-, -, r', calls, hfail, hres⟩ | ⟨hfits, -, hres⟩
      · rw [hres, Option.some.injEq] at hcall
        rw [← hcall] at hr
        exact absurd hr heio
      · rw [hres, Option.some.injEq] at hcall
        rw [← hcall] at hr
        exact absurd hr hfail
      · rw [hres, Option.some.injEq] at hcall
        rw [← hcall] at hframe
        have hpages : vma.length % 2 ^ 32 / M.pageSize ≤ 2 :=
          Nat.div_le_of_le_mul (by rw [Nat.mul_comm]; exact hfits)
        exact ptes_vmalloc hpages hpage (by omega) hframe

end Tables

section Invariant

variable [DecidableEq κ] {M : Machine π} {d : Driver π}
  {bytes : Handler → Nat → UInt8} {h : History (Sys π φ κ) (Step φ κ)} {s s' : Sys π φ κ}

/-- What the history says of the state: the areas are where they were, and the
    table, the memory and the mappings are as it tells. -/
structure Tracked (M : Machine π) (d : Driver π) (bytes : Handler → Nat → UInt8)
    (h : History (Sys π φ κ) (Step φ κ)) (s : Sys π φ κ) : Prop where
  frames : areaFrames M s.driver = areaFrames M d
  start : areaStart s.driver = areaStart d
  opened : s.driver.mmap = lastOpened h
  memory : ∀ a o, o < 2 * M.pageSize →
    s.phys (place M.pageSize (areaFrames M d a) o) = content M bytes h a o
  maps : ∀ k m, s.maps k = some m → m.vmFlags = flags k h ∧ ∀ page < 2, ∀ frame,
    m.table page = some frame → frame = areaFrames M d (shown k h) page

/-- An open keeps the law: it stores the digits in its area, and its handler. -/
theorem openFile_tracked [DecidableEq π] (hf : Frames M d) (ht : Tracked M d bytes h s)
    (s₀ : Sys π φ κ) (f : φ) (minor : Nat) : Tracked M d bytes ((s₀, .openFile f minor) :: h)
      (s.absorb M (testMmapOpen M minor (s.view M)).2) := by
  have hs := hf.congr ht.frames ht.start
  have hview : Frames M (s.view M) := hs.congr view_frames.1 view_frames.2
  have hsame := testMmapOpen_frames M minor (s.view M)
  refine ⟨hsame.1.trans ht.frames, hsame.2.trans ht.start, ?_, ?_, ht.maps⟩
  · show (testMmapOpen M minor (s.view M)).2.mmap = lastOpened ((s₀, .openFile f minor) :: h)
    rw [lastOpened]
    by_cases hm : Supported minor
    · rw [if_pos hm]
      exact (testMmapOpen_supported hm).2.1
    · rw [if_neg hm, testMmapOpen_unsupported hm]
      exact ht.opened
  · intro a o ho
    have hbytes := testMmapOpen_bytes minor a hview ho
    have hload : (s.view M).mem (areaStart (s.view M) a + o) = content M bytes h a o := by
      rw [← ht.memory a o ho, ← ht.frames]
      exact view_area hs ho
    rw [← ht.frames, absorb_area hs ho, content, ← hload]
    exact hbytes

theorem releaseFile_tracked [DecidableEq π] (hf : Frames M d) (ht : Tracked M d bytes h s)
    (s₀ : Sys π φ κ) (f : φ) (minor : Nat) : Tracked M d bytes ((s₀, .releaseFile f) :: h)
      (s.absorb M (testMmapRelease M minor (s.view M)).2) := by
  have hs := hf.congr ht.frames ht.start
  have hsame := testMmapRelease_frames M minor (s.view M)
  have hbytes := testMmapRelease_bytes M minor (s.view M)
  refine ⟨hsame.1.trans ht.frames, hsame.2.trans ht.start, hbytes.2.trans ht.opened, ?_, ht.maps⟩
  intro a o ho
  rw [← ht.frames, absorb_untouched hs hbytes.1 ho, ht.frames]
  exact ht.memory a o ho

/-- A mapping that is made shows the area of the latest open. -/
theorem mmapFile_tracked (hf : Frames M d) (ht : Tracked M d bytes h s) (s₀ : Sys π φ κ) (k : κ)
    (f : φ) {vma : Vma} {fuel : Nat} (hfuel : 3 ≤ fuel) (hvma : vma.Aligned M)
    (hbound : vma.vmEnd.toNat < 2 ^ 47) {r : Int × Vma × List Remap}
    (hcall : s.driver.mmapCall M fuel vma = some r) (hr : r.1 = 0) :
    Tracked M d bytes ((s₀, .mmapFile k f vma fuel) :: h)
      { s with maps := Function.update s.maps k (some ⟨vma.vmFlags, ptes M vma r.2.2⟩) } := by
  have hs := hf.congr ht.frames ht.start
  refine ⟨ht.frames, ht.start, ht.opened, ht.memory, ?_⟩
  intro k' m hm
  rw [shown, flags]
  by_cases hk : k = k'
  · subst hk
    simp only [Function.update_self, Option.some.injEq] at hm
    subst hm
    rw [if_pos rfl, if_pos rfl, ← ht.opened, ← ht.frames]
    exact ⟨rfl, fun page hpage frame hframe =>
      ptes_mmapCall hs.direct hfuel hvma hbound hcall hr hpage hframe⟩
  · simp only [Function.update_of_ne (Ne.symm hk)] at hm
    rw [if_neg hk, if_neg hk]
    exact ht.maps k' m hm

/-- A mapping that is refused is not made. -/
theorem refused_tracked (ht : Tracked M d bytes h s) (s₀ : Sys π φ κ) {k : κ}
    (f : φ) (vma : Vma) (fuel : Nat) (hk : s.maps k = none) :
    Tracked M d bytes ((s₀, .mmapFile k f vma fuel) :: h) s := by
  refine ⟨ht.frames, ht.start, ht.opened, ht.memory, ?_⟩
  intro k' m hm
  have hne : k ≠ k' := by
    rintro rfl
    rw [hk] at hm
    exact absurd hm.symm (Option.some_ne_none m)
  rw [shown, flags, if_neg hne, if_neg hne]
  exact ht.maps k' m hm

variable {k : κ} {m : Mapping} {page off frame : Nat}

/-- A store through a shared mapping changes the byte of the area that the
    mapping shows, and no other. -/
theorem store_tracked (hf : Frames M d) (ht : Tracked M d bytes h s) (s₀ : Sys π φ κ)
    (b : UInt8) (hpage : page < 2) (hoff : off < M.pageSize) (hm : s.maps k = some m)
    (hframe : m.table page = some frame) (hshared : m.vmFlags &&& VM_SHARED ≠ 0) :
    Tracked M d bytes ((s₀, .store k page off b) :: h)
      { s with phys := Function.update s.phys (frame * M.pageSize + off) b } := by
  refine ⟨ht.frames, ht.start, ht.opened, ?_, ht.maps⟩
  intro a o ho
  rcases ht.maps k m hm with ⟨hflags, hshows⟩
  have hplace : frame * M.pageSize + off =
      place M.pageSize (areaFrames M d (shown k h)) (page * M.pageSize + off) := by
    rw [place_page hoff, hshows page hpage frame hframe]
  have hin : page * M.pageSize + off < 2 * M.pageSize := by
    rcases (show page = 0 ∨ page = 1 by omega) with rfl | rfl <;> omega
  rw [hflags] at hshared
  rw [content, hplace]
  by_cases hsame : shown k h = a ∧ page * M.pageSize + off = o
  · rw [if_pos ⟨hshared, hsame⟩, ← hsame.1, ← hsame.2]
    exact Function.update_self _ b s.phys
  · rw [if_neg fun h => hsame h.2, ← ht.memory a o ho]
    refine Function.update_of_ne (fun heq => ?_) b s.phys
    rcases hf.separate.place_inj ho hin heq with ⟨ha, hoo⟩
    exact hsame ⟨ha.symm, hoo.symm⟩

/-- A store through a private mapping takes a page away from it, and changes no
    area. -/
theorem copy_tracked (ht : Tracked M d bytes h s) (s₀ : Sys π φ κ) (b : UInt8)
    (hm : s.maps k = some m) (hprivate : m.vmFlags &&& VM_SHARED = 0) :
    Tracked M d bytes ((s₀, .store k page off b) :: h)
      { s with
        maps := Function.update s.maps k
          (some { m with table := Function.update m.table page none }) } := by
  rcases ht.maps k m hm with ⟨hflags, hshows⟩
  refine ⟨ht.frames, ht.start, ht.opened, ?_, ?_⟩
  · intro a o ho
    rw [hflags] at hprivate
    rw [content, if_neg fun h => h.1 hprivate]
    exact ht.memory a o ho
  · intro k' m' hm'
    by_cases hk : k' = k
    · subst hk
      simp only [Function.update_self, Option.some.injEq] at hm'
      subst hm'
      refine ⟨hflags, fun page' hpage' frame hframe => ?_⟩
      by_cases hcopied : page' = page
      · simp only [hcopied, Function.update_self] at hframe
        exact absurd hframe.symm (Option.some_ne_none frame)
      · simp only [Function.update_of_ne hcopied] at hframe
        exact hshows page' hpage' frame hframe
    · simp only [Function.update_of_ne hk] at hm'
      exact ht.maps k' m' hm'

/-- The law follows from the invariant. -/
theorem Tracked.coherent (hf : Frames M d) (ht : Tracked M d bytes h s) :
    Coherent M bytes h s := by
  have hs := hf.congr ht.frames ht.start
  have hmemory : ∀ a o, o < 2 * M.pageSize →
      s.phys (place M.pageSize (areaFrames M s.driver a) o) = content M bytes h a o := by
    rw [ht.frames]
    exact ht.memory
  refine ⟨hmemory, ?_, ?_⟩
  · intro k m hm page hpage off hoff frame hframe
    have hin : page * M.pageSize + off < 2 * M.pageSize := by
      rcases (show page = 0 ∨ page = 1 by omega) with rfl | rfl <;> omega
    rw [← ht.memory (shown k h) _ hin, place_page hoff,
      (ht.maps k m hm).2 page hpage frame hframe]
  · refine List.map_congr_left fun o ho => ?_
    rw [← hmemory .mmapKmalloc o (List.mem_range.mp ho)]
    exact view_area (a := .mmapKmalloc) hs (List.mem_range.mp ho)

end Invariant

section Runs

variable [DecidableEq π] [DecidableEq φ] [DecidableEq κ] {M : Machine π} {d : Driver π}
  {bytes : Handler → Nat → UInt8} {h : History (Sys π φ κ) (Step φ κ)} {s s' : Sys π φ κ}

/-- Steps keep the invariant. -/
theorem step_tracked (hf : Frames M d) {l : Step φ κ} (ht : Tracked M d bytes h s)
    (hl : InPages l) (hstep : step M l s = some s') : Tracked M d bytes ((s, l) :: h) s' := by
  cases l with
  | openFile f minor =>
      have hopen := openFile_tracked hf ht s f minor
      simp only [step] at hstep
      split at hstep
      · exact absurd hstep.symm (Option.some_ne_none s')
      · split at hstep
        all_goals
          rw [Option.some.injEq] at hstep
          rw [← hstep]
          exact ⟨hopen.frames, hopen.start, hopen.opened, hopen.memory, hopen.maps⟩
  | releaseFile f =>
      rcases Option.map_eq_some_iff.mp hstep with ⟨minor, -, rfl⟩
      have hrelease := releaseFile_tracked hf ht s f minor
      exact ⟨hrelease.frames, hrelease.start, hrelease.opened, hrelease.memory, hrelease.maps⟩
  | mmapFile k f vma fuel =>
      simp only [step] at hstep
      split at hstep
      · rename_i hguard
        rcases hguard with ⟨-, hk, hfuel, hstart, hstop, hnonempty, hbound⟩
        have hvma : vma.Aligned M := ⟨hstart, hstop, hnonempty⟩
        rcases Option.map_eq_some_iff.mp hstep with ⟨r, hcall, rfl⟩
        by_cases hr : r.1 = 0
        · rw [if_pos hr]
          exact mmapFile_tracked hf ht s k f hfuel hvma hbound hcall hr
        · rw [if_neg hr]
          exact refused_tracked ht s f vma fuel (Option.isNone_iff_eq_none.mp hk)
      · exact absurd hstep.symm (Option.some_ne_none s')
  | munmap k =>
      simp only [step, Option.some.injEq] at hstep
      rw [← hstep]
      refine ⟨ht.frames, ht.start, ht.opened, ht.memory, ?_⟩
      intro k' m hm
      by_cases hk : k' = k
      · simp only [hk, Function.update_self] at hm
        exact absurd hm.symm (Option.some_ne_none m)
      · simp only [Function.update_of_ne hk] at hm
        exact ht.maps k' m hm
  | store k page off b =>
      simp only [step] at hstep
      split at hstep
      · rename_i hoff
        rcases Option.bind_eq_some_iff.mp hstep with ⟨m, hm, hstep⟩
        rw [Option.ite_none_left_eq_some] at hstep
        rcases Option.map_eq_some_iff.mp hstep.2 with ⟨frame, hframe, rfl⟩
        by_cases hshared : m.vmFlags &&& VM_SHARED ≠ 0
        · rw [if_pos hshared]
          exact store_tracked hf ht s b hl hoff hm hframe hshared
        · rw [if_neg hshared]
          exact copy_tracked ht s b hm (not_not.mp hshared)
      · exact absurd hstep.symm (Option.some_ne_none s')

/-- In every run of opens, releases, mappings and stores, each area is one
    array of bytes: a load through any mapping, and a read of the `/proc` entry,
    give what was stored last at that place, through whichever shared mapping or
    by an open. -/
theorem run_coherent {kmallocArea vmallocPtr : Nat} {mem phys : Nat → UInt8}
    (hf : Frames M (Driver.loaded kmallocArea vmallocPtr mem))
    (hr : Run (step M) (Sys.loaded kmallocArea vmallocPtr mem phys) h s)
    (hpages : EveryStep (fun _ _ l => InPages l) h) :
    Coherent M (fun a o => phys (place M.pageSize
      (areaFrames M (Driver.loaded kmallocArea vmallocPtr mem) a) o)) h s := by
  refine Tracked.coherent hf (hr.invariantUnder (Tracked M _ _) ?_ ?_ hpages)
  · refine ⟨rfl, rfl, rfl, fun _ _ _ => rfl, ?_⟩
    intro k m hm
    exact absurd hm.symm (Option.some_ne_none m)
  · intro h s l s' _ hl ht hstep
    exact step_tracked hf ht hl hstep

end Runs

theorem flatMachine_frames (mem : Nat → UInt8) :
    Frames flatMachine (Driver.loaded 0x10000 0x40000 mem) where
  direct := ⟨0, Nat.zero_le _, Nat.dvd_zero _, fun _ _ => rfl⟩
  separate := by
    intro w w' i i' hi hi' hframe
    cases w <;> cases w' <;>
      simp only [areaFrames, flatMachine, Driver.loaded, Machine.pageSize,
        Nat.shiftRight_eq_div_pow, Nat.one_shiftLeft] at hframe <;>
      first | exact ⟨rfl, by omega⟩ | omega
  apart := by
    simp only [Driver.loaded, flatMachine, Machine.pageSize]
    omega

/-- Two pages that a process may load and store in, shared or not. -/
def sharedPages : Vma := { twoPages with vmFlags := VM_READ ||| VM_WRITE ||| VM_SHARED }

def privatePages : Vma := { twoPages with vmFlags := VM_READ ||| VM_WRITE }

/-- A file of each minor is opened and mapped, and a process stores an `'A'` in
    the second page of the first mapping. A `'B'` goes to a copy, through a
    private mapping of the same file, and a third mapping of it shows the other
    area. -/
theorem run_coherent_twoMaps :
    ∃ (h : History (Sys Nat Nat Nat) (Step Nat Nat)) (s : Sys Nat Nat Nat),
      Run (step flatMachine) (Sys.loaded 0x10000 0x40000 (fun _ => 0) fun _ => 0) h s ∧
        Coherent flatMachine (fun _ _ => 0) h s ∧ shown 2 h = .mmapVmalloc ∧
        s.phys (0x11 * 4096 + 5) = 65 ∧ s.phys (0x41 * 4096 + 5) = decimalDigit 4101 := by
  rcases exists_run_of_exec (step flatMachine)
    (Sys.loaded 0x10000 0x40000 (fun _ => 0) fun _ => 0)
    [.openFile 0 0, .mmapFile 0 0 sharedPages 3, .mmapFile 3 0 privatePages 3, .openFile 1 1,
      .mmapFile 1 1 sharedPages 3, .store 0 1 5 65, .store 3 1 5 66, .mmapFile 2 0 sharedPages 3]
    (fun h s => EveryStep (fun _ _ l => InPages l) h ∧ shown 2 h = .mmapVmalloc ∧
      s.driver.kmallocArea = 0x10000 ∧ s.driver.vmallocPtr = 0x40000 ∧
      content flatMachine (fun _ _ => 0) h .mmapKmalloc 4101 = 65 ∧
      content flatMachine (fun _ _ => 0) h .mmapVmalloc 4101 = decimalDigit 4101)
    (by decide) with ⟨h, s, hr, hp⟩
  rcases of_decide_eq_true hp with ⟨hpages, hshown, hkmalloc, hvmalloc, hstored, hdigit⟩
  have hcoherent := run_coherent (flatMachine_frames _) hr hpages
  refine ⟨h, s, hr, hcoherent, hshown, ?_, ?_⟩
  · have hplace : place flatMachine.pageSize (areaFrames flatMachine s.driver .mmapKmalloc) 4101 =
        0x11 * 4096 + 5 := by
      simp only [place, areaFrames, hkmalloc]
      decide
    rw [← hplace, hcoherent.memory .mmapKmalloc 4101 (by decide), hstored]
  · have hplace : place flatMachine.pageSize (areaFrames flatMachine s.driver .mmapVmalloc) 4101 =
        0x41 * 4096 + 5 := by
      simp only [place, areaFrames, hvmalloc]
      decide
    rw [← hplace, hcoherent.memory .mmapVmalloc 4101 (by decide), hdigit]

end Coherence

end Mmap

end KernelModules
