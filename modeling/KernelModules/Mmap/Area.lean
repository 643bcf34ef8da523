import KernelModules.Mmap.Fill
import KernelModules.Mmap.Mapping
import KernelModules.Mmap.Proc

/-!
# The Area Inside its Block

`mmap_kmalloc_init_module` allocates `LEN` bytes and two pages, and puts
`kmalloc_area` at the first page that begins in the block. What open, release
and the read function of the `/proc` entry do with the area is done with
addresses: the loops over its pages compare `virt_addr` with the end of the
area, and everything else is at an offset from `kmalloc_area`.

The addresses are words here. The block may lie anywhere, also at the very end
of the address space. The room that the block has behind its area keeps the
end of the area from wrapping around, so that the comparison of addresses
tells where the area ends (`kmallocArea_inside`). With the same addresses the
loops of the driver do the same (`testMmapOpen_eq`).

## Main definitions

* `kmallocArea`: `kmalloc_area`.
* `virtAddrLoop`: The loop over the pages of an area, with the pages visited.
* `testMmapOpenArea`, `testMmapReleaseArea`, `procReads`: What open, release
  and the read function do with an area.
* `InKmallocBlock`: An address of the block.
* `InsideBlock`: The area and everything done with it is inside the block.

## Theorems

* `virtAddrLoop_two`: The loop over the pages ends after two of them.
* `testMmapOpenArea_filled`: What open does with an area.
* `fillGroup_spec`, `fillLoop_spec`: The loops that fill an area.
* `testMmapOpen_eq`, `procContent_eq`: Open and the read function, with words
  and with numbers.
* `procContent_open`: What the read function hands on after an open.
* `kmallocArea_inside`: The area is inside its block.
-/

namespace KernelModules

namespace Mmap

open Kernel Lib

/-- `PAGE_SIZE` on x86. -/
def PAGE_SIZE : Nat := 4096

/-- `(kmalloc_ptr + PAGE_SIZE - 1) & PAGE_MASK`. -/
def kmallocArea (kmallocPtr : BitVec 64) : BitVec 64 :=
  (kmallocPtr + BitVec.ofNat 64 PAGE_SIZE - 1) &&& ~~~(BitVec.ofNat 64 PAGE_SIZE - 1)

/-- `virt_addr`, and the pages that were looked up at it so far. -/
structure PageWalk where
  virtAddr : BitVec 64
  visited : List (BitVec 64)
  deriving DecidableEq

/-- `for (virt_addr = area; virt_addr < area + 2 * PAGE_SIZE;
    virt_addr += PAGE_SIZE)`. -/
def virtAddrLoop (fuel pageSize : Nat) (area : BitVec 64) : Option PageWalk :=
  whileLoop (fun s => decide (s.virtAddr < area + 2 * BitVec.ofNat 64 pageSize))
    (fun s => some
      { virtAddr := s.virtAddr + BitVec.ofNat 64 pageSize
        visited := s.visited ++ [s.virtAddr] })
    fuel { virtAddr := area, visited := [] }

/-- How the loop ends: behind the two pages of the area. -/
def PageWalk.two (pageSize : Nat) (area : BitVec 64) : PageWalk :=
  { virtAddr := area + 2 * BitVec.ofNat 64 pageSize
    visited := [area, area + BitVec.ofNat 64 pageSize] }

/-- What `test_mmap_open` does with an area: the loop over its pages, and the
    fill. -/
def testMmapOpenArea (fuel pageSize : Nat) (area : BitVec 64) (j : BitVec 32) (m : Memory) :
    Option (PageWalk × Memory) :=
  (virtAddrLoop fuel pageSize area).bind fun walk =>
    (testMmapOpenFill fuel pageSize area j m).map fun m => (walk, m)

/-- The loop of `test_mmap_release`. -/
def testMmapReleaseArea (fuel pageSize : Nat) (area : BitVec 64) : Option PageWalk :=
  virtAddrLoop fuel pageSize area

/-- The addresses that `test_mmap_proc_read` copies from. -/
def procReads (pageSize : Nat) (area : BitVec 64) : List (BitVec 64) :=
  (List.range (2 * pageSize)).map fun k => area + BitVec.ofNat 64 k

/-- An address of the block of `LEN + 2 * PAGE_SIZE` bytes. -/
def InKmallocBlock (kmallocPtr : BitVec 64) (a : Nat) : Prop :=
  kmallocPtr.toNat ≤ a ∧ a < kmallocPtr.toNat + (LEN + 2 * PAGE_SIZE)

section Pages

variable {pageSize fuel : Nat} {area : BitVec 64}

/-- The end of an area that does not wrap around. -/
theorem toNat_areaEnd (hfits : area.toNat + 2 * pageSize < 2 ^ 64) :
    (area + 2 * BitVec.ofNat 64 pageSize).toNat = area.toNat + 2 * pageSize := by
  rw [two_mul_pageSize, BitVec.toNat_add, BitVec.toNat_ofNat]
  omega

/-- The second page of an area that does not wrap around. -/
theorem toNat_secondPage (hfits : area.toNat + 2 * pageSize < 2 ^ 64) :
    (area + BitVec.ofNat 64 pageSize).toNat = area.toNat + pageSize := by
  rw [BitVec.toNat_add, BitVec.toNat_ofNat]
  omega

/-- The loop over the pages visits two of them and stops at the end of the
    area. -/
theorem virtAddrLoop_two (hpos : 0 < pageSize) (hfits : area.toNat + 2 * pageSize < 2 ^ 64)
    (hfuel : 2 < fuel) :
    virtAddrLoop fuel pageSize area = some (.two pageSize area) := by
  have hend := toNat_areaEnd hfits
  have hpage : (BitVec.ofNat 64 pageSize).toNat = pageSize := by
    rw [BitVec.toNat_ofNat]
    omega
  have hsecond := toNat_secondPage hfits
  have hthird : area + BitVec.ofNat 64 pageSize + BitVec.ofNat 64 pageSize =
      area + 2 * BitVec.ofNat 64 pageSize := by
    refine BitVec.eq_of_toNat_eq ?_
    rw [BitVec.toNat_add, hsecond, hpage, hend]
    omega
  have hfirst : area < area + 2 * BitVec.ofNat 64 pageSize := by
    rw [BitVec.lt_def, hend]
    omega
  have hnext : area + BitVec.ofNat 64 pageSize < area + 2 * BitVec.ofNat 64 pageSize := by
    rw [BitVec.lt_def, hend, hsecond]
    omega
  -- Two rounds and the test that ends the loop.
  rcases Nat.exists_eq_add_of_le' hfuel with ⟨n, rfl⟩
  show whileLoop _ _ (n + 1 + 1 + 1) _ = _
  rw [whileLoop, if_pos (decide_eq_true hfirst), Option.bind_some, whileLoop,
    if_pos (decide_eq_true hnext), Option.bind_some, whileLoop, if_neg]
  · simp only [List.nil_append, List.cons_append, hthird, PageWalk.two]
  · simp only [hthird, decide_eq_true_eq]
    exact BitVec.lt_irrefl _

/-- Open visits the two pages, and leaves the digits in the area. -/
theorem testMmapOpenArea_filled {j : BitVec 32} {m : Memory} (hpos : 0 < pageSize)
    (hfits : area.toNat + 2 * pageSize < 2 ^ 64) (hsize : 2 * pageSize < 2 ^ 31)
    (hfuel : 2 * pageSize + 10 < fuel) (hwritten : m.written = []) :
    ∃ r, testMmapOpenArea fuel pageSize area j m = some (.two pageSize area, r) ∧
      Filled area m.byte (2 * pageSize) (2 * pageSize) r := by
  rcases testMmapOpenFill_filled area j hfuel hsize hwritten with ⟨r, hr, hf⟩
  refine ⟨r, ?_, hf⟩
  rw [testMmapOpenArea, virtAddrLoop_two hpos hfits (by omega), Option.bind_some, hr,
    Option.map_some]

end Pages

section Fill

variable {stop : Nat}

/-- The byte of round `10 - (rem + 1)` is the digit of its index. -/
theorem digit_of_rem {rem i : Nat} (hrem : rem < 10) (hgroup : (i + (rem + 1)) % 10 = 0) :
    48 + (10 - (rem + 1)).toUInt8 = decimalDigit i := by
  have hdigit : ∀ d < 10, 48 + d.toUInt8 = (48 + d).toUInt8 := by decide
  have hmod : 10 - (rem + 1) = i % 10 := by omega
  rw [hmod, hdigit _ (Nat.mod_lt i (by decide)), decimalDigit]

/-- The inner loop stores the digits up to the next multiple of ten, or to the
    end of the area. -/
theorem fillGroup_spec (area rem : Nat) : ∀ (i : Nat) (mem : Nat → UInt8), rem ≤ 10 → i ≤ stop →
    (i + rem) % 10 = 0 → (fillGroup area stop rem i mem).1 = min (i + rem) stop ∧
      ∀ a, (fillGroup area stop rem i mem).2 a =
        if area + i ≤ a ∧ a < area + min (i + rem) stop then decimalDigit (a - area)
        else mem a := by
  induction rem with
  | zero =>
      intro i mem _ hi _
      refine ⟨?_, fun a => ?_⟩
      · rw [fillGroup]
        omega
      · rw [fillGroup, if_neg (by omega)]
  | succ rem ih =>
      intro i mem hrem hi hgroup
      by_cases hlt : i < stop
      · rcases ih (i + 1) (Function.update mem (area + i) (decimalDigit i)) (by omega) hlt
          (by rw [← hgroup]; congr 1; omega) with ⟨hnext, hbytes⟩
        rw [fillGroup, if_pos hlt, digit_of_rem (by omega) hgroup]
        refine ⟨by rw [hnext]; omega, fun a => ?_⟩
        rw [hbytes]
        by_cases ha : a = area + i
        · rw [ha, if_neg (by omega), if_pos (by omega), Function.update_self,
            Nat.add_sub_cancel_left]
        · rw [Function.update_of_ne ha]
          by_cases hin : area + i ≤ a ∧ a < area + min (i + (rem + 1)) stop
          · rw [if_pos hin, if_pos (by omega)]
          · rw [if_neg hin, if_neg (by omega)]
      · rw [fillGroup, if_neg hlt]
        exact ⟨by omega, fun a => by rw [if_neg (by omega)]⟩

/-- The outer loop stores the digits from its index on to the end of the
    area. -/
theorem fillLoop_spec (area fuel : Nat) : ∀ (i : Nat) (mem : Nat → UInt8),
    (i % 10 = 0 ∨ i = stop) → i ≤ stop → stop ≤ i + fuel → ∀ a,
      fillLoop area stop fuel i mem a =
        if area + i ≤ a ∧ a < area + stop then decimalDigit (a - area) else mem a := by
  induction fuel with
  | zero => intro i mem _ _ hfuel a; rw [fillLoop, if_neg (by omega)]
  | succ fuel ih =>
      intro i mem hgroup hi hfuel a
      by_cases hlt : i < stop
      · rcases fillGroup_spec area 10 i mem (Nat.le_refl 10) hi (by omega)
          with ⟨hnext, hbytes⟩
        rw [fillLoop, if_pos hlt]
        simp only [hnext]
        rw [ih _ _ (by omega) (by omega) (by omega), hbytes]
        by_cases hin : area + i ≤ a ∧ a < area + stop
        · rw [if_pos hin]
          by_cases hnow : a < area + min (i + 10) stop
          · rw [if_neg (by omega), if_pos ⟨hin.1, hnow⟩]
          · rw [if_pos (by omega)]
        · rw [if_neg hin, if_neg (by omega), if_neg (by omega)]
      · rw [fillLoop, if_neg hlt, if_neg (by omega)]

end Fill

section Open

variable {π : Type*} [DecidableEq π] {M : Machine π} {d : Driver π} {minor fuel : Nat}
  {area : BitVec 64} {j : BitVec 32} {m : Memory}

/-- Open of a supported minor, with the addresses as words and as numbers: the
    pages it marks, where it leaves `virt_addr`, and the bytes it leaves. -/
theorem testMmapOpen_eq (hm : Supported minor) (harea : d.area minor = area.toNat)
    (hfits : area.toNat + 2 * M.pageSize < 2 ^ 64) (hsize : 2 * M.pageSize < 2 ^ 31)
    (hfuel : 2 * M.pageSize + 10 < fuel) (hbytes : ∀ a, m.byte a = d.mem a.toNat)
    (hwritten : m.written = []) :
    ∃ walk r, testMmapOpenArea fuel M.pageSize area j m = some (walk, r) ∧
      (testMmapOpen M minor d).2.virtAddr = walk.virtAddr.toNat ∧
      (testMmapOpen M minor d).2.reserved = walk.visited.foldl
        (fun flags v => Function.update flags (toPage M minor v.toNat) true) d.reserved ∧
      ∀ a, r.byte a = (testMmapOpen M minor d).2.mem a.toNat := by
  have hpos := M.pageSize_pos
  -- The same three things on both sides: the end of the loop, the flags of two
  -- pages, and the digits.
  rcases testMmapOpenArea_filled hpos hfits hsize hfuel hwritten with ⟨r, hr, hf⟩
  refine ⟨.two M.pageSize area, r, hr, ?_, ?_, ?_⟩
  · simp only [testMmapOpen, select_supported hm, markPages_eq, harea, PageWalk.two,
      toNat_areaEnd hfits]
  · simp only [testMmapOpen, select_supported hm, markPages_eq, harea, PageWalk.two,
      List.foldl_cons, List.foldl_nil, toNat_secondPage hfits]
  · intro a
    simp only [testMmapOpen, select_supported hm, harea]
    rw [fillLoop_spec _ _ 0 _ (.inl rfl) (Nat.zero_le _) (by omega), Nat.add_zero]
    by_cases hin : area.toNat ≤ a.toNat ∧ a.toNat < area.toNat + 2 * M.pageSize
    · -- Inside the area both have the digit of the offset.
      have hoff : (a - area).toNat = a.toNat - area.toNat := by bv_omega
      rw [if_pos hin, ← hoff, ← hf.digits (a - area).toNat (by omega), offset_toNat_sub]
    · have hout : 2 * M.pageSize ≤ (a - area).toNat := by bv_omega
      rw [if_neg hin, hf.frame a hout, memsetZ, if_neg hin, hbytes]

end Open

section Read

variable {π : Type*} {M : Machine π} {d : Driver π} {area : BitVec 64} {m : Memory}

/-- The read function hands on the bytes at its addresses, in order. -/
theorem procContent_eq (harea : d.kmallocArea = area.toNat)
    (hfits : area.toNat + 2 * M.pageSize < 2 ^ 64) :
    procContent M d = (procReads M.pageSize area).map fun a => d.mem a.toNat := by
  rw [procContent, procReads, List.map_map]
  refine List.map_congr_left fun k hk => ?_
  rw [List.mem_range] at hk
  have haddr : (area + BitVec.ofNat 64 k).toNat = area.toNat + k := by
    rw [BitVec.toNat_add, BitVec.toNat_ofNat]
    omega
  rw [Function.comp_apply, haddr, harea]

/-- With the same bytes in memory, it hands on what is loaded from the area. -/
theorem procContent_loads (harea : d.kmallocArea = area.toNat)
    (hfits : area.toNat + 2 * M.pageSize < 2 ^ 64) (hbytes : ∀ a, m.byte a = d.mem a.toNat) :
    procContent M d = m.loads area (2 * M.pageSize) := by
  rw [procContent_eq harea hfits, procReads, List.map_map]
  exact List.map_congr_left fun k _ => (hbytes _).symm

/-- After an open of the first minor these are the digits. -/
theorem procContent_open [DecidableEq π] (harea : d.kmallocArea = area.toNat)
    (hfits : area.toNat + 2 * M.pageSize < 2 ^ 64) (hsize : 2 * M.pageSize < 2 ^ 31) :
    procContent M (testMmapOpen M MINOR_NUMBER_0 d).2 =
      (List.range (2 * M.pageSize)).map decimalDigit := by
  have hfuel : 2 * M.pageSize + 10 < 2 * M.pageSize + 11 := Nat.lt_succ_self _
  have hmemory : ∃ m : Memory, (∀ a, m.byte a = d.mem a.toNat) ∧ m.written = [] :=
    ⟨{ byte := fun a => d.mem a.toNat, written := [] }, fun _ => rfl, rfl⟩
  rcases hmemory with ⟨m, hmem, hwritten⟩
  rcases testMmapOpen_eq (j := 0) (.inl rfl) harea hfits hsize hfuel hmem hwritten
    with ⟨walk, r, hr, -, -, hbytes⟩
  rcases testMmapOpenArea_filled M.pageSize_pos hfits hsize hfuel hwritten with ⟨r', hr', hf⟩
  rw [hr, Option.some.injEq, Prod.mk.injEq] at hr'
  rw [← hr'.2] at hf
  have hloads := procContent_loads (d := (testMmapOpen M MINOR_NUMBER_0 d).2) harea hfits hbytes
  rw [hloads, hf.loads]

end Read

section Block

variable {ptr : BitVec 64}

/-- `kmalloc_area` is the first multiple of the page size from `kmalloc_ptr` on. -/
theorem toNat_kmallocArea (hfit : ptr.toNat + (LEN + 2 * PAGE_SIZE) ≤ 2 ^ 64) :
    (kmallocArea ptr).toNat = alignUp PAGE_SIZE ptr.toNat := by
  have hroom : ptr.toNat + PAGE_SIZE ≤ 2 ^ 64 := by omega
  have hptr : BitVec.ofNat 64 ptr.toNat = ptr := by rw [BitVec.ofNat_toNat, BitVec.setWidth_eq]
  rw [show PAGE_SIZE = 2 ^ 12 from rfl] at hroom
  have halign := toNat_alignUp hroom
  rw [hptr] at halign
  exact halign

/-- The module's `kmalloc_area` on a machine with these pages. -/
theorem kmallocAreaOf_eq_kmallocArea {π : Type*} {M : Machine π} (hM : M.pageSize = PAGE_SIZE)
    (ptr : BitVec 64) : kmallocAreaOf M ptr.toNat = (kmallocArea ptr).toNat := by
  rw [kmallocAreaOf, kmallocArea, hM, BitVec.ofNat_toNat, BitVec.setWidth_eq]

/-- The area begins at a page and in the block, it is inside with `LEN` bytes
    and with two pages, and so is every byte that open stores, every byte that
    the read function copies and every page that the loops of open and release
    visit. The loops end after the two pages of the area. -/
structure InsideBlock (ptr : BitVec 64) : Prop where
  aligned : PAGE_SIZE ∣ (kmallocArea ptr).toNat
  start : ptr.toNat ≤ (kmallocArea ptr).toNat
  len : (kmallocArea ptr).toNat + LEN ≤ ptr.toNat + (LEN + 2 * PAGE_SIZE)
  pages : (kmallocArea ptr).toNat + 2 * PAGE_SIZE ≤ ptr.toNat + (LEN + 2 * PAGE_SIZE)
  opened : ∀ fuel j before, 2 * PAGE_SIZE + 10 < fuel → ∃ walk m,
    testMmapOpenArea fuel PAGE_SIZE (kmallocArea ptr) j { byte := before, written := [] } =
        some (walk, m) ∧
      walk.visited = [kmallocArea ptr, kmallocArea ptr + BitVec.ofNat 64 PAGE_SIZE] ∧
      (∀ v ∈ walk.visited, ∀ k < PAGE_SIZE, InKmallocBlock ptr (v.toNat + k)) ∧
      ∀ a ∈ m.written, InKmallocBlock ptr a.toNat
  released : ∀ fuel, 2 < fuel → ∃ walk,
    testMmapReleaseArea fuel PAGE_SIZE (kmallocArea ptr) = some walk ∧
      walk.visited = [kmallocArea ptr, kmallocArea ptr + BitVec.ofNat 64 PAGE_SIZE] ∧
      ∀ v ∈ walk.visited, ∀ k < PAGE_SIZE, InKmallocBlock ptr (v.toNat + k)
  read : ∀ a ∈ procReads PAGE_SIZE (kmallocArea ptr), InKmallocBlock ptr a.toNat

/-- The area is as far behind the block's start as the next page, which leaves
    room for everything. -/
theorem kmallocArea_bounds (hfit : ptr.toNat + (LEN + 2 * PAGE_SIZE) ≤ 2 ^ 64) :
    ptr.toNat ≤ (kmallocArea ptr).toNat ∧ (kmallocArea ptr).toNat < ptr.toNat + PAGE_SIZE := by
  have hpos : 0 < PAGE_SIZE := by decide
  have hrest := Nat.mod_lt (PAGE_SIZE - ptr.toNat % PAGE_SIZE) hpos
  -- What is added to reach the next page is less than one.
  rw [toNat_kmallocArea hfit, alignUp_eq_add hpos]
  omega

/-- An address at an offset in the two pages of the area is in the block. -/
theorem inKmallocBlock_of_offset (hfit : ptr.toNat + (LEN + 2 * PAGE_SIZE) ≤ 2 ^ 64)
    {a : BitVec 64} (ha : (a - kmallocArea ptr).toNat < 2 * PAGE_SIZE) :
    InKmallocBlock ptr a.toNat := by
  have hbounds := kmallocArea_bounds hfit
  rw [InKmallocBlock]
  rw [PAGE_SIZE] at hbounds hfit ha ⊢
  rw [LEN] at hfit ⊢
  bv_omega

/-- The two pages of the area are in the block. -/
theorem inKmallocBlock_of_page (hfit : ptr.toNat + (LEN + 2 * PAGE_SIZE) ≤ 2 ^ 64)
    {v : BitVec 64} {k : Nat} (hk : k < PAGE_SIZE)
    (hv : v ∈ [kmallocArea ptr, kmallocArea ptr + BitVec.ofNat 64 PAGE_SIZE]) :
    InKmallocBlock ptr (v.toNat + k) := by
  have hbounds := kmallocArea_bounds hfit
  rw [InKmallocBlock]
  rw [PAGE_SIZE] at hbounds hfit hk hv ⊢
  rw [LEN] at hfit ⊢
  rcases List.mem_pair.mp hv with rfl | rfl
  · omega
  · bv_omega

/-- The aligned area fits, wherever the block is. -/
theorem kmallocArea_inside (hfit : ptr.toNat + (LEN + 2 * PAGE_SIZE) ≤ 2 ^ 64) :
    InsideBlock ptr := by
  have hpos : 0 < PAGE_SIZE := by decide
  have hbounds := kmallocArea_bounds hfit
  have hlen : LEN = 4 * PAGE_SIZE := rfl
  -- `LEN` is more than the pages, so the end of the area does not wrap around.
  have hfits : (kmallocArea ptr).toNat + 2 * PAGE_SIZE < 2 ^ 64 := by omega
  refine ⟨?_, hbounds.1, by omega, by omega, ?_, ?_, ?_⟩
  · rw [toNat_kmallocArea hfit]
    exact dvd_alignUp PAGE_SIZE ptr.toNat
  · intro fuel j before hfuel
    rcases testMmapOpenArea_filled (j := j) (m := ⟨before, []⟩) hpos hfits (by decide) hfuel rfl
      with ⟨r, hr, hf⟩
    refine ⟨.two PAGE_SIZE (kmallocArea ptr), r, hr, rfl, ?_, ?_⟩
    · intro v hv k hk
      exact inKmallocBlock_of_page hfit hk hv
    · intro a ha
      exact inKmallocBlock_of_offset hfit (hf.inside a ha)
  · intro fuel hfuel
    refine ⟨.two PAGE_SIZE (kmallocArea ptr), virtAddrLoop_two hpos hfits hfuel, rfl, ?_⟩
    intro v hv k hk
    exact inKmallocBlock_of_page hfit hk hv
  · intro a ha
    rcases List.mem_map.mp ha with ⟨k, hk, rfl⟩
    rw [List.mem_range] at hk
    refine inKmallocBlock_of_offset hfit ?_
    rw [toNat_offset_sub _ (by omega)]
    exact hk

/-- A block that ends with the last bytes of the address space but sixteen. -/
theorem kmallocArea_inside_top : kmallocArea 0xFFFFFFFFFFFF9FF0 = 0xFFFFFFFFFFFFA000 ∧
    InsideBlock 0xFFFFFFFFFFFF9FF0 :=
  ⟨by decide, kmallocArea_inside (by decide)⟩

end Block

end Mmap

end KernelModules
