import KernelModules.Lib.Align
import KernelModules.Mmap.Files

/-!
# What the Handlers Map

Both mmap handlers of `mmap_kmalloc.c` check the length of a mapping against
the area they map, and both checks miss.

`mmap_kmalloc` restricts the length to the size of the device memory, and
multiplies the bytes of `LEN` with the bytes of a page. The block it maps from
has `LEN` bytes and two pages. A longer mapping is accepted, and what it shows
behind the block is the memory of others.

`mmap_vmalloc` keeps the length in an `unsigned int`, so that it knows it
modulo 2^32 only. The check, the loop and the end of the loop all agree on
that number. The mapping itself may be longer by a multiple of 2^32, and then
the handler reports a success for pages it has not mapped.

## Main definitions

* `kmallocAreaOf`: `kmalloc_area`, from the block that `kmalloc` gave.
* `DirectMap`: Physical addresses of the memory that `kmalloc` gives.
* `InBlock`: A mapped page is a page of the block.
* `vmallocPage`: The call that maps a page of the vmalloc area.
* `MapsAll`: What `mmap_vmalloc` returns is true.

## Theorems

* `mmapKmalloc_inBlock_iff`: When a mapping stays inside the block.
* `mmapKmalloc_foreign`: One that does not.
* `vmallocLoop_maps`, `vmallocLoop_fails`: What the loop of `mmap_vmalloc` does.
* `mmapVmalloc_cases`: The three outcomes of `mmap_vmalloc`.
* `mmapVmalloc_mapsAll_iff`: When it maps all of what it accepts.
* `mmapVmalloc_nothing`: A mapping it accepts and does not map.
-/

namespace KernelModules

namespace Mmap

open Kernel Lib

variable {π : Type*}

/-- The length of a mapping. -/
def Vma.length (vma : Vma) : Nat := (vma.vmEnd - vma.vmStart).toNat

/-- A mapping of whole pages. -/
structure Vma.Aligned (M : Machine π) (vma : Vma) : Prop where
  start : M.pageSize ∣ vma.vmStart.toNat
  stop : M.pageSize ∣ vma.vmEnd.toNat
  nonempty : vma.vmStart.toNat < vma.vmEnd.toNat

/-- The mapping with the flags that both handlers set. -/
def Vma.marked (vma : Vma) : Vma :=
  { vma with vmFlags := vma.vmFlags ||| (VM_DONTEXPAND ||| VM_DONTDUMP) }

section Length

variable {M : Machine π} {vma : Vma}

theorem Vma.Aligned.length_eq (hvma : vma.Aligned M) :
    vma.length = vma.vmEnd.toNat - vma.vmStart.toNat := by
  have hnonempty := hvma.nonempty
  unfold Vma.length
  bv_omega

theorem Vma.Aligned.dvd_length (hvma : vma.Aligned M) : M.pageSize ∣ vma.length := by
  rw [hvma.length_eq]
  exact Nat.dvd_sub hvma.stop hvma.start

theorem Vma.Aligned.length_pos (hvma : vma.Aligned M) : 0 < vma.length := by
  have hnonempty := hvma.nonempty
  rw [hvma.length_eq]
  omega

end Length

section Kmalloc

/-- `kmalloc_area`: the block's start, rounded up to a page. -/
def kmallocAreaOf (M : Machine π) (kmallocPtr : Nat) : Nat :=
  ((BitVec.ofNat 64 kmallocPtr + BitVec.ofNat 64 M.pageSize - 1) &&&
    ~~~(BitVec.ofNat 64 M.pageSize - 1)).toNat

/-- The size of the block that the module allocates. -/
def kmallocSize (M : Machine π) : Nat := LEN + 2 * M.pageSize

/-- The memory from `offset` on is mapped one to one to the physical memory,
    page by page. -/
structure DirectMap (M : Machine π) (offset : Nat) : Prop where
  aligned : M.pageSize ∣ offset
  virtToPhys : ∀ v, offset ≤ v → M.virtToPhys v = v - offset

/-- A block that `kmalloc` may return for this size. -/
structure Block (offset size ptr : Nat) : Prop where
  direct : offset ≤ ptr
  fits : ptr + size ≤ 2 ^ 64

/-- Page `i` of the call shows the page `i` behind `kmalloc_area`, and that
    page lies inside the block. -/
def InBlock (M : Machine π) (kmallocPtr area : Nat) (r : Remap) (i : Nat) : Prop :=
  r.pfn + i = M.virtToPhys (area + i * M.pageSize) >>> M.pageShift ∧
    kmallocPtr ≤ area + i * M.pageSize ∧
    area + i * M.pageSize + M.pageSize ≤ kmallocPtr + kmallocSize M

/-- `remap_pfn_range` of the frames from `kmalloc_area` on fails. -/
def RemapFails (M : Machine π) (area : Nat) (vma : Vma) : Prop :=
  M.remapPfnRange vma.marked
    { start := vma.vmStart, pfn := M.virtToPhys area >>> M.pageShift,
      size := vma.vmEnd - vma.vmStart } ≠ 0

variable {M : Machine π} {d : Driver π} {vma : Vma} {offset ptr : Nat}

/-- Where `kmalloc_area` is: as far behind the block's start as the next page. -/
theorem kmallocAreaOf_eq (hblock : Block offset (kmallocSize M) ptr) :
    kmallocAreaOf M ptr = alignUp M.pageSize ptr := by
  have hfits := hblock.fits
  unfold kmallocSize at hfits
  unfold kmallocAreaOf
  rw [Machine.pageSize, Nat.one_shiftLeft] at hfits ⊢
  exact toNat_alignUp (by omega)

/-- The frames from the one of `kmalloc_area` on are the frames of the pages
    behind it. -/
theorem frame_add (hmap : DirectMap M offset) {area : Nat} (hoffset : offset ≤ area) (i : Nat) :
    M.virtToPhys area >>> M.pageShift + i =
      M.virtToPhys (area + i * M.pageSize) >>> M.pageShift := by
  have hpos := M.pageSize_pos
  rw [hmap.virtToPhys area hoffset, hmap.virtToPhys _ (by omega),
    show area + i * M.pageSize - offset = area - offset + i * M.pageSize by omega]
  rw [Machine.pageSize, Nat.one_shiftLeft] at hpos ⊢
  rw [Nat.shiftRight_eq_div_pow, Nat.shiftRight_eq_div_pow, Nat.add_mul_div_right _ _ hpos]

/-- The pages of a mapping lie inside the block exactly if the mapping with the
    way to the first page does. -/
theorem pages_inBlock_iff (hmap : DirectMap M offset)
    (hblock : Block offset (kmallocSize M) ptr) (hvma : vma.Aligned M) {r : Remap}
    (hr : r.pfn = M.virtToPhys (kmallocAreaOf M ptr) >>> M.pageShift) :
    (∀ i < vma.length / M.pageSize, InBlock M ptr (kmallocAreaOf M ptr) r i) ↔
      (M.pageSize - ptr % M.pageSize) % M.pageSize + vma.length ≤ kmallocSize M := by
  have hpos := M.pageSize_pos
  have hlen := hvma.length_pos
  have hdirect := hblock.direct
  have harea := alignUp_eq_add (x := ptr) hpos
  rw [← kmallocAreaOf_eq hblock] at harea
  rcases hvma.dvd_length with ⟨n, hn⟩
  rw [hn, Nat.mul_div_cancel_left n hpos]
  have hn0 : n ≠ 0 := by
    rintro rfl
    rw [hn] at hlen
    exact Nat.lt_irrefl 0 hlen
  constructor
  · -- The last page reaches as far as the mapping.
    intro hall
    have hlast := (hall (n - 1) (by omega)).2.2
    rw [Nat.sub_mul, Nat.one_mul] at hlast
    have := Nat.le_mul_of_pos_left M.pageSize (Nat.pos_of_ne_zero hn0)
    rw [Nat.mul_comm M.pageSize n]
    omega
  · intro hfits i hi
    refine ⟨?_, by omega, ?_⟩
    · rw [hr]
      exact frame_add hmap (by omega) i
    · have hpage : i * M.pageSize + M.pageSize ≤ M.pageSize * n := by
        rw [← Nat.succ_mul, Nat.mul_comm]
        exact Nat.mul_le_mul_left M.pageSize hi
      omega

/-- A mapping of the kmalloc area that succeeds shows the pages behind
    `kmalloc_area`, and only pages of the block, exactly if it is no longer
    than what the block has from its first page on. -/
theorem mmapKmalloc_inBlock_iff (hmap : DirectMap M offset)
    (hblock : Block offset (kmallocSize M) ptr) (hvma : vma.Aligned M)
    (hd : d.kmallocArea = kmallocAreaOf M ptr) :
    ((mmapKmalloc M d vma).1 = 0 → ∃ r, (mmapKmalloc M d vma).2.2 = [r] ∧
        r.start = vma.vmStart ∧ r.size = vma.vmEnd - vma.vmStart ∧
        ∀ i < vma.length / M.pageSize, InBlock M ptr (kmallocAreaOf M ptr) r i) ↔
      vma.vmEnd - vma.vmStart > BitVec.ofNat 64 LEN * BitVec.ofNat 64 M.pageSize ∨
        RemapFails M (kmallocAreaOf M ptr) vma ∨
        (M.pageSize - ptr % M.pageSize) % M.pageSize + vma.length ≤ kmallocSize M := by
  unfold mmapKmalloc
  rw [hd]
  by_cases hlong : vma.vmEnd - vma.vmStart > BitVec.ofNat 64 LEN * BitVec.ofNat 64 M.pageSize
  · simp only [if_pos hlong]
    refine iff_of_true (fun h => absurd h (by decide)) (.inl hlong)
  · rw [or_iff_right hlong]
    simp only [if_neg hlong]
    by_cases hfails : RemapFails M (kmallocAreaOf M ptr) vma
    · refine iff_of_true (fun h => ?_) (.inl hfails)
      unfold RemapFails Vma.marked at hfails
      rw [if_pos hfails] at h
      exact absurd h (by decide)
    · rw [or_iff_right hfails]
      unfold RemapFails Vma.marked at hfails
      rw [if_neg hfails]
      constructor
      · intro hall
        rcases hall rfl with ⟨r, hr, -, -, hpages⟩
        rw [List.cons.injEq] at hr
        rw [← pages_inBlock_iff hmap hblock hvma (congrArg Remap.pfn hr.1.symm)]
        exact hpages
      · intro hfits _
        exact ⟨_, rfl, rfl, rfl, (pages_inBlock_iff hmap hblock hvma rfl).mpr hfits⟩

/-- Two pages of a block that starts a little behind a page. -/
theorem mmapKmalloc_inBlock_twoPages :
    let d : Driver Nat := Driver.loaded (kmallocAreaOf flatMachine 0x10010) 0x40000 fun _ => 0
    (mmapKmalloc flatMachine d twoPages).1 = 0 ∧
      ∃ r, (mmapKmalloc flatMachine d twoPages).2.2 = [r] ∧
        ∀ i < twoPages.length / flatMachine.pageSize,
          InBlock flatMachine 0x10010 (kmallocAreaOf flatMachine 0x10010) r i := by
  intro d
  refine ⟨by decide, ?_⟩
  have hd : d.kmallocArea = kmallocAreaOf flatMachine 0x10010 := rfl
  have hmap : DirectMap flatMachine 0 := ⟨Nat.dvd_zero _, fun _ _ => rfl⟩
  have hvma : twoPages.Aligned flatMachine := ⟨by decide, by decide, by decide⟩
  have hblock : Block 0 (kmallocSize flatMachine) 0x10010 := ⟨by decide, by decide⟩
  rcases (mmapKmalloc_inBlock_iff hmap hblock hvma hd).mpr (.inr (.inr (by decide))) rfl with
    ⟨r, hr, -, -, hpages⟩
  exact ⟨r, hr, hpages⟩

/-- Seven pages are accepted, and the seventh is none of the block. -/
theorem mmapKmalloc_foreign :
    let d : Driver Nat := Driver.loaded (kmallocAreaOf flatMachine 0x10000) 0x40000 fun _ => 0
    let vma := { twoPages with vmEnd := 0x7f0000007000 }
    (mmapKmalloc flatMachine d vma).1 = 0 ∧
      ∃ r ∈ (mmapKmalloc flatMachine d vma).2.2, 6 < vma.length / flatMachine.pageSize ∧
        ¬ InBlock flatMachine 0x10000 (kmallocAreaOf flatMachine 0x10000) r 6 := by
  refine ⟨by decide, _, List.mem_singleton.mpr rfl, by decide, fun hin => ?_⟩
  exact absurd hin.2.2 (by decide)

end Kmalloc

section Vmalloc

/-- The call that maps page `i` of an area to page `i` behind `start`. -/
def vmallocPage (M : Machine π) (area : Nat) (start : BitVec 64) (i : Nat) : Remap :=
  { start := start + BitVec.ofNat 64 (i * M.pageSize)
    pfn := M.vmallocToPfn (area + i * M.pageSize)
    size := BitVec.ofNat 64 M.pageSize }

/-- A success means that every page of the mapping is mapped to its page of the
    area, and nothing else is; anything else is an error. -/
def MapsAll (M : Machine π) (d : Driver π) (vma : Vma) (res : Int × Vma × List Remap) : Prop :=
  (res.1 = 0 → vma.length ≤ 2 * M.pageSize ∧
    res.2.2 = (List.range (vma.length / M.pageSize)).map
      (vmallocPage M d.vmallocPtr vma.vmStart)) ∧
  (res.1 ≠ 0 → res.1 < 0)

variable {M : Machine π} {d : Driver π} {vma : Vma}

theorem vmallocPage_succ (area : Nat) (start : BitVec 64) (i : Nat) :
    vmallocPage M (area + M.pageSize) (start + BitVec.ofNat 64 M.pageSize) i =
      vmallocPage M area start (i + 1) := by
  have harea : area + M.pageSize + i * M.pageSize = area + (i + 1) * M.pageSize := by
    rw [Nat.succ_mul]
    omega
  have hstart : start + BitVec.ofNat 64 M.pageSize + BitVec.ofNat 64 (i * M.pageSize) =
      start + BitVec.ofNat 64 ((i + 1) * M.pageSize) := by
    rw [BitVec.add_assoc, ← BitVec.ofNat_add, Nat.succ_mul, Nat.add_comm M.pageSize]
  rw [vmallocPage, vmallocPage, harea, hstart]

/-- The pages of an area from the second one on. -/
theorem vmallocPages_succ (area : Nat) (start : BitVec 64) (k : Nat) :
    (List.range (k + 1)).map (vmallocPage M area start) =
      vmallocPage M area start 0 :: (List.range k).map
        (vmallocPage M (area + M.pageSize) (start + BitVec.ofNat 64 M.pageSize)) := by
  rw [List.range_succ_eq_map, List.map_cons, List.map_map]
  congr 1
  refine List.map_congr_left fun i _ => ?_
  rw [Function.comp_apply, vmallocPage_succ]

/-- A round of the loop, with the length of `k + 1` pages before it and of `k`
    pages behind it. -/
theorem vmallocLoop_round (vma : Vma) (fuel area : Nat) (start : BitVec 64) {k : Nat}
    {length : BitVec 32} (hlength : length.toNat = (k + 1) * M.pageSize) :
    (length - BitVec.ofNat 32 M.pageSize).toNat = k * M.pageSize ∧
      vmallocLoop M vma (fuel + 1) area start length =
        if M.remapPfnRange vma (vmallocPage M area start 0) ≠ 0 then
          some (M.remapPfnRange vma (vmallocPage M area start 0), [vmallocPage M area start 0])
        else
          (vmallocLoop M vma fuel (area + M.pageSize) (start + BitVec.ofNat 64 M.pageSize)
            (length - BitVec.ofNat 32 M.pageSize)).map
              fun r => (r.1, vmallocPage M area start 0 :: r.2) := by
  have hpos := M.pageSize_pos
  have hlt := length.isLt
  have hzero : vmallocPage M area start 0 =
      { start := start, pfn := M.vmallocToPfn area, size := BitVec.ofNat 64 M.pageSize } := by
    rw [vmallocPage, Nat.zero_mul, Nat.add_zero, BitVec.add_zero]
  rw [Nat.succ_mul] at hlength
  have hgt : length > 0 := by
    refine BitVec.lt_def.mpr ?_
    show 0 < length.toNat
    omega
  refine ⟨?_, ?_⟩
  · rw [BitVec.toNat_sub_of_le, BitVec.toNat_ofNat, Nat.mod_eq_of_lt (by omega)]
    · omega
    · rw [BitVec.le_def, BitVec.toNat_ofNat, Nat.mod_eq_of_lt (by omega)]
      omega
  · rw [vmallocLoop, if_pos hgt, hzero]

/-- The loop maps the pages in order, if no call fails. -/
theorem vmallocLoop_maps (k : Nat) : ∀ (fuel area : Nat) (start : BitVec 64) (length : BitVec 32),
    k < fuel → length.toNat = k * M.pageSize →
    (∀ i < k, M.remapPfnRange vma (vmallocPage M area start i) = 0) →
      vmallocLoop M vma fuel area start length =
        some (0, (List.range k).map (vmallocPage M area start)) := by
  -- Each round moves the area, the user's address and the length by a page.
  induction k with
  | zero =>
      intro fuel area start length hfuel hlength _
      have hzero : ¬ length > 0 := by
        intro hgt
        have := BitVec.lt_def.mp hgt
        omega
      rcases Nat.exists_eq_succ_of_ne_zero (Nat.ne_of_gt hfuel) with ⟨fuel, rfl⟩
      rw [vmallocLoop, if_neg hzero, List.range_zero, List.map_nil]
  | succ k ih =>
      intro fuel area start length hfuel hlength hmaps
      rcases Nat.exists_eq_succ_of_ne_zero (Nat.ne_of_gt (Nat.zero_lt_of_lt hfuel)) with
        ⟨fuel, rfl⟩
      rcases vmallocLoop_round vma fuel area start hlength with ⟨hrest, hround⟩
      rw [hround, if_neg (not_not.mpr (hmaps 0 (by omega))),
        ih fuel _ _ _ (by omega) hrest, Option.map_some, vmallocPages_succ]
      intro i hi
      rw [vmallocPage_succ]
      exact hmaps (i + 1) (by omega)

/-- The loop returns the result of the first call that fails. -/
theorem vmallocLoop_fails (k : Nat) : ∀ (fuel area : Nat) (start : BitVec 64) (length : BitVec 32),
    k < fuel → length.toNat = k * M.pageSize →
    (∃ i < k, M.remapPfnRange vma (vmallocPage M area start i) ≠ 0) →
      ∃ r calls, M.remapPfnRange vma r ≠ 0 ∧
        vmallocLoop M vma fuel area start length = some (M.remapPfnRange vma r, calls) := by
  induction k with
  | zero =>
      rintro fuel area start length - - ⟨i, hi, -⟩
      exact absurd hi (Nat.not_lt_zero i)
  | succ k ih =>
      intro fuel area start length hfuel hlength hfails
      rcases Nat.exists_eq_succ_of_ne_zero (Nat.ne_of_gt (Nat.zero_lt_of_lt hfuel)) with
        ⟨fuel, rfl⟩
      rcases vmallocLoop_round vma fuel area start hlength with ⟨hrest, hround⟩
      rw [hround]
      by_cases hfirst : M.remapPfnRange vma (vmallocPage M area start 0) ≠ 0
      · rw [if_pos hfirst]
        exact ⟨_, _, hfirst, rfl⟩
      · -- Then a later page fails, which is a page of the rest.
        rw [if_neg hfirst]
        rcases hfails with ⟨i, hi, hfail⟩
        have hi0 : i ≠ 0 := by
          rintro rfl
          exact hfirst hfail
        rcases Nat.exists_eq_succ_of_ne_zero hi0 with ⟨i, rfl⟩
        rw [← vmallocPage_succ] at hfail
        rcases ih fuel _ _ _ (by omega) hrest ⟨i, by omega, hfail⟩ with ⟨r, calls, hr, hloop⟩
        exact ⟨r, _, hr, by rw [hloop, Option.map_some]⟩

/-- What the handler knows of the length. -/
theorem low_dvd (hvma : vma.Aligned M) : M.pageSize ∣ vma.length % 2 ^ 32 := by
  have hdvd := hvma.dvd_length
  rw [Machine.pageSize, Nat.one_shiftLeft] at hdvd ⊢
  by_cases hshift : M.pageShift ≤ 32
  · exact (Nat.dvd_mod_iff (Nat.pow_dvd_pow 2 hshift)).mpr hdvd
  · -- Nothing is left of the length of such pages.
    have h32 : 2 ^ 32 ∣ vma.length :=
      Nat.dvd_trans (Nat.pow_dvd_pow 2 (Nat.le_of_not_le hshift)) hdvd
    rw [Nat.mod_eq_zero_of_dvd h32]
    exact Nat.dvd_zero _

/-- What the handler does, by the length modulo 2^32: it refuses, or it maps
    that many pages, or one of them fails. -/
theorem mmapVmalloc_cases {fuel : Nat} (hfuel : 3 ≤ fuel) (hvma : vma.Aligned M)
    (hbound : vma.vmEnd.toNat < 2 ^ 47) :
    (2 * M.pageSize < vma.length % 2 ^ 32 ∧ mmapVmalloc M fuel d vma = some (-eio, vma, [])) ∨
    (vma.length % 2 ^ 32 ≤ 2 * M.pageSize ∧
      (∃ i < vma.length % 2 ^ 32 / M.pageSize,
        M.remapPfnRange vma.marked (vmallocPage M d.vmallocPtr vma.vmStart i) ≠ 0) ∧
      ∃ r calls, M.remapPfnRange vma.marked r ≠ 0 ∧
        mmapVmalloc M fuel d vma = some (M.remapPfnRange vma.marked r, vma.marked, calls)) ∨
    (vma.length % 2 ^ 32 ≤ 2 * M.pageSize ∧
      (∀ i < vma.length % 2 ^ 32 / M.pageSize,
        M.remapPfnRange vma.marked (vmallocPage M d.vmallocPtr vma.vmStart i) = 0) ∧
      mmapVmalloc M fuel d vma = some (0, vma.marked,
        (List.range (vma.length % 2 ^ 32 / M.pageSize)).map
          (vmallocPage M d.vmallocPtr vma.vmStart))) := by
  have hpos := M.pageSize_pos
  have hpage : M.pageSize < 2 ^ 47 := by
    have := Nat.le_of_dvd hvma.length_pos hvma.dvd_length
    rw [hvma.length_eq] at this
    omega
  have hlow : ((vma.vmEnd - vma.vmStart).setWidth 32).toNat = vma.length % 2 ^ 32 :=
    BitVec.toNat_setWidth _ _
  have hlong : ((vma.vmEnd - vma.vmStart).setWidth 32).setWidth 64 >
      2 * BitVec.ofNat 64 M.pageSize ↔ 2 * M.pageSize < vma.length % 2 ^ 32 := by
    have htwice : (2 * BitVec.ofNat 64 M.pageSize).toNat = 2 * M.pageSize := by
      rw [BitVec.toNat_mul, BitVec.toNat_ofNat,
        Nat.mod_eq_of_lt (show M.pageSize < 2 ^ 64 by omega)]
      exact Nat.mod_eq_of_lt (show 2 * M.pageSize < 2 ^ 64 by omega)
    rw [gt_iff_lt, BitVec.lt_def, htwice, BitVec.toNat_setWidth, hlow, Nat.mod_eq_of_lt (by omega)]
  by_cases hrefused : 2 * M.pageSize < vma.length % 2 ^ 32
  · refine .inl ⟨hrefused, ?_⟩
    simp only [mmapVmalloc, if_pos (hlong.mpr hrefused)]
  · have hloop : mmapVmalloc M fuel d vma =
        (vmallocLoop M vma.marked fuel d.vmallocPtr vma.vmStart
          ((vma.vmEnd - vma.vmStart).setWidth 32)).map fun r => (r.1, vma.marked, r.2) := by
      simp only [mmapVmalloc, if_neg (fun h => hrefused (hlong.mp h)), Vma.marked]
    have hlength : ((vma.vmEnd - vma.vmStart).setWidth 32).toNat =
        vma.length % 2 ^ 32 / M.pageSize * M.pageSize := by
      rw [hlow, Nat.div_mul_cancel (low_dvd hvma)]
    have hcount : vma.length % 2 ^ 32 / M.pageSize < fuel := by
      have : vma.length % 2 ^ 32 / M.pageSize ≤ 2 :=
        Nat.div_le_of_le_mul (by rw [Nat.mul_comm]; omega)
      omega
    rw [hloop]
    by_cases hmaps : ∀ i < vma.length % 2 ^ 32 / M.pageSize,
        M.remapPfnRange vma.marked (vmallocPage M d.vmallocPtr vma.vmStart i) = 0
    · refine .inr (.inr ⟨by omega, hmaps, ?_⟩)
      rw [vmallocLoop_maps _ fuel _ _ _ hcount hlength hmaps, Option.map_some]
    · simp only [not_forall] at hmaps
      rcases hmaps with ⟨i, hi, hfail⟩
      rcases vmallocLoop_fails _ fuel _ _ _ hcount hlength ⟨i, hi, hfail⟩ with
        ⟨r, calls, hr, hres⟩
      refine .inr (.inl ⟨by omega, ⟨i, hi, hfail⟩, r, calls, hr, ?_⟩)
      rw [hres, Option.map_some]

/-- For every mapping of whole pages below 2^47: what `mmap_vmalloc` returns is
    true exactly if the length fits an `unsigned int`, or the part of it that
    does is refused or cannot be mapped. -/
theorem mmapVmalloc_mapsAll_iff {fuel : Nat} (hfuel : 3 ≤ fuel)
    (herr : ∀ v r, M.remapPfnRange v r ≤ 0) (hvma : vma.Aligned M)
    (hbound : vma.vmEnd.toNat < 2 ^ 47) :
    (∃ res, mmapVmalloc M fuel d vma = some res ∧ MapsAll M d vma res) ↔
      vma.length < 2 ^ 32 ∨ 2 * M.pageSize < vma.length % 2 ^ 32 ∨
        ∃ i < vma.length % 2 ^ 32 / M.pageSize,
          M.remapPfnRange vma.marked (vmallocPage M d.vmallocPtr vma.vmStart i) ≠ 0 := by
  rcases mmapVmalloc_cases hfuel hvma hbound with
    ⟨hrefused, hres⟩ | ⟨-, hfails, r, calls, hr, hres⟩ | ⟨hfits, hmaps, hres⟩
  · rw [hres]
    have heio : -eio < 0 := by decide
    exact iff_of_true ⟨_, rfl, fun h => absurd h (Int.ne_of_lt heio), fun _ => heio⟩
      (.inr (.inl hrefused))
  · rw [hres]
    refine iff_of_true ⟨_, rfl, fun h => absurd h hr, fun _ => ?_⟩ (.inr (.inr hfails))
    have := herr vma.marked r
    show M.remapPfnRange vma.marked r < 0
    omega
  · rw [hres, or_iff_left]
    · constructor
      · -- A success for a longer mapping leaves its last page unmapped.
        rintro ⟨res, hsome, hall⟩
        cases hsome
        have hpages := congrArg List.length (hall.1 rfl).2
        rw [List.length_map, List.length_range, List.length_map, List.length_range] at hpages
        have hlength := Nat.div_mul_cancel hvma.dvd_length
        rw [← hpages, Nat.div_mul_cancel (low_dvd hvma)] at hlength
        omega
      · intro hlt
        rw [Nat.mod_eq_of_lt hlt] at hfits ⊢
        exact ⟨_, rfl, fun _ => ⟨hfits, rfl⟩, fun h => absurd rfl h⟩
    · rintro (hrefused | ⟨i, hi, hfail⟩)
      · omega
      · exact hfail (hmaps i hi)

/-- Two pages. -/
theorem mmapVmalloc_mapsAll_twoPages :
    let d : Driver Nat := Driver.loaded 0x10000 0x40000 fun _ => 0
    ∃ res, mmapVmalloc flatMachine 3 d twoPages = some res ∧ MapsAll flatMachine d twoPages res :=
  (mmapVmalloc_mapsAll_iff (Nat.le_refl 3) (fun _ _ => Int.le_refl 0)
    ⟨by decide, by decide, by decide⟩ (by decide)).mpr (.inl (by decide))

/-- A mapping of 2^32 bytes succeeds, and nothing of it is mapped. -/
theorem mmapVmalloc_nothing :
    let d : Driver Nat := Driver.loaded 0x10000 0x40000 fun _ => 0
    let vma := { twoPages with vmEnd := 0x7f0100000000 }
    ∃ res, mmapVmalloc flatMachine 3 d vma = some res ∧ res.1 = 0 ∧ res.2.2 = [] ∧
      ¬ MapsAll flatMachine d vma res := by
  intro d vma
  have hvma : vma.Aligned flatMachine := ⟨by decide, by decide, by decide⟩
  have hlow : vma.length % 2 ^ 32 = 0 := by decide
  have hcases := mmapVmalloc_cases (d := d) (Nat.le_refl 3) hvma (by decide)
  rw [hlow, Nat.zero_div] at hcases
  rcases hcases with ⟨hlong, -⟩ | ⟨-, ⟨i, hi, -⟩, -⟩ | ⟨-, -, hres⟩
  · exact absurd hlong (Nat.not_lt_zero _)
  · exact absurd hi (Nat.not_lt_zero i)
  · refine ⟨_, hres, rfl, rfl, fun hall => ?_⟩
    exact absurd (hall.1 rfl).1 (by decide)

end Vmalloc

end Mmap

end KernelModules
