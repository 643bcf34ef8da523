import KernelModules.Mmap.Mapping

/-!
# The Handler of mmap_vmalloc.c

`mmap_vmem` maps the pages of a vmalloc area one by one, as `mmap_vmalloc` of
`mmap_kmalloc.c` does. (The table of the file still names a stub that maps
nothing.) Its length is a `long`, so that nothing of it is lost; compared with
the size of the device it is an `unsigned long`, and the loop compares it as the
`long` that it is.

The size of the device is wrong in the same way as in `mmap_kmalloc`: the bytes
of `LEN` are multiplied with the bytes of a page. The area has `LEN` bytes. A
mapping that is longer is accepted, and the loop goes on behind the area, to
pages of which nobody knows what they are. It stops there only if a page
cannot be mapped before it leaves the area.

## Main definitions

* `vmemLoop`, `mmapVmem`: The loop and the handler.
* `firstFailure`: The first page that cannot be mapped.
* `OnlyArea`: The calls are for pages of the area only.

## Theorems

* `vmemLoop_round`: A round of the loop.
* `vmemLoop_eq`, `mmapVmem_eq`: The loop and the handler in closed form.
* `mmapVmem_onlyArea_iff`: When the handler stays in the area.
* `mmapVmem_stray`: A mapping for which it does not.
-/

namespace KernelModules

namespace Mmap

open Kernel Lib

variable {π : Type*}

/-- The loop of `mmap_vmem`, or `none` where it does not end. -/
def vmemLoop (M : Machine π) (vma : Vma) :
    (fuel : Nat) → (area : Nat) → (start : BitVec 64) → (length : BitVec 64) →
      Option (Int × List Remap)
  | 0, _, _, _ => none
  | fuel + 1, area, start, length =>
    -- `while (length > 0)`, with a sign
    if (0 : BitVec 64).slt length then
      let call : Remap :=
        { start := start, pfn := M.vmallocToPfn area, size := BitVec.ofNat 64 M.pageSize }
      let ret := M.remapPfnRange vma call
      if ret < 0 then some (ret, [call])
      else
        (vmemLoop M vma fuel (area + M.pageSize) (start + BitVec.ofNat 64 M.pageSize)
          (length - BitVec.ofNat 64 M.pageSize)).map fun r => (r.1, call :: r.2)
    else some (0, [])

/-- `mmap_vmem`, with fuel for its loop. -/
def mmapVmem (M : Machine π) (fuel vmallocPtr : Nat) (vma : Vma) :
    Option (Int × Vma × List Remap) :=
  let length := vma.vmEnd - vma.vmStart
  -- `if (length > LEN * PAGE_SIZE)`, with an unsigned product
  if length > BitVec.ofNat 64 LEN * BitVec.ofNat 64 M.pageSize then some (-eio, vma, [])
  else
    (vmemLoop M vma.marked fuel vmallocPtr vma.vmStart length).map
      fun r => (r.1, vma.marked, r.2)

/-- The first of `k` pages that cannot be mapped. -/
def firstFailure (M : Machine π) (vma : Vma) (area : Nat) (start : BitVec 64) (k : Nat) :
    Option Nat :=
  (List.range k).find? fun i => decide (M.remapPfnRange vma (vmallocPage M area start i) < 0)

/-- What the loop returns for `k` pages: the calls up to the first that fails,
    and its result. -/
def vmemResult (M : Machine π) (vma : Vma) (area : Nat) (start : BitVec 64) (k : Nat) :
    Int × List Remap :=
  match firstFailure M vma area start k with
  | none => (0, (List.range k).map (vmallocPage M area start))
  | some i => (M.remapPfnRange vma (vmallocPage M area start i),
      (List.range (i + 1)).map (vmallocPage M area start))

/-- Each call is for a page of the mapping and for the page of the area at the
    same place, which lies inside the `LEN` bytes of the area. -/
def OnlyArea (M : Machine π) (vmallocPtr : Nat) (vma : Vma) (calls : List Remap) : Prop :=
  ∀ r ∈ calls, ∃ i, r = vmallocPage M vmallocPtr vma.vmStart i ∧ i * M.pageSize < LEN

section Loop

variable {M : Machine π} {vma : Vma}

/-- A round of the loop, with the length of `k + 1` pages before it and of `k`
    pages behind it. -/
theorem vmemLoop_round (vma : Vma) (fuel area : Nat) (start : BitVec 64) {k : Nat}
    {length : BitVec 64} (hlength : length.toNat = (k + 1) * M.pageSize)
    (hbound : length.toNat < 2 ^ 63) :
    (length - BitVec.ofNat 64 M.pageSize).toNat = k * M.pageSize ∧
      vmemLoop M vma (fuel + 1) area start length =
        if M.remapPfnRange vma (vmallocPage M area start 0) < 0 then
          some (M.remapPfnRange vma (vmallocPage M area start 0), [vmallocPage M area start 0])
        else
          (vmemLoop M vma fuel (area + M.pageSize) (start + BitVec.ofNat 64 M.pageSize)
            (length - BitVec.ofNat 64 M.pageSize)).map
              fun r => (r.1, vmallocPage M area start 0 :: r.2) := by
  have hpos := M.pageSize_pos
  have hzero : vmallocPage M area start 0 =
      { start := start, pfn := M.vmallocToPfn area, size := BitVec.ofNat 64 M.pageSize } := by
    rw [vmallocPage, Nat.zero_mul, Nat.add_zero, BitVec.add_zero]
  rw [Nat.succ_mul] at hlength
  have hgt : (0 : BitVec 64).slt length = true := by
    have hzero : (0 : BitVec 64).toInt = 0 := rfl
    rw [BitVec.slt_iff_toInt_lt, hzero, BitVec.toInt_eq_toNat_of_lt (by omega)]
    omega
  refine ⟨?_, ?_⟩
  · rw [BitVec.toNat_sub_of_le, BitVec.toNat_ofNat, Nat.mod_eq_of_lt (by omega)]
    · omega
    · rw [BitVec.le_def, BitVec.toNat_ofNat, Nat.mod_eq_of_lt (by omega)]
      omega
  · rw [vmemLoop, if_pos hgt, hzero]

/-- The pages after the first one. -/
theorem vmemResult_succ (area : Nat) (start : BitVec 64) (k : Nat) :
    vmemResult M vma area start (k + 1) =
      if M.remapPfnRange vma (vmallocPage M area start 0) < 0 then
        (M.remapPfnRange vma (vmallocPage M area start 0), [vmallocPage M area start 0])
      else
        ((vmemResult M vma (area + M.pageSize) (start + BitVec.ofNat 64 M.pageSize) k).1,
          vmallocPage M area start 0 ::
            (vmemResult M vma (area + M.pageSize) (start + BitVec.ofNat 64 M.pageSize) k).2) := by
  have hfirst : firstFailure M vma area start (k + 1) =
      if M.remapPfnRange vma (vmallocPage M area start 0) < 0 then some 0
      else (firstFailure M vma (area + M.pageSize) (start + BitVec.ofNat 64 M.pageSize) k).map
        Nat.succ := by
    rw [firstFailure, List.range_succ_eq_map, List.find?_cons]
    by_cases hfail : M.remapPfnRange vma (vmallocPage M area start 0) < 0
    · rw [if_pos hfail, decide_eq_true hfail]
    · rw [if_neg hfail, decide_eq_false hfail, List.find?_map, firstFailure]
      simp only [Function.comp_def, vmallocPage_succ]
  rw [vmemResult, hfirst]
  by_cases hfail : M.remapPfnRange vma (vmallocPage M area start 0) < 0
  · rw [if_pos hfail, if_pos hfail]
    rfl
  · rw [if_neg hfail, if_neg hfail, vmemResult]
    cases firstFailure M vma (area + M.pageSize) (start + BitVec.ofNat 64 M.pageSize) k with
    | none => simp only [Option.map_none, vmallocPages_succ]
    | some i =>
        simp only [Option.map_some, Nat.succ_eq_add_one, vmallocPages_succ, vmallocPage_succ]

/-- The loop ends when it has been through the pages, or at one that fails. -/
theorem vmemLoop_eq (k : Nat) : ∀ (fuel area : Nat) (start length : BitVec 64),
    k < fuel → length.toNat = k * M.pageSize → length.toNat < 2 ^ 63 →
      vmemLoop M vma fuel area start length = some (vmemResult M vma area start k) := by
  -- Each round moves the area, the user's address and the length by a page.
  induction k with
  | zero =>
      intro fuel area start length hfuel hlength _
      rw [Nat.zero_mul] at hlength
      have hzero : length = 0 := BitVec.eq_of_toNat_eq hlength
      rcases Nat.exists_eq_succ_of_ne_zero (Nat.ne_of_gt hfuel) with ⟨fuel, rfl⟩
      rw [vmemLoop, hzero, if_neg (by decide)]
      rfl
  | succ k ih =>
      intro fuel area start length hfuel hlength hbound
      rcases Nat.exists_eq_succ_of_ne_zero (Nat.ne_of_gt (Nat.zero_lt_of_lt hfuel)) with
        ⟨fuel, rfl⟩
      rcases vmemLoop_round vma fuel area start hlength hbound with ⟨hrest, hround⟩
      rw [Nat.succ_mul] at hlength
      rw [hround, vmemResult_succ, ih fuel _ _ _ (by omega) hrest (by omega), Option.map_some]
      split <;> rfl

end Loop

section Handler

variable {M : Machine π} {vma : Vma} {fuel ptr : Nat}

/-- The handler refuses a mapping, or returns what the loop does for its pages. -/
theorem mmapVmem_eq (hvma : vma.Aligned M) (hbound : vma.vmEnd.toNat < 2 ^ 47)
    (hfuel : vma.length / M.pageSize < fuel) : mmapVmem M fuel ptr vma =
      if LEN * M.pageSize < vma.length then some (-eio, vma, [])
      else
        let r := vmemResult M vma.marked ptr vma.vmStart (vma.length / M.pageSize)
        some (r.1, vma.marked, r.2) := by
  have hlength := hvma.length_eq
  have hpage : M.pageSize < 2 ^ 47 := by
    have := Nat.le_of_dvd hvma.length_pos hvma.dvd_length
    omega
  have hsize : (BitVec.ofNat 64 LEN * BitVec.ofNat 64 M.pageSize).toNat = LEN * M.pageSize := by
    have hlen : LEN = 16384 := rfl
    rw [BitVec.toNat_mul, BitVec.toNat_ofNat, BitVec.toNat_ofNat, hlen,
      Nat.mod_eq_of_lt (show M.pageSize < 2 ^ 64 by omega), Nat.mod_eq_of_lt (by omega)]
  have hlong : vma.vmEnd - vma.vmStart > BitVec.ofNat 64 LEN * BitVec.ofNat 64 M.pageSize ↔
      LEN * M.pageSize < vma.length := by
    rw [gt_iff_lt, BitVec.lt_def, hsize, Vma.length]
  have hpages : (vma.vmEnd - vma.vmStart).toNat = vma.length / M.pageSize * M.pageSize :=
    (Nat.div_mul_cancel hvma.dvd_length).symm
  have hsmall : (vma.vmEnd - vma.vmStart).toNat < 2 ^ 63 := by
    rw [← Vma.length]
    omega
  rw [mmapVmem]
  by_cases hrefused : LEN * M.pageSize < vma.length
  · rw [if_pos hrefused, if_pos (hlong.mpr hrefused)]
  · rw [if_neg hrefused, if_neg fun h => hrefused (hlong.mp h),
      vmemLoop_eq _ fuel _ _ _ hfuel hpages hsmall]
    rfl

/-- Pages of a mapping at different places are different calls. -/
theorem vmallocPage_injective {start : BitVec 64} {i j : Nat} (hi : i * M.pageSize < 2 ^ 64)
    (hj : j * M.pageSize < 2 ^ 64)
    (h : vmallocPage M ptr start i = vmallocPage M ptr start j) : i = j := by
  have hstart := congrArg Remap.start h
  simp only [vmallocPage, BitVec.add_right_inj] at hstart
  have hnat := congrArg BitVec.toNat hstart
  rw [BitVec.toNat_ofNat, BitVec.toNat_ofNat, Nat.mod_eq_of_lt hi, Nat.mod_eq_of_lt hj] at hnat
  exact Nat.eq_of_mul_eq_mul_right M.pageSize_pos hnat

/-- The first `k` pages are pages of the area up to its size. -/
theorem onlyArea_range_iff {k : Nat} (hk : k * M.pageSize < 2 ^ 64) :
    OnlyArea M ptr vma ((List.range k).map (vmallocPage M ptr vma.vmStart)) ↔
      k * M.pageSize < LEN + M.pageSize := by
  have hpos := M.pageSize_pos
  have hlen : LEN = 16384 := rfl
  constructor
  · intro honly
    cases k with
    | zero => omega
    | succ k =>
        have hmem := honly _ (List.mem_map_of_mem (List.mem_range.mpr (Nat.lt_succ_self k)))
        rcases hmem with ⟨i, heq, hi⟩
        rw [Nat.succ_mul] at hk ⊢
        rw [vmallocPage_injective (by omega) (by omega) heq]
        omega
  · intro hlt r hr
    rcases List.mem_map.mp hr with ⟨i, hi, rfl⟩
    refine ⟨i, rfl, ?_⟩
    have hle := Nat.mul_le_mul_right M.pageSize (List.mem_range.mp hi)
    rw [Nat.succ_mul] at hle
    omega

/-- For every mapping of whole pages below 2^47: the handler returns, with a
    success only if each page of the mapping is mapped to its page behind
    `vmalloc_ptr`. It stays in the area exactly if the mapping is refused or no
    longer than the area, or a page of the area cannot be mapped. -/
theorem mmapVmem_onlyArea_iff (hvma : vma.Aligned M) (hbound : vma.vmEnd.toNat < 2 ^ 47)
    (hfuel : vma.length / M.pageSize < fuel) : ∃ res, mmapVmem M fuel ptr vma = some res ∧
      (res.1 = 0 → res.2.2 =
        (List.range (vma.length / M.pageSize)).map (vmallocPage M ptr vma.vmStart)) ∧
      (res.1 ≠ 0 → res.1 < 0) ∧
      (OnlyArea M ptr vma res.2.2 ↔ LEN * M.pageSize < vma.length ∨
        vma.length < LEN + M.pageSize ∨ ∃ i < vma.length / M.pageSize, i * M.pageSize < LEN ∧
          M.remapPfnRange vma.marked (vmallocPage M ptr vma.vmStart i) < 0) := by
  have hlength := hvma.length_eq
  have hpages : vma.length / M.pageSize * M.pageSize = vma.length :=
    Nat.div_mul_cancel hvma.dvd_length
  rw [mmapVmem_eq hvma hbound hfuel]
  by_cases hrefused : LEN * M.pageSize < vma.length
  · rw [if_pos hrefused]
    have heio : -eio < 0 := by decide
    refine ⟨_, rfl, fun h => absurd h (Int.ne_of_lt heio), fun _ => heio, ?_⟩
    exact iff_of_true (fun r hr => absurd hr List.not_mem_nil) (.inl hrefused)
  · rw [if_neg hrefused]
    refine ⟨_, rfl, ?_⟩
    cases hfirst : firstFailure M vma.marked ptr vma.vmStart (vma.length / M.pageSize) with
    | none =>
        simp only [vmemResult, hfirst]
        rw [firstFailure, List.find?_eq_none] at hfirst
        refine ⟨fun _ => trivial, fun h => absurd rfl h, ?_⟩
        rw [onlyArea_range_iff (by omega), hpages]
        constructor
        · exact fun hlt => .inr (.inl hlt)
        · rintro (hlong | hlt | ⟨j, hj, -, hfail⟩)
          · exact absurd hlong hrefused
          · exact hlt
          · exact absurd (decide_eq_true hfail) (hfirst j (List.mem_range.mpr hj))
    | some i =>
        simp only [vmemResult, hfirst]
        rw [firstFailure, List.find?_range_eq_some] at hfirst
        rcases hfirst with ⟨hfail, hi, hbefore⟩
        rw [decide_eq_true_eq] at hfail
        rw [List.mem_range] at hi
        have hle := Nat.mul_le_mul_right M.pageSize hi
        rw [Nat.succ_mul, hpages] at hle
        refine ⟨fun h => absurd h (Int.ne_of_lt hfail), fun _ => hfail, ?_⟩
        rw [onlyArea_range_iff (by rw [Nat.succ_mul]; omega), Nat.succ_mul]
        constructor
        · exact fun hlt => .inr (.inr ⟨i, hi, by omega, hfail⟩)
        · rintro (hlong | hlt | ⟨j, -, hlt, hfail'⟩)
          · exact absurd hlong hrefused
          · omega
          · -- The first page that fails comes no later.
            have hij : i ≤ j := by
              by_contra hji
              have hnot := hbefore j (by omega)
              rw [decide_eq_true hfail'] at hnot
              exact absurd hnot (by decide)
            have hmul := Nat.mul_le_mul_right M.pageSize hij
            omega

/-- Four pages, which are the area. -/
theorem mmapVmem_onlyArea_fourPages :
    let vma := { twoPages with vmEnd := 0x7f0000004000 }
    ∃ res, mmapVmem flatMachine 5 0x40000 vma = some res ∧
      OnlyArea flatMachine 0x40000 vma res.2.2 := by
  intro vma
  have hvma : vma.Aligned flatMachine := ⟨by decide, by decide, by decide⟩
  have hpages : vma.length / flatMachine.pageSize < 5 := by decide
  rcases mmapVmem_onlyArea_iff hvma (by decide) hpages with ⟨res, hres, -, -, honly⟩
  exact ⟨res, hres, honly.mpr (.inr (.inl (by decide)))⟩

/-- Five pages are accepted, and the last one is none of the area. -/
theorem mmapVmem_stray :
    let vma := { twoPages with vmEnd := 0x7f0000005000 }
    ∃ res, mmapVmem flatMachine 6 0x40000 vma = some res ∧ res.1 = 0 ∧
      ¬ OnlyArea flatMachine 0x40000 vma res.2.2 := by
  intro vma
  have hvma : vma.Aligned flatMachine := ⟨by decide, by decide, by decide⟩
  have hpages : vma.length / flatMachine.pageSize = 5 := by decide
  have hmaps : vmemResult flatMachine vma.marked 0x40000 vma.vmStart 5 =
      (0, (List.range 5).map (vmallocPage flatMachine 0x40000 vma.vmStart)) := by
    rw [vmemResult, show firstFailure flatMachine vma.marked 0x40000 vma.vmStart 5 = none by decide]
  refine ⟨(0, vma.marked, (List.range 5).map (vmallocPage flatMachine 0x40000 vma.vmStart)),
    ?_, rfl, ?_⟩
  · rw [mmapVmem_eq hvma (by decide) (by decide), if_neg (by decide), hpages, hmaps]
  · rw [onlyArea_range_iff (by decide)]
    decide

end Handler

end Mmap

end KernelModules
