import KernelModules.Kernel.Memory
import KernelModules.Lib.Loop

/-!
# The Fill of test_mmap_open

The end of `test_mmap_open`, which clears an area to `'Z'` and fills it with
the digits in turn. The loop over the area has an inner loop for every ten
digits, and the two share their counter. The inner one advances it and looks
at the end of the area too, so that the last ten digits may be cut short.

Here the counters are `int`, the end of the area is an `unsigned long` that
the counter is converted for, and the bytes are stored one by one. The pages
may be of any size. `Mmap.Area` compares this with the loops of the driver.

## Main definitions

* `Fill`: The counters and the memory.
* `fillDigits`, `fillArea`: The inner and the outer loop.
* `testMmapOpenFill`: The fill, from the `memset` on.
* `decimalDigit`: The digit that belongs at an index.
* `Filled`: The area up to an index.

## Theorems

* `fillDigits_filled`, `fillArea_filled`: What the loops do.
* `testMmapOpenFill_filled`: The fill ends, and what it leaves.
* `testMmapOpenFill_pattern`: The digits are everywhere and nowhere else.
-/

namespace KernelModules

namespace Mmap

open Kernel Lib

/-- The counters of the fill, and the memory. -/
structure Fill where
  i : BitVec 32
  j : BitVec 32
  memory : Memory

/-- `i < 2 * PAGE_SIZE`. -/
def Fill.inside (size : BitVec 64) (s : Fill) : Bool := decide (s.i.signExtend 64 < size)

/-- `*(alloc_area + i) = '0' + j; i++; j++`. -/
def Fill.digit (area : BitVec 64) (s : Fill) : Fill :=
  { i := s.i + 1
    j := s.j + 1
    memory := s.memory.store (area + s.i.signExtend 64) (UInt8.ofBitVec ((48 + s.j).setWidth 8)) }

/-- `for (; j < 10 && i < 2 * PAGE_SIZE; j++)`. -/
def fillDigits (area size : BitVec 64) (fuel : Nat) (s : Fill) : Option Fill :=
  whileLoop (fun s => s.j.slt 10 && s.inside size) (fun s => some (s.digit area)) fuel s

/-- `for (; i < 2 * PAGE_SIZE;)`, with `j` set to zero before the inner loop and
    after it. -/
def fillArea (area size : BitVec 64) (fuel : Nat) (s : Fill) : Option Fill :=
  whileLoop (Fill.inside size)
    (fun s => (fillDigits area size fuel { s with j := 0 }).map fun s => { s with j := 0 }) fuel s

/-- The fill of `test_mmap_open`, with what happens to be in `j`. -/
def testMmapOpenFill (fuel pageSize : Nat) (area : BitVec 64) (j : BitVec 32) (m : Memory) :
    Option Memory :=
  let size := 2 * BitVec.ofNat 64 pageSize
  let cleared := m.stores area (List.replicate size.toNat 90)
  (fillArea area size fuel { i := 0, j := j, memory := cleared }).map Fill.memory

/-- `'0' + k % 10`. -/
def decimalDigit (k : Nat) : UInt8 := (48 + k % 10).toUInt8

/-- The first `n` of the area's `size` bytes are the digits, and no byte behind
    the area has been stored to or is another than before. -/
structure Filled (area : BitVec 64) (before : BitVec 64 → UInt8) (size n : Nat) (m : Memory) :
    Prop where
  digits : ∀ k < n, m.byte (area + BitVec.ofNat 64 k) = decimalDigit k
  inside : ∀ x ∈ m.written, (x - area).toNat < size
  frame : ∀ x, size ≤ (x - area).toNat → m.byte x = before x

section Words

variable {n j size : Nat}

/-- An index of the area, extended to an address. -/
theorem index_signExtend (hn : n < 2 ^ 31) :
    (BitVec.ofNat 32 n).signExtend 64 = BitVec.ofNat 64 n := by
  have hmsb : (BitVec.ofNat 32 n).msb = false := by
    rw [BitVec.msb_eq_decide, decide_eq_false_iff_not, BitVec.toNat_ofNat]
    omega
  rw [BitVec.signExtend_eq_setWidth_of_msb_false hmsb]
  refine BitVec.eq_of_toNat_eq ?_
  rw [BitVec.toNat_setWidth, BitVec.toNat_ofNat, BitVec.toNat_ofNat]
  omega

theorem index_lt_iff (hn : n < 2 ^ 31) (hsize : size < 2 ^ 64) :
    (BitVec.ofNat 32 n).signExtend 64 < BitVec.ofNat 64 size ↔ n < size := by
  rw [index_signExtend hn, BitVec.lt_def, BitVec.toNat_ofNat, BitVec.toNat_ofNat,
    Nat.mod_eq_of_lt hsize]
  omega

theorem round_slt_iff (hj : j < 2 ^ 31) : (BitVec.ofNat 32 j).slt 10 = true ↔ j < 10 := by
  have hint : (BitVec.ofNat 32 j).toInt = j := by
    rw [BitVec.toInt_eq_toNat_cond, BitVec.toNat_ofNat]
    omega
  rw [BitVec.slt_iff_toInt_lt, hint, show (10 : BitVec 32).toInt = 10 from rfl]
  omega

/-- The digit of round `j`, where the rounds began at a multiple of ten. -/
theorem digit_of_round {start : Nat} (hj : j < 10) (hstart : start % 10 = 0) :
    UInt8.ofBitVec ((48 + BitVec.ofNat 32 j).setWidth 8) = decimalDigit (start + j) := by
  have hdigit : (start + j) % 10 = j := by omega
  rw [decimalDigit, hdigit]
  refine UInt8.toNat_inj.mp ?_
  show (BitVec.setWidth 8 (48 + BitVec.ofNat 32 j)).toNat = (48 + j) % 256
  rw [BitVec.toNat_setWidth, BitVec.toNat_add, BitVec.toNat_ofNat]
  show (48 + j % 2 ^ 32) % 2 ^ 32 % 2 ^ 8 = _
  omega

end Words

section Loops

variable {area : BitVec 64} {before : BitVec 64 → UInt8} {size n : Nat} {m : Memory}

/-- What is loaded from the area is the digits. -/
theorem Filled.loads (hf : Filled area before size n m) :
    m.loads area n = (List.range n).map decimalDigit :=
  List.map_congr_left fun k hk => hf.digits k (List.mem_range.mp hk)

/-- The digit of the next index. -/
theorem Filled.store (hf : Filled area before size n m) (hn : n < size) (hsize : size < 2 ^ 64) :
    Filled area before size (n + 1) (m.store (area + BitVec.ofNat 64 n) (decimalDigit n)) := by
  have hoff : (area + BitVec.ofNat 64 n - area).toNat = n := toNat_offset_sub area (by omega)
  refine ⟨?_, ?_, ?_⟩
  · intro k hk
    by_cases hkn : k = n
    · rw [hkn, store_byte_self]
    · -- The earlier digits are at other addresses.
      rw [store_byte_of_ne, hf.digits k (by omega)]
      intro hsame
      have hoff' := toNat_offset_sub area (show k < 2 ^ 64 by omega)
      rw [hsame, hoff] at hoff'
      exact hkn hoff'.symm
  · intro x hx
    rcases List.mem_cons.mp hx with rfl | hx
    · rw [hoff]
      exact hn
    · exact hf.inside x hx
  · intro x hx
    rw [store_byte_of_ne, hf.frame x hx]
    rintro rfl
    rw [hoff] at hx
    exact absurd hn (Nat.not_lt.mpr hx)

/-- The counters after `n` bytes, `j` of them in the inner loop. -/
def AtIndex (n j : Nat) (s : Fill) : Prop :=
  s.i = BitVec.ofNat 32 n ∧ s.j = BitVec.ofNat 32 j

theorem inside_iff {s : Fill} (hi : s.i = BitVec.ofNat 32 n) (hn : n < 2 ^ 31)
    (hsize : size < 2 ^ 31) : s.inside (BitVec.ofNat 64 size) = true ↔ n < size := by
  rw [Fill.inside, decide_eq_true_eq, hi, index_lt_iff hn (by omega)]

/-- One round of the inner loop. -/
theorem digit_filled {s : Fill} {start j : Nat} (hat : AtIndex (start + j) j s)
    (hstart : start % 10 = 0) (hj : j < 10) (hn : start + j < size) (hsize : size < 2 ^ 31)
    (hf : Filled area before size (start + j) s.memory) :
    AtIndex (start + (j + 1)) (j + 1) (s.digit area) ∧
      Filled area before size (start + (j + 1)) (s.digit area).memory := by
  refine ⟨⟨?_, ?_⟩, ?_⟩
  · rw [Fill.digit, hat.1, ← Nat.add_assoc, BitVec.ofNat_add (start + j)]
    rfl
  · rw [Fill.digit, hat.2, BitVec.ofNat_add j]
    rfl
  · rw [Fill.digit, hat.1, hat.2, digit_of_round hj hstart, index_signExtend (by omega)]
    exact hf.store hn (by omega)

/-- Between two rounds of the inner loop, which began at `start`. -/
def InGroup (area : BitVec 64) (before : BitVec 64 → UInt8) (size start : Nat) (s : Fill) : Prop :=
  ∃ j ≤ 10, start + j ≤ size ∧ AtIndex (start + j) j s ∧
    Filled area before size (start + j) s.memory

/-- Between two rounds of the outer loop: the index is a multiple of ten or the
    end of the area. -/
def BetweenGroups (area : BitVec 64) (before : BitVec 64 → UInt8) (size : Nat) (s : Fill) : Prop :=
  ∃ n ≤ size, (n % 10 = 0 ∨ n = size) ∧ s.i = BitVec.ofNat 32 n ∧
    Filled area before size n s.memory

/-- The inner loop ends after ten digits or at the end of the area. -/
theorem fillDigits_filled {fuel start : Nat} {s : Fill} (hfuel : 10 < fuel)
    (hat : AtIndex start 0 s) (hstart : start % 10 = 0) (hlt : start < size)
    (hsize : size < 2 ^ 31) (hf : Filled area before size start s.memory) :
    ∃ r, fillDigits area (BitVec.ofNat 64 size) fuel s = some r ∧
      r.i = BitVec.ofNat 32 (min (start + 10) size) ∧
      Filled area before size (min (start + 10) size) r.memory := by
  -- The index stays `j` ahead of where the group began, and what is left of the
  -- ten rounds is the measure.
  have hround : ∀ s, InGroup area before size start s →
      (s.j.slt 10 && s.inside (BitVec.ofNat 64 size)) = true →
        ∃ s', some (s.digit area) = some s' ∧ InGroup area before size start s' ∧
          10 - s'.j.toNat < 10 - s.j.toNat := by
    rintro s ⟨j, hj, hle, hatj, hfj⟩ htest
    rw [Bool.and_eq_true, hatj.2, round_slt_iff (by omega), inside_iff hatj.1 (by omega) hsize]
      at htest
    rcases digit_filled hatj hstart htest.1 htest.2 hsize hfj with ⟨hat', hf'⟩
    refine ⟨_, rfl, ⟨j + 1, by omega, by omega, hat', hf'⟩, ?_⟩
    rw [hat'.2, hatj.2, BitVec.toNat_ofNat, BitVec.toNat_ofNat]
    omega
  have hinit : InGroup area before size start s := ⟨0, by omega, by omega, hat, hf⟩
  rcases whileLoop_total hround hinit (Nat.lt_of_le_of_lt (Nat.sub_le 10 s.j.toNat) hfuel)
    with ⟨r, hr, ⟨j, hj, hle, hatj, hfj⟩, hend⟩
  -- One of the two tests has failed, which says where the loop is.
  have hdone : start + j = min (start + 10) size := by
    rw [Bool.and_eq_false_iff, ← Bool.not_eq_true, ← Bool.not_eq_true, hatj.2,
      round_slt_iff (by omega), inside_iff hatj.1 (by omega) hsize] at hend
    omega
  refine ⟨r, hr, ?_, ?_⟩
  · rw [← hdone]
    exact hatj.1
  · rw [← hdone]
    exact hfj

/-- The outer loop ends with the digits in the whole area. -/
theorem fillArea_filled {fuel : Nat} {s : Fill} (hfuel : size + 10 < fuel) (hi : s.i = 0)
    (hsize : size < 2 ^ 31) (hf : Filled area before size 0 s.memory) :
    ∃ r, fillArea area (BitVec.ofNat 64 size) fuel s = some r ∧
      Filled area before size size r.memory := by
  -- A group begins at a multiple of ten, since the other one is the end.
  have hround : ∀ s, BetweenGroups area before size s → s.inside (BitVec.ofNat 64 size) = true →
      ∃ s', ((fillDigits area (BitVec.ofNat 64 size) fuel { s with j := 0 }).map
          fun s => { s with j := 0 }) = some s' ∧
        BetweenGroups area before size s' ∧ size - s'.i.toNat < size - s.i.toNat := by
    rintro s ⟨n, hle, hgroup, hin, hfn⟩ htest
    rw [inside_iff hin (by omega) hsize] at htest
    rcases fillDigits_filled (s := { s with j := 0 }) (show 10 < fuel by omega) ⟨hin, rfl⟩
      (hgroup.resolve_right (by omega)) htest hsize hfn with ⟨r, hr, hir, hfr⟩
    refine ⟨{ r with j := 0 }, ?_, ⟨min (n + 10) size, by omega, by omega, hir, hfr⟩, ?_⟩
    · rw [hr, Option.map_some]
    · -- The inner loop has gone at least one byte further.
      show size - r.i.toNat < size - s.i.toNat
      rw [hir, hin, BitVec.toNat_ofNat, BitVec.toNat_ofNat]
      omega
  have hinit : BetweenGroups area before size s := ⟨0, by omega, .inl rfl, hi, hf⟩
  rcases whileLoop_total hround hinit (show size - s.i.toNat < fuel by omega)
    with ⟨r, hr, ⟨n, hle, -, hin, hfn⟩, hend⟩
  have hdone : n = size := by
    rw [← Bool.not_eq_true, inside_iff hin (by omega) hsize] at hend
    omega
  rw [hdone] at hfn
  exact ⟨r, hr, hfn⟩

end Loops

section Pattern

variable {fuel pageSize : Nat} (area : BitVec 64) (j : BitVec 32)

/-- The size of an area as the code computes it. -/
theorem two_mul_pageSize (pageSize : Nat) :
    2 * BitVec.ofNat 64 pageSize = BitVec.ofNat 64 (2 * pageSize) := by
  rw [BitVec.ofNat_mul]
  rfl

/-- The fill ends, and leaves the digits in the area. -/
theorem testMmapOpenFill_filled (hfuel : 2 * pageSize + 10 < fuel) (hsize : 2 * pageSize < 2 ^ 31)
    {m : Memory} (hm : m.written = []) :
    ∃ r, testMmapOpenFill fuel pageSize area j m = some r ∧
      Filled area m.byte (2 * pageSize) (2 * pageSize) r := by
  have hlength : (List.replicate (2 * pageSize) (90 : UInt8)).length = 2 * pageSize :=
    List.length_replicate
  -- No digit yet, but everything written so far is inside.
  have hcleared : Filled area m.byte (2 * pageSize) 0
      (m.stores area (List.replicate (2 * pageSize) 90)) := by
    refine ⟨fun k hk => absurd hk (Nat.not_lt_zero k), ?_, ?_⟩
    · intro x hx
      rw [mem_written_stores _ _ _ (by omega), hm, hlength] at hx
      exact hx.resolve_right List.not_mem_nil
    · intro x hx
      exact stores_byte_of_le m (by omega) (by omega)
  have hnat : (BitVec.ofNat 64 (2 * pageSize)).toNat = 2 * pageSize := by
    rw [BitVec.toNat_ofNat]
    omega
  rw [testMmapOpenFill, two_mul_pageSize, hnat]
  rcases fillArea_filled (s := { i := 0, j := j, memory := _ }) hfuel rfl hsize hcleared
    with ⟨r, hr, hf⟩
  exact ⟨r.memory, by rw [hr, Option.map_some], hf⟩

/-- After the fill every byte of the area is its digit and none is a `'Z'`, and
    no other byte was stored to or is another than before. -/
theorem testMmapOpenFill_pattern (before : BitVec 64 → UInt8) (hsize : 2 * pageSize < 2 ^ 31)
    (hfuel : 2 * pageSize + 10 < fuel) :
    ∃ r, testMmapOpenFill fuel pageSize area j { byte := before, written := [] } = some r ∧
      (∀ k < 2 * pageSize, r.byte (area + BitVec.ofNat 64 k) = (48 + k % 10).toUInt8) ∧
      (∀ k < 2 * pageSize, r.byte (area + BitVec.ofNat 64 k) ≠ 90) ∧
      (∀ x ∈ r.written, ∃ k < 2 * pageSize, x = area + BitVec.ofNat 64 k) ∧
      ∀ x, (∀ k < 2 * pageSize, x ≠ area + BitVec.ofNat 64 k) → r.byte x = before x := by
  rcases testMmapOpenFill_filled area j (m := ⟨before, []⟩) hfuel hsize rfl
    with ⟨r, hr, hf⟩
  refine ⟨r, hr, hf.digits, ?_, ?_, ?_⟩
  · intro k hk hz
    rw [hf.digits k hk] at hz
    -- The digits are 48 to 57.
    have hnat := congrArg UInt8.toNat hz
    rw [decimalDigit, show (90 : UInt8).toNat = 90 from rfl, UInt8.toNat_ofNat'] at hnat
    omega
  · intro x hx
    exact ⟨(x - area).toNat, hf.inside x hx, (offset_toNat_sub area x).symm⟩
  · intro x hx
    refine hf.frame x (Nat.not_lt.mp fun hlt => ?_)
    exact hx _ hlt (offset_toNat_sub area x).symm

/-- An area of twelve bytes, whose last two digits begin a group. -/
theorem testMmapOpenFill_twelve : ∃ r,
    testMmapOpenFill 23 6 0xFFFF888000001000 7 { byte := fun _ => 1, written := [] } = some r ∧
      r.byte 0xFFFF88800000100B = 49 ∧ r.byte 0xFFFF88800000100C = 1 := by
  rcases testMmapOpenFill_pattern 0xFFFF888000001000 7 (fun _ => 1)
    (show 2 * 6 < 2 ^ 31 by decide) (show 2 * 6 + 10 < 23 by decide)
    with ⟨r, hr, hdigits, -, -, hframe⟩
  refine ⟨r, hr, hdigits 11 (by decide), ?_⟩
  exact hframe 0xFFFF88800000100C (by decide)

end Pattern

end Mmap

end KernelModules
