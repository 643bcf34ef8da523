import Mathlib.Data.Nat.Bitwise

/-!
# Rounding to Powers of Two

Addresses and offsets are rounded with masks: `x & ~(n - 1)` is the last
multiple of `n` up to `x`, when `n` is a power of two, and with `n - 1` added
first it is the next one from `x` on. The lemmas read the words as numbers.

## Main definitions

* `alignUp`: The next multiple of a number.

## Theorems

* `toNat_and_not_mask`: A masked word as a quotient.
* `toNat_alignUp`: The expression that rounds up, unless it wraps.
* `alignUp_eq_add`: Where the next multiple is.
-/

namespace KernelModules

namespace Lib

/-- The next multiple of `n` from `x` on. -/
def alignUp (n x : Nat) : Nat := (x + n - 1) / n * n

section Words

variable {w : Nat}

/-- Clearing the low bits rounds down. -/
theorem toNat_and_not_mask (x : BitVec w) (k : Nat) :
    (x &&& ~~~BitVec.ofNat w (2 ^ k - 1)).toNat = x.toNat / 2 ^ k * 2 ^ k := by
  rw [← Nat.shiftRight_eq_div_pow, ← Nat.shiftLeft_eq]
  refine Nat.eq_of_testBit_eq fun i => ?_
  rw [BitVec.testBit_toNat, BitVec.getLsbD_and, BitVec.getLsbD_not, BitVec.getLsbD_ofNat,
    Nat.testBit_two_pow_sub_one, Nat.testBit_shiftLeft, Nat.testBit_shiftRight]
  by_cases hlow : k ≤ i
  · by_cases hhigh : i < w
    · rw [show k + (i - k) = i by omega, BitVec.testBit_toNat]
      simp only [hhigh, hlow, Nat.not_lt.mpr hlow, decide_true, decide_false, Bool.and_false,
        Bool.not_false, Bool.and_true, Bool.true_and]
    · -- Behind the word there are no bits.
      rw [show k + (i - k) = i by omega, BitVec.testBit_toNat,
        BitVec.getLsbD_of_ge x i (Nat.not_lt.mp hhigh), Bool.false_and, Bool.and_false]
  · by_cases hhigh : i < w
    · simp only [hhigh, hlow, Nat.not_le.mp hlow, decide_true, decide_false, Bool.and_self,
        Bool.not_true, Bool.and_false, Bool.false_and]
    · simp only [hhigh, hlow, decide_false, Bool.false_and, Bool.and_false]

/-- The expression that rounds up does so where its sum does not wrap. -/
theorem toNat_alignUp {k x : Nat} (hfit : x + 2 ^ k ≤ 2 ^ w) :
    ((BitVec.ofNat w x + BitVec.ofNat w (2 ^ k) - 1) &&& ~~~(BitVec.ofNat w (2 ^ k) - 1)).toNat =
      alignUp (2 ^ k) x := by
  have hpos := Nat.two_pow_pos k
  have hmask : BitVec.ofNat w (2 ^ k) - 1 = BitVec.ofNat w (2 ^ k - 1) := by
    have hsucc : BitVec.ofNat w (2 ^ k) = BitVec.ofNat w (2 ^ k - 1) + 1 := by
      rw [show (1 : BitVec w) = BitVec.ofNat w 1 from rfl, ← BitVec.ofNat_add,
        Nat.sub_add_cancel hpos]
    rw [hsucc, BitVec.add_sub_cancel]
  rw [BitVec.sub_eq_add_neg, BitVec.add_assoc, ← BitVec.sub_eq_add_neg, hmask,
    ← BitVec.ofNat_add, toNat_and_not_mask, BitVec.toNat_ofNat, Nat.mod_eq_of_lt (by omega),
    alignUp, Nat.add_sub_assoc hpos]

end Words

section Numbers

variable {n x : Nat}

theorem dvd_alignUp (n x : Nat) : n ∣ alignUp n x := Nat.dvd_mul_left n _

/-- The way to the next multiple, which is less than `n`. -/
theorem alignUp_eq_add (hn : 0 < n) : alignUp n x = x + (n - x % n) % n := by
  have hx : x / n * n + x % n = x := by
    rw [Nat.mul_comm]
    exact Nat.div_add_mod x n
  have hrest := Nat.mod_lt x hn
  unfold alignUp
  by_cases hzero : x % n = 0
  · have hdiv : (x + n - 1) / n = x / n := by
      rw [Nat.div_eq_iff hn]
      omega
    rw [hdiv, hzero, Nat.sub_zero, Nat.mod_self]
    omega
  · have hdiv : (x + n - 1) / n = x / n + 1 := by
      rw [Nat.div_eq_iff hn, Nat.succ_mul]
      omega
    rw [hdiv, Nat.mod_eq_of_lt (by omega), Nat.succ_mul]
    omega

end Numbers

end Lib

end KernelModules
