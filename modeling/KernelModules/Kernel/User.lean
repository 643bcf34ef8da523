import Mathlib.Data.List.Basic
import Mathlib.Logic.Function.Basic

/-!
# User Memory, Ioctl Commands and Error Codes

What a driver sees of the buffer a system call hands it. The buffer is read
and written one byte at a time, `k` bytes from its start, and any address in
it may fault.

`copy_from_user` and `copy_to_user` stop at the first fault and say how much
is missing.
`get_user` and `put_user` report a fault by a non-zero return value. Here a
fault is the absence of a byte: a faulting read leaves zero in its destination
and a faulting write stores nothing, which is all that remains of a fault in a
driver that does not look at the return value.

## Main definitions

* `UserMem`: A user buffer, by offset, without a byte where it faults.
* `getUser`, `putUser`: One byte fetched or stored.
* `putUsers`: Bytes stored one after the other.
* `bytes`: The bytes fetched from a stretch of the buffer.
* `copyFromUser`: Bytes copied up to the first fault, zeros behind it.
* `copyToUser`: Bytes stored up to the first fault.
* `toLong`, `ofLong`: The bytes of a `long`.
* `NoFault`: A stretch of the buffer that does not fault.
* `ioc`, `ior`, `iow`: Ioctl command numbers.
* `ENOENT`, `eio`, `EAGAIN`, `ENOMEM`, `EFAULT`, `ENODEV`, `EINVAL`, `ENOTTY`,
  `ENOSPC`, `ETIME`, `ECONNRESET`, `ESHUTDOWN`, `ERESTARTSYS`: Error codes,
  returned negated.

## Theorems

* `putUsers_apply`: What is at an address after bytes were stored.
* `readable_eq_iff`: When a stretch is readable to its end.
* `copyFromUser_eq_zero_iff`, `copyToUser_eq_zero_iff`: When nothing is missing
  after a copy.
* `bytes_putUsers`: What was stored without a fault is what is there.
* `copyFromUser_getElem`: What a copy leaves, with a fault or without.
* `copyFromUser_of_noFault`, `copyToUser_of_noFault`, `bytes_copyToUser`:
  Copies without a fault.
-/

namespace KernelModules

namespace Kernel

def ENOENT : Int := 2
/-- `EIO`, whose name is taken. -/
def eio : Int := 5
def EAGAIN : Int := 11
def ENOMEM : Int := 12
def EFAULT : Int := 14
def ENODEV : Int := 19
def EINVAL : Int := 22
def ENOTTY : Int := 25
def ENOSPC : Int := 28
def ETIME : Int := 62
def ECONNRESET : Int := 104
def ESHUTDOWN : Int := 108
def ERESTARTSYS : Int := 512

/-- `_IOC`: the direction, the size of the argument, the driver's magic and
    the number of the command. -/
def ioc (dir type nr size : BitVec 32) : BitVec 32 :=
  dir <<< 30 ||| size <<< 16 ||| type <<< 8 ||| nr

/-- `_IOW` and `_IOR`. -/
def iow (type nr size : BitVec 32) : BitVec 32 := ioc 1 type nr size
def ior (type nr size : BitVec 32) : BitVec 32 := ioc 2 type nr size

/-- The memory behind a user pointer, by offset; no byte where it faults. -/
abbrev UserMem := Nat → Option UInt8

/-- `get_user(x, buffer + k)`: the value left in `x`. -/
def getUser (u : UserMem) (k : Nat) : UInt8 := (u k).getD 0

/-- `put_user(b, buffer + k)`: the memory afterwards. -/
def putUser (u : UserMem) (k : Nat) (b : UInt8) : UserMem :=
  if (u k).isSome then Function.update u k (some b) else u

/-- Bytes stored one after the other from offset `k` on. -/
def putUsers (u : UserMem) (k : Nat) : List UInt8 → UserMem
  | [] => u
  | b :: bs => putUsers (putUser u k b) (k + 1) bs

/-- The `n` bytes fetched from offset `k` on. -/
def bytes (u : UserMem) (k n : Nat) : List UInt8 :=
  (List.range n).map fun j => getUser u (k + j)

/-- How many of the `n` addresses from offset `k` on can be read before one
    faults. -/
def readable (u : UserMem) : (k n : Nat) → Nat
  | _, 0 => 0
  | k, n + 1 => if (u k).isSome then readable u (k + 1) n + 1 else 0

/-- `copy_from_user` of `n` bytes: how many were not copied, and what is in the
    destination, which is zero behind a fault. -/
def copyFromUser (u : UserMem) (n : Nat) : Nat × List UInt8 :=
  (n - readable u 0 n, bytes u 0 (readable u 0 n) ++ List.replicate (n - readable u 0 n) 0)

/-- `copy_to_user` of these bytes: how many were not copied, and the memory
    afterwards. -/
def copyToUser (u : UserMem) (bs : List UInt8) : Nat × UserMem :=
  (bs.length - readable u 0 bs.length, putUsers u 0 (bs.take (readable u 0 bs.length)))

/-- The bytes of a `long`, lowest first. -/
def toLong (bs : List UInt8) : BitVec 64 :=
  bs.foldr (fun b v => v <<< 8 ||| b.toBitVec.setWidth 64) 0

/-- The same the other way round. -/
def ofLong (v : BitVec 64) : List UInt8 :=
  (List.range 8).map fun k => UInt8.ofBitVec ((v >>> (8 * k)).setWidth 8)

/-- None of the first `n` addresses of the buffer faults. -/
def NoFault (u : UserMem) (n : Nat) : Prop := ∀ k < n, (u k).isSome

instance (u : UserMem) (n : Nat) : Decidable (NoFault u n) :=
  inferInstanceAs (Decidable (∀ k < n, _))

@[simp] theorem bytes_length (u : UserMem) (k n : Nat) : (bytes u k n).length = n := by
  simp only [bytes, List.length_map, List.length_range]

/-- The leading bytes of what was fetched. -/
theorem bytes_take (u : UserMem) (k n m : Nat) : (bytes u k n).take m = bytes u k (min n m) := by
  simp only [bytes, ← List.map_take, List.take_range, Nat.min_comm]

theorem bytes_succ (u : UserMem) (k n : Nat) :
    bytes u k (n + 1) = getUser u k :: bytes u (k + 1) n := by
  simp only [bytes, List.range_succ_eq_map, List.map_cons, List.map_map, Nat.add_zero,
    List.cons.injEq, true_and]
  refine List.map_congr_left (fun j _ => ?_)
  simp only [Function.comp_apply, Nat.succ_eq_add_one]
  congr 1
  omega

theorem putUser_isSome (u : UserMem) (k j : Nat) (b : UInt8) :
    (putUser u k b j).isSome = (u j).isSome := by
  unfold putUser
  by_cases hk : (u k).isSome
  · rw [if_pos hk]
    by_cases hj : j = k
    · rw [hj, Function.update_self, hk, Option.isSome_some]
    · rw [Function.update_of_ne hj]
  · rw [if_neg hk]

theorem putUser_of_ne (u : UserMem) {k j : Nat} (b : UInt8) (hj : j ≠ k) :
    putUser u k b j = u j := by
  unfold putUser
  split
  · rw [Function.update_of_ne hj]
  · rfl

/-- What is at an address after bytes were stored: the byte that was stored
    there, unless the address faults. -/
theorem putUsers_apply (bs : List UInt8) : ∀ (u : UserMem) (k j : Nat),
    putUsers u k bs j =
      if k ≤ j ∧ j < k + bs.length ∧ (u j).isSome then bs[j - k]? else u j := by
  -- The next byte is stored one higher, so the offset varies with the list.
  induction bs with
  | nil =>
      intro u k j
      rw [putUsers, if_neg]
      rintro ⟨hle, hlt, -⟩
      rw [List.length_nil] at hlt
      omega
  | cons b bs ih =>
      intro u k j
      rw [putUsers, ih, putUser_isSome, List.length_cons]
      by_cases hj : j = k
      · -- The byte itself, which the others are stored above.
        rw [if_neg (by omega), hj, Nat.sub_self, List.getElem?_cons_zero, putUser]
        by_cases hk : (u k).isSome
        · rw [if_pos hk, if_pos ⟨Nat.le_refl k, by omega, hk⟩, Function.update_self]
        · rw [if_neg hk, if_neg fun h => hk h.2.2]
      · rw [putUser_of_ne u b hj]
        by_cases hin : k + 1 ≤ j ∧ j < k + 1 + bs.length ∧ (u j).isSome
        · rw [if_pos hin, if_pos ⟨by omega, by omega, hin.2.2⟩,
            show j - k = j - (k + 1) + 1 by omega, List.getElem?_cons_succ]
        · rw [if_neg hin, if_neg fun h => hin ⟨by omega, by omega, h.2.2⟩]

/-- Storing does not change which addresses fault. -/
theorem putUsers_isSome (bs : List UInt8) (u : UserMem) (k j : Nat) :
    (putUsers u k bs j).isSome = (u j).isSome := by
  rw [putUsers_apply]
  by_cases hin : k ≤ j ∧ j < k + bs.length ∧ (u j).isSome
  · rw [if_pos hin, hin.2.2, List.getElem?_eq_getElem (by omega), Option.isSome_some]
  · rw [if_neg hin]

/-- Storing bytes leaves everything below the first of them alone. -/
theorem putUsers_of_lt (bs : List UInt8) (u : UserMem) {k j : Nat} (hj : j < k) :
    putUsers u k bs j = u j := by
  rw [putUsers_apply, if_neg fun h => by omega]

/-- What was stored without a fault is what is there. -/
theorem bytes_putUsers (bs : List UInt8) : ∀ (u : UserMem) (k : Nat),
    (∀ j < bs.length, (u (k + j)).isSome) → bytes (putUsers u k bs) k bs.length = bs := by
  induction bs with
  | nil => intro u k _; rfl
  | cons b bs ih =>
      intro u k hok
      rw [List.length_cons, bytes_succ, putUsers, ih]
      · -- The first byte is still there after the rest were stored above it.
        congr 1
        have hk : (u k).isSome := hok 0 (by rw [List.length_cons]; omega)
        rw [getUser, putUsers_of_lt bs _ (Nat.lt_succ_self k), putUser, if_pos hk,
          Function.update_self, Option.getD_some]
      · intro j hj
        rw [putUser_isSome, show k + 1 + j = k + (j + 1) by omega]
        exact hok (j + 1) (by rw [List.length_cons]; omega)

theorem readable_of_isSome (u : UserMem) (n : Nat) : ∀ k, (∀ j < n, (u (k + j)).isSome) →
    readable u k n = n := by
  induction n with
  | zero => intro k _; rfl
  | succ n ih =>
      intro k hok
      have hk : (u k).isSome := hok 0 (Nat.succ_pos n)
      rw [readable, if_pos hk, ih]
      intro j hj
      rw [show k + 1 + j = k + (j + 1) by omega]
      exact hok (j + 1) (by omega)

theorem readable_le (u : UserMem) (n : Nat) : ∀ k, readable u k n ≤ n := by
  induction n with
  | zero => intro k; exact Nat.le_refl 0
  | succ n ih =>
      intro k
      have := ih (k + 1)
      unfold readable
      split <;> omega

/-- Only a stretch without a fault is readable to its end. -/
theorem isSome_of_readable (u : UserMem) (n : Nat) : ∀ k, readable u k n = n →
    ∀ j < n, (u (k + j)).isSome := by
  induction n with
  | zero => intro k _ j hj; exact absurd hj (Nat.not_lt_zero j)
  | succ n ih =>
      intro k hall j hj
      have hle := readable_le u n (k + 1)
      unfold readable at hall
      split at hall
      · rename_i hk
        cases j with
        | zero => exact hk
        | succ j =>
            rw [show k + (j + 1) = k + 1 + j by omega]
            exact ih (k + 1) (by omega) j (by omega)
      · omega

section Copies

variable (u : UserMem) (n : Nat)

@[simp] theorem copyFromUser_length : (copyFromUser u n).2.length = n := by
  have hle := readable_le u n 0
  rw [copyFromUser, List.length_append, bytes_length, List.length_replicate]
  omega

/-- What is in the destination after a copy, also behind a fault. -/
theorem copyFromUser_getElem {k : Nat} (hk : k < n) :
    (copyFromUser u n).2[k]? = some (if k < readable u 0 n then getUser u k else 0) := by
  by_cases hread : k < readable u 0 n
  · rw [if_pos hread, copyFromUser, List.getElem?_append_left (by rw [bytes_length]; exact hread)]
    simp only [bytes, List.getElem?_map, List.getElem?_range hread, Option.map_some, Nat.zero_add]
  · rw [if_neg hread, copyFromUser,
      List.getElem?_append_right (by rw [bytes_length]; exact Nat.not_lt.mp hread), bytes_length,
      List.getElem?_replicate, if_pos (by omega)]

end Copies

section NoFault

variable {u : UserMem} {n : Nat}

theorem readable_of_noFault (hu : NoFault u n) : readable u 0 n = n :=
  readable_of_isSome u n 0 fun j hj => (Nat.zero_add j).symm ▸ hu j hj

theorem readable_eq_iff : readable u 0 n = n ↔ NoFault u n := by
  refine ⟨fun hall k hk => ?_, readable_of_noFault⟩
  have := isSome_of_readable u n 0 hall k hk
  rwa [Nat.zero_add] at this

/-- Nothing is missing after a copy exactly if there was no fault. -/
theorem copyFromUser_eq_zero_iff : (copyFromUser u n).1 = 0 ↔ NoFault u n := by
  have hle := readable_le u n 0
  rw [← readable_eq_iff, copyFromUser]
  simp only
  omega

theorem copyToUser_eq_zero_iff (bs : List UInt8) :
    (copyToUser u bs).1 = 0 ↔ NoFault u bs.length := by
  have hle := readable_le u bs.length 0
  rw [← readable_eq_iff, copyToUser]
  simp only
  omega

theorem copyFromUser_of_noFault (hu : NoFault u n) : copyFromUser u n = (0, bytes u 0 n) := by
  rw [copyFromUser, readable_of_noFault hu, Nat.sub_self, List.replicate_zero, List.append_nil]

theorem copyToUser_of_noFault {bs : List UInt8} (hu : NoFault u bs.length) :
    copyToUser u bs = (0, putUsers u 0 bs) := by
  rw [copyToUser, readable_of_noFault hu, Nat.sub_self, List.take_length]

/-- What was copied to the buffer is what its caller finds there. -/
theorem bytes_copyToUser {bs : List UInt8} (hu : NoFault u bs.length) :
    bytes (copyToUser u bs).2 0 bs.length = bs := by
  rw [copyToUser_of_noFault hu]
  refine bytes_putUsers bs u 0 fun j hj => ?_
  rw [Nat.zero_add]
  exact hu j hj

end NoFault

end Kernel

end KernelModules
