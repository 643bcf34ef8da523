import KernelModules.Kernel.User

/-!
# The Driver of simple.c

The buffer of the simple driver and its file operations. The buffer is a block
of `LENTH` bytes that the init function allocates and fills. Its neighbours
belong to others, and nothing in the driver keeps a caller away from them:
`simple_write` and `simple_read` copy as many bytes as the caller asks for.
The two ioctls copy `LENTH`, and print what is in the buffer then as a string.

Kernel memory is modelled from `kbuffer` on, by offset, and the driver records
which offsets it has read or written. All copies begin at the start of the
buffer, and so do the strings that are printed: `printk` reads them up to the
first zero, wherever that is.

## Main definitions

* `Dev`: The memory from `kbuffer` on, and what of it was accessed.
* `Dev.store`, `Dev.fetch`: Copies to and from the start of the buffer.
* `Dev.print`: The reads of a string printed from there.
* `simpleInit`: The buffer as the module's init leaves it.
* `simpleWrite`, `simpleRead`, `simpleIoctl`: The file operations.

## Theorems

* `simpleInit_mem`: The initial content.
* `simpleWrite_of_noFault`, `simpleRead_of_noFault`: The operations on memory
  that does not fault.
* `setmsg_of_noFault`, `getmsg_of_noFault`: The same for the ioctls.
* `setmsg_spec`, `getmsg_spec`: What an ioctl returns and stores in any case.
-/

namespace KernelModules

namespace Simple

open Kernel

def LENTH : Nat := 100

def MAGIC : BitVec 32 := 0x52
def GETMSG : BitVec 32 := ior MAGIC 1 8
def SETMSG : BitVec 32 := iow MAGIC 2 8

/-- The characters of `message`, without the byte that ends it. -/
def message : List UInt8 :=
  "Linux Device Driver, Advance - Simple Driver".toList.map fun c => c.toNat.toUInt8

/-- The memory from `kbuffer` on, and the offsets that have been accessed. -/
structure Dev where
  mem : Nat → UInt8
  touched : Nat → Bool

/-- The first `n` bytes have been accessed. -/
def Dev.touch (d : Dev) (n : Nat) : Dev := { d with touched := fun k => d.touched k || k < n }

/-- Bytes copied to the start of the buffer. -/
def Dev.store (d : Dev) (bs : List UInt8) : Dev :=
  { d.touch bs.length with mem := fun k => bs[k]?.getD (d.mem k) }

/-- The first `n` bytes from the start of the buffer on. -/
def Dev.fetch (d : Dev) (n : Nat) : List UInt8 := (List.range n).map d.mem

/-- `printk` with `%s` and `kbuffer`: it reads a byte if none of those before it
    is zero. -/
def Dev.print (d : Dev) : Dev :=
  { d with touched := fun k => d.touched k || decide (∀ j < k, d.mem j ≠ 0) }

/-- `memset(kbuffer, 0, LENTH)` and `memcpy(kbuffer, message, strlen(message))`
    in the block that `kmalloc` has returned, and the line that shows it. -/
def simpleInit (mem : Nat → UInt8) : Dev :=
  ((Dev.store { mem := mem, touched := fun _ => false } (List.replicate LENTH 0)).store
    message).print

/-- `copy_from_user(kbuffer, …, n)`: how many bytes were not copied. -/
def copyIn (u : UserMem) (n : Nat) (d : Dev) : Nat × Dev :=
  let r := copyFromUser u n
  (r.1, d.store r.2)

/-- `copy_to_user(…, kbuffer, n)`, with the user's memory afterwards. -/
def copyOut (u : UserMem) (n : Nat) (d : Dev) : Nat × UserMem × Dev :=
  let r := copyToUser u (d.fetch n)
  (r.1, r.2, d.touch (n - r.1))

def simpleWrite (u : UserMem) (len : Nat) (d : Dev) : Int × Dev :=
  let r := copyIn u len d
  (if r.1 ≠ 0 then -EFAULT else 0, r.2)

def simpleRead (u : UserMem) (len : Nat) (d : Dev) : Int × UserMem × Dev :=
  let r := copyOut u len d
  (if r.1 ≠ 0 then -EFAULT else 0, r.2)

/-- `simple_ioctl` with the memory that its argument points to, or `none` for
    NULL. -/
def simpleIoctl (cmd : BitVec 32) (arg : Option UserMem) (d : Dev) :
    Int × Option UserMem × Dev :=
  if cmd = GETMSG then
    match arg with
    | none => (-EINVAL, none, d)
    | some u =>
      let r := copyOut u LENTH d
      if r.1 ≠ 0 then (-EFAULT, some r.2.1, r.2.2) else (0, some r.2.1, r.2.2.print)
  else if cmd = SETMSG then
    match arg with
    | none => (-EINVAL, none, d)
    | some u =>
      let r := copyIn u LENTH d
      if r.1 ≠ 0 then (-EFAULT, some u, r.2) else (0, some u, r.2.print)
  else (-ENOTTY, arg, d)

section Memory

variable {d : Dev} {bs : List UInt8} {k n : Nat}

theorem store_mem_of_lt (hk : k < bs.length) : (d.store bs).mem k = bs[k] := by
  simp only [Dev.store, List.getElem?_eq_getElem hk, Option.getD_some]

theorem store_mem_of_le (hk : bs.length ≤ k) : (d.store bs).mem k = d.mem k := by
  simp only [Dev.store, List.getElem?_eq_none hk, Option.getD_none]

theorem print_mem : d.print.mem = d.mem := rfl

theorem touch_touched : (d.touch n).touched k = true ↔ d.touched k = true ∨ k < n := by
  rw [Dev.touch, Bool.or_eq_true, decide_eq_true_eq]

theorem store_touched : (d.store bs).touched k = true ↔ d.touched k = true ∨ k < bs.length :=
  touch_touched

theorem print_touched :
    d.print.touched k = true ↔ d.touched k = true ∨ ∀ j < k, d.mem j ≠ 0 := by
  rw [Dev.print, Bool.or_eq_true, decide_eq_true_eq]

/-- A printed string stays below a bound exactly if there is a zero. -/
theorem string_inside_iff {m : Nat → UInt8} :
    (∀ k, (∀ j < k, m j ≠ 0) → k < n) ↔ ∃ j < n, m j = 0 := by
  constructor
  · intro hinside
    by_contra hzero
    simp only [not_exists, not_and] at hzero
    exact Nat.lt_irrefl n (hinside n hzero)
  · rintro ⟨j, hj, hzero⟩ k hk
    by_contra hge
    exact hk j (Nat.lt_of_lt_of_le hj (Nat.not_lt.mp hge)) hzero

theorem message_length : message.length = 44 := by decide

/-- The message, and zeros up to the end of the buffer. -/
theorem simpleInit_mem (mem : Nat → UInt8) (hk : k < LENTH) :
    (simpleInit mem).mem k = message[k]?.getD 0 := by
  rw [simpleInit, print_mem]
  by_cases hmessage : k < message.length
  · rw [store_mem_of_lt hmessage, List.getElem?_eq_getElem hmessage, Option.getD_some]
  · rw [Nat.not_lt] at hmessage
    have hlength : k < (List.replicate LENTH (0 : UInt8)).length := by
      rw [List.length_replicate]
      exact hk
    rw [store_mem_of_le hmessage, store_mem_of_lt hlength, List.getElem_replicate,
      List.getElem?_eq_none hmessage, Option.getD_none]

/-- Loading the module stays inside the buffer: a zero ends the message. -/
theorem simpleInit_inside (mem : Nat → UInt8) : (simpleInit mem).touched k = true → k < LENTH := by
  have hmem : ∃ j < LENTH, (simpleInit mem).mem j = 0 := by
    refine ⟨message.length, by decide, ?_⟩
    rw [simpleInit_mem mem (by decide), List.getElem?_eq_none (Nat.le_refl _), Option.getD_none]
  intro htouched
  rw [simpleInit, print_touched, store_touched, store_touched, List.length_replicate,
    message_length] at htouched
  rcases htouched with ((hnone | hset) | hcopy) | hprint
  · exact absurd hnone Bool.false_ne_true
  · exact hset
  · exact Nat.lt_trans hcopy (by decide)
  · exact string_inside_iff.mpr hmem k hprint

end Memory

section NoFault

variable {d : Dev} {u : UserMem} {len : Nat}

theorem copyIn_of_noFault (hu : NoFault u len) : copyIn u len d = (0, d.store (bytes u 0 len)) := by
  rw [copyIn, copyFromUser_of_noFault hu]

theorem fetch_length : (d.fetch len).length = len := by
  rw [Dev.fetch, List.length_map, List.length_range]

/-- The caller's memory holds the first bytes of the buffer afterwards. -/
theorem copyOut_of_noFault (hu : NoFault u len) : ∃ u', bytes u' 0 len = d.fetch len ∧
    copyOut u len d = (0, u', d.touch len) := by
  have hfetch : NoFault u (d.fetch len).length := by
    rw [fetch_length]
    exact hu
  refine ⟨putUsers u 0 (d.fetch len), ?_, ?_⟩
  · have hcopy := bytes_copyToUser hfetch
    rw [copyToUser_of_noFault hfetch, fetch_length] at hcopy
    exact hcopy
  · rw [copyOut, copyToUser_of_noFault hfetch, Nat.sub_zero]

theorem simpleWrite_of_noFault (hu : NoFault u len) :
    simpleWrite u len d = (0, d.store (bytes u 0 len)) := by
  rw [simpleWrite, copyIn_of_noFault hu, if_neg (not_not.mpr rfl)]

theorem simpleRead_of_noFault (hu : NoFault u len) : ∃ u', bytes u' 0 len = d.fetch len ∧
    simpleRead u len d = (0, u', d.touch len) := by
  rcases copyOut_of_noFault (d := d) hu with ⟨u', hbytes, hcopy⟩
  refine ⟨u', hbytes, ?_⟩
  rw [simpleRead, hcopy, if_neg (not_not.mpr rfl)]

theorem setmsg_of_noFault (hu : NoFault u LENTH) :
    simpleIoctl SETMSG (some u) d = (0, some u, (d.store (bytes u 0 LENTH)).print) := by
  have hcmd : SETMSG ≠ GETMSG := by decide
  rw [simpleIoctl, if_neg hcmd, if_pos rfl]
  simp only [copyIn_of_noFault hu, ne_eq, not_true_eq_false, if_false]

theorem getmsg_of_noFault (hu : NoFault u LENTH) : ∃ u', bytes u' 0 LENTH = d.fetch LENTH ∧
    simpleIoctl GETMSG (some u) d = (0, some u', (d.touch LENTH).print) := by
  rcases copyOut_of_noFault (d := d) hu with ⟨u', hbytes, hcopy⟩
  refine ⟨u', hbytes, ?_⟩
  rw [simpleIoctl, if_pos rfl]
  simp only [hcopy, ne_eq, not_true_eq_false, if_false]

/-- A `SETMSG` returns and stores what its copy does. -/
theorem setmsg_spec (u : UserMem) (d : Dev) :
    (simpleIoctl SETMSG (some u) d).1 = (if (copyIn u LENTH d).1 ≠ 0 then -EFAULT else 0) ∧
      (simpleIoctl SETMSG (some u) d).2.2.mem = (copyIn u LENTH d).2.mem := by
  have hcmd : SETMSG ≠ GETMSG := by decide
  rw [simpleIoctl, if_neg hcmd, if_pos rfl]
  by_cases hcopy : (copyIn u LENTH d).1 ≠ 0
  · simp only [if_pos hcopy, and_self]
  · simp only [if_neg hcopy, print_mem, and_self]

/-- A `GETMSG` returns what its copy does, and stores nothing. -/
theorem getmsg_spec (u : UserMem) (d : Dev) :
    (simpleIoctl GETMSG (some u) d).1 = (if (copyOut u LENTH d).1 ≠ 0 then -EFAULT else 0) ∧
      (simpleIoctl GETMSG (some u) d).2.2.mem = d.mem := by
  rw [simpleIoctl, if_pos rfl]
  by_cases hcopy : (copyOut u LENTH d).1 ≠ 0
  · simp only [if_pos hcopy, true_and]
    rfl
  · simp only [if_neg hcopy, print_mem, true_and]
    rfl

/-- Neither NULL nor any other command does anything. -/
theorem simpleIoctl_null (cmd : BitVec 32) : ∃ e, simpleIoctl cmd none d = (e, none, d) := by
  unfold simpleIoctl
  split
  · exact ⟨_, rfl⟩
  · split <;> exact ⟨_, rfl⟩

theorem simpleIoctl_other {cmd : BitVec 32} {arg : Option UserMem} (hget : cmd ≠ GETMSG)
    (hset : cmd ≠ SETMSG) : simpleIoctl cmd arg d = (-ENOTTY, arg, d) := by
  unfold simpleIoctl
  rw [if_neg hget, if_neg hset]

end NoFault

end Simple

end KernelModules
