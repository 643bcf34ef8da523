import KernelModules.Kernel.User
import KernelModules.Lib.Ring

/-!
# The Ring of poll.c

The shared state of the poll device and the parts of its entry points that
touch it: the two readiness tests, the poll mask, the transfer loops of
`device_read` and `device_write`, and the use count kept by open and release.
How a call waits is not here; the callers of these parts are.

The ring size is a parameter `N`, 23 in the source. The indices and the use
count are the source's `int`s, kept as integers so that `ir - 1` is `-1` at
index zero: one of the two fullness tests depends on that. Every index stays
between 0 and `N`, and the use count is the number of open files, so none of
them leaves the range of an `int` while `N` and that number are in it. The
count `i` of a transfer never passes `N - 1`, far below the `unsigned` range.

A transfer loop is a recursion on the iterations `len - i` that are left. It
hands back `i`, which is what the call returns, and the memory it changed.

`readLoop_eq` and `writeLoop_eq` give the loops in closed form, in the terms
of `Lib.Ring`: a read copies a window out and moves `ir` up, a write stores a
block and moves `iw` up to the index `ih` it computed on entry at most.

## Main definitions

* `Dev`: The ring, its indices and the use count.
* `isBufferEmpty`, `bufferFull`, `devicePoll`: The readiness tests.
* `readLoop`, `readTransfer`: The transfer of `device_read`.
* `writeLoop`, `writeTransfer`: The transfer of `device_write`.
* `deviceOpen`, `deviceRelease`: The use count and the reset of the indices.
* `Dev.Ok`: The indices lie in the ring.
* `Dev.held`, `Dev.contents`: How many bytes the ring holds, and which.

## Theorems

* `pollin_iff`, `pollout_iff`: The poll mask is the two tests.
* `readLoop_eq`, `writeLoop_eq`: The loops in closed form.
* `Dev.Ok.bufferFull_iff_room`: When the fullness test sees a full ring.
* `readTransfer_count`, `readTransfer_contents`, `readTransfer_bytes`: What a
  read returns, leaves behind and delivers.
* `writeTransfer_eq`, `writeTransfer_contents`: What a write returns and adds.
* `deviceOpen_contents_first`, `deviceOpen_of_ne`: When an open empties the
  ring.
-/

namespace KernelModules

namespace Poll

open Kernel Lib

/-- The static data of the module that the entry points share. -/
structure Dev where
  rbuf : Int → UInt8
  ir : Int
  iw : Int
  useCount : Int

/-- The module as loaded: static storage, and the zero `my_init` stores. -/
def Dev.init : Dev := { rbuf := fun _ => 0, ir := 0, iw := 0, useCount := 0 }

def isBufferEmpty (d : Dev) : Bool := decide (d.ir = d.iw)

def bufferFull (d : Dev) : Bool := decide (d.iw = d.ir - 1)

def POLLIN : BitVec 32 := 0x001
def POLLOUT : BitVec 32 := 0x004
def POLLRDNORM : BitVec 32 := 0x040
def POLLWRNORM : BitVec 32 := 0x100

def devicePoll (d : Dev) : BitVec 32 :=
  let mask := if isBufferEmpty d then 0 else POLLIN ||| POLLRDNORM
  if bufferFull d then mask else mask ||| (POLLOUT ||| POLLWRNORM)

/-- The loop of `device_read` with `rem` of its `len` iterations left. -/
def readLoop (N : Nat) : (rem i : Nat) → Dev → UserMem → Nat × Dev × UserMem
  | 0, i, d, u => (i, d, u)
  | rem + 1, i, d, u =>
    -- `if(ir==iw) break;`
    if d.ir = d.iw then (i, d, u)
    -- The increment and the reset at the end of the ring are one update.
    else readLoop N rem (i + 1)
      { d with ir := if d.ir + 1 = N then 0 else d.ir + 1 } (putUser u i (d.rbuf d.ir))

/-- What `device_read` does between taking `sema` and giving it back. -/
def readTransfer (N len : Nat) (d : Dev) (u : UserMem) : Nat × Dev × UserMem :=
  readLoop N len 0 d u

/-- The loop of `device_write`, stopping at `ih`. -/
def writeLoop (N : Nat) (ih : Int) : (rem i : Nat) → Dev → UserMem → Nat × Dev
  | 0, i, d, _ => (i, d)
  | rem + 1, i, d, u =>
    -- `if(iw==ih) break;`
    if d.iw = ih then (i, d)
    else writeLoop N ih rem (i + 1)
      { d with
        rbuf := Function.update d.rbuf d.iw (getUser u i)
        iw := if d.iw + 1 = N then 0 else d.iw + 1 } u

/-- What `device_write` does between taking `sema` and giving it back. -/
def writeTransfer (N len : Nat) (d : Dev) (u : UserMem) : Nat × Dev :=
  -- Here, unlike in `buffer_full`, the slot before `ir` is wrapped.
  let ih := if d.ir - 1 < 0 then d.ir - 1 + N else d.ir - 1
  writeLoop N ih len 0 d u

def deviceOpen (d : Dev) : Dev :=
  let d' := if d.useCount = 0 then { d with ir := 0, iw := 0 } else d
  { d' with useCount := d'.useCount + 1 }

def deviceRelease (d : Dev) : Dev := { d with useCount := d.useCount - 1 }

/-- The indices lie in the ring. -/
structure Dev.Ok (N : Nat) (d : Dev) : Prop where
  ir_nonneg : 0 ≤ d.ir
  ir_lt : d.ir < N
  iw_nonneg : 0 ≤ d.iw
  iw_lt : d.iw < N

/-- How many bytes the ring holds. -/
def Dev.held (N : Nat) (d : Dev) : Nat := Ring.span N d.ir d.iw

/-- The bytes the ring holds, oldest first. -/
def Dev.contents (N : Nat) (d : Dev) : List UInt8 := Ring.window N d.rbuf d.ir (d.held N)

/-- How many more bytes the ring can take. -/
def Dev.room (N : Nat) (d : Dev) : Nat := N - 1 - d.held N

@[simp] theorem isBufferEmpty_iff (d : Dev) : isBufferEmpty d = true ↔ d.ir = d.iw :=
  decide_eq_true_iff

@[simp] theorem bufferFull_iff (d : Dev) : bufferFull d = true ↔ d.iw = d.ir - 1 :=
  decide_eq_true_iff

/-- `POLLIN` is reported exactly when the ring is not empty. -/
theorem pollin_iff (d : Dev) : devicePoll d &&& POLLIN ≠ 0 ↔ isBufferEmpty d = false := by
  unfold devicePoll
  cases isBufferEmpty d <;> cases bufferFull d <;> decide

/-- `POLLOUT` is reported exactly when `buffer_full` does not hold. -/
theorem pollout_iff (d : Dev) : devicePoll d &&& POLLOUT ≠ 0 ↔ bufferFull d = false := by
  unfold devicePoll
  cases isBufferEmpty d <;> cases bufferFull d <;> decide

@[simp] theorem contents_length (N : Nat) (d : Dev) : (d.contents N).length = d.held N :=
  Ring.window_length _ _ _

section Indices

variable {N : Nat} {d : Dev}

theorem Dev.Ok.held_lt (hd : d.Ok N) : d.held N < N := by
  have := Ring.span_lt hd.ir_nonneg hd.ir_lt hd.iw_lt
  unfold Dev.held
  omega

theorem Dev.Ok.held_eq_zero_iff (hd : d.Ok N) : d.held N = 0 ↔ isBufferEmpty d = true := by
  rw [isBufferEmpty_iff]
  exact Ring.span_eq_zero_iff hd.ir_lt hd.iw_nonneg

/-- The index `device_write` stops at is the last free slot before `ir`. -/
theorem Dev.Ok.span_stop (hd : d.Ok N) :
    Ring.span N d.iw (if d.ir - 1 < 0 then d.ir - 1 + N else d.ir - 1) = d.room N := by
  have h1 := hd.ir_nonneg
  have h2 := hd.ir_lt
  have h3 := hd.iw_nonneg
  have h4 := hd.iw_lt
  unfold Dev.room Dev.held Ring.span
  split <;> split <;> split <;> omega

/-- `buffer_full` compares without wrapping, so it sees a full ring only
    while the read index is not zero. -/
theorem Dev.Ok.bufferFull_iff_room (hd : d.Ok N) :
    bufferFull d = true ↔ d.room N = 0 ∧ d.ir ≠ 0 := by
  have h1 := hd.ir_nonneg
  have h2 := hd.ir_lt
  have h3 := hd.iw_nonneg
  have h4 := hd.iw_lt
  rw [bufferFull_iff]
  unfold Dev.room Dev.held Ring.span
  split <;> omega

/-- The read loop in closed form: it puts out the front of the window, as far
    as it was asked to, and moves `ir` up behind it. -/
theorem readLoop_eq (rem : Nat) : ∀ (i : Nat) (d : Dev) (u : UserMem), d.Ok N →
    readLoop N rem i d u =
      (i + min rem (d.held N), { d with ir := Ring.wrap N (d.ir + (min rem (d.held N) : Nat)) },
        putUsers u i ((d.contents N).take rem)) := by
  -- One iteration takes the head off the window, so the device varies with the
  -- iterations left, and only the bounds on its indices are kept.
  induction rem with
  | zero =>
      intro i d u hd
      simp only [readLoop, Nat.zero_min, Int.natCast_zero, Int.add_zero, List.take_zero, putUsers,
        Nat.add_zero, Ring.wrap_of_lt hd.ir_lt]
  | succ rem ih =>
      intro i d u hd
      by_cases hempty : d.ir = d.iw
      · -- The ring ran empty: the loop breaks and there is nothing in the window.
        have hheld : d.held N = 0 := hd.held_eq_zero_iff.mpr ((isBufferEmpty_iff d).mpr hempty)
        simp only [readLoop, if_pos hempty, hheld, Nat.min_zero, Int.natCast_zero, Int.add_zero,
          Nat.add_zero, Ring.wrap_of_lt hd.ir_lt, Dev.contents, Ring.window_zero, List.take_nil,
          putUsers]
      · have hpos : d.held N ≠ 0 := fun h => hempty ((isBufferEmpty_iff d).mp
          (hd.held_eq_zero_iff.mp h))
        have hlt := hd.held_lt
        rw [readLoop, if_neg hempty, Ring.wrap_succ hd.ir_lt]
        set d' : Dev := { d with ir := Ring.wrap N (d.ir + 1) } with hnext
        have hd' : d'.Ok N :=
          { hd with
            ir_nonneg := Ring.wrap_nonneg (by have := hd.ir_nonneg; omega)
            ir_lt := Ring.wrap_lt (by have := hd.ir_nonneg; have := hd.ir_lt; omega) }
        -- One byte less is held, and it was the head of the window.
        have hheld : d.held N = d'.held N + 1 := by
          have h := Ring.span_wrap_left (m := 1) hd.ir_nonneg hd.ir_lt hd.iw_nonneg hd.iw_lt
            (by unfold Dev.held at hpos; omega)
          simp only [Int.natCast_one] at h
          unfold Dev.held at hpos ⊢
          rw [hnext, h]
          omega
        have hcont : d.contents N = d.rbuf d.ir :: d'.contents N := by
          unfold Dev.contents
          rw [hheld, Ring.window_succ d.rbuf hd.ir_lt (by omega)]
        rw [ih (i + 1) d' _ hd', hcont, List.take_succ_cons, putUsers]
        have hmin : min (rem + 1) (d.held N) = min rem (d'.held N) + 1 := by omega
        rw [hmin, show i + 1 + min rem (d'.held N) = i + (min rem (d'.held N) + 1) by omega]
        congr 3
        exact Ring.wrap_succ_add hd.ir_lt (by omega)

/-- The write loop in closed form: it stores the first bytes of the buffer, as
    many as it was asked to and as fit below the stop index, and moves `iw` up
    behind them. -/
theorem writeLoop_eq (ih : Int) (rem : Nat) (hih : 0 ≤ ih) (hihN : ih < N) :
    ∀ (i : Nat) (d : Dev) (u : UserMem), d.Ok N →
      writeLoop N ih rem i d u =
        (i + min rem (Ring.span N d.iw ih),
          { d with
            rbuf := Ring.store N d.rbuf d.iw (bytes u i (min rem (Ring.span N d.iw ih)))
            iw := Ring.wrap N (d.iw + (min rem (Ring.span N d.iw ih) : Nat)) }) := by
  -- What is left of the walk to `ih` shrinks by one with every byte stored; `ih`
  -- itself was computed before the loop and stays.
  induction rem with
  | zero =>
      intro i d u hd
      simp only [writeLoop, Nat.zero_min, Int.natCast_zero, Int.add_zero, Nat.add_zero,
        Ring.wrap_of_lt hd.iw_lt]
      rfl
  | succ rem irem =>
      intro i d u hd
      by_cases hstop : d.iw = ih
      · -- The slot before `ir` is reached: the loop breaks and stores nothing.
        simp only [writeLoop, ← hstop, Ring.span_self, Nat.min_zero,
          Int.natCast_zero, Int.add_zero, Nat.add_zero, Ring.wrap_of_lt hd.iw_lt]
        rfl
      · have hpos : Ring.span N d.iw ih ≠ 0 := fun h =>
          hstop ((Ring.span_eq_zero_iff hd.iw_lt hih).mp h)
        have hlt := Ring.span_lt hd.iw_nonneg hd.iw_lt hihN
        rw [writeLoop, if_neg hstop, Ring.wrap_succ hd.iw_lt]
        set d' : Dev := { d with
          rbuf := Function.update d.rbuf d.iw (getUser u i)
          iw := Ring.wrap N (d.iw + 1) } with hnext
        have hd' : d'.Ok N :=
          { hd with
            iw_nonneg := Ring.wrap_nonneg (by have := hd.iw_nonneg; omega)
            iw_lt := Ring.wrap_lt (by have := hd.iw_nonneg; have := hd.iw_lt; omega) }
        have hspan : Ring.span N d.iw ih = Ring.span N d'.iw ih + 1 := by
          have h := Ring.span_wrap_left (m := 1) hd.iw_nonneg hd.iw_lt hih hihN (by omega)
          simp only [Int.natCast_one] at h
          rw [hnext, h]
          omega
        have hmin : min (rem + 1) (Ring.span N d.iw ih) = min rem (Ring.span N d'.iw ih) + 1 := by
          omega
        have hwrap : Ring.wrap N (d'.iw + (min rem (Ring.span N d'.iw ih) : Nat))
            = Ring.wrap N (d.iw + (min rem (Ring.span N d'.iw ih) + 1 : Nat)) :=
          Ring.wrap_succ_add hd.iw_lt (by omega)
        rw [irem (i + 1) d' u hd', hmin, bytes_succ, Ring.store, hwrap,
          show i + 1 + min rem (Ring.span N d'.iw ih)
            = i + (min rem (Ring.span N d'.iw ih) + 1) by omega]

/-- A read returns the number of bytes held, or as many as it asked for. -/
theorem readTransfer_count (hd : d.Ok N) (len : Nat) (u : UserMem) :
    (readTransfer N len d u).1 = min len (d.held N) := by
  simp only [readTransfer, readLoop_eq len 0 d u hd, Nat.zero_add]

theorem readTransfer_dev (hd : d.Ok N) (len : Nat) (u : UserMem) :
    (readTransfer N len d u).2.1 =
      { d with ir := Ring.wrap N (d.ir + (min len (d.held N) : Nat)) } := by
  rw [readTransfer, readLoop_eq len 0 d u hd]

theorem readTransfer_ok (hd : d.Ok N) (len : Nat) (u : UserMem) :
    (readTransfer N len d u).2.1.Ok N := by
  have hlt := hd.held_lt
  have h1 := hd.ir_nonneg
  have h2 := hd.ir_lt
  rw [readTransfer_dev hd]
  exact { hd with
    ir_nonneg := Ring.wrap_nonneg (by omega)
    ir_lt := Ring.wrap_lt (by omega) }

theorem readTransfer_held (hd : d.Ok N) (len : Nat) (u : UserMem) :
    (readTransfer N len d u).2.1.held N = d.held N - min len (d.held N) := by
  rw [readTransfer_dev hd]
  exact Ring.span_wrap_left hd.ir_nonneg hd.ir_lt hd.iw_nonneg hd.iw_lt (Nat.min_le_right _ _)

/-- A read leaves in the ring all but the bytes it counted. -/
theorem readTransfer_contents (hd : d.Ok N) (len : Nat) (u : UserMem) :
    (readTransfer N len d u).2.1.contents N = (d.contents N).drop (min len (d.held N)) := by
  have hlt := hd.held_lt
  unfold Dev.contents
  rw [readTransfer_held hd, Ring.window_drop d.rbuf hd.ir_lt (Nat.min_le_right _ _) (by omega),
    readTransfer_dev hd]

/-- Without a fault the user buffer starts with the oldest bytes. -/
theorem readTransfer_bytes (hd : d.Ok N) (len : Nat) (u : UserMem)
    (hu : NoFault u (min len (d.held N))) :
    bytes (readTransfer N len d u).2.2 0 (min len (d.held N))
      = (d.contents N).take (min len (d.held N)) := by
  -- Taking more than is held takes all of it.
  have htake : (d.contents N).take len = (d.contents N).take (min len (d.held N)) := by
    rw [← contents_length N d, ← List.take_eq_take_min]
  have hlen : ((d.contents N).take (min len (d.held N))).length = min len (d.held N) := by
    rw [List.length_take, contents_length]
    omega
  have hput := bytes_putUsers ((d.contents N).take (min len (d.held N))) u 0 (fun j hj => by
    rw [hlen] at hj
    rw [Nat.zero_add]
    exact hu j hj)
  rw [readTransfer, readLoop_eq len 0 d u hd, htake]
  rwa [hlen] at hput

/-- A write returns the room in the ring, or as many bytes as it was given. It
    stores the leading bytes of the buffer from `iw` on. -/
theorem writeTransfer_eq (hd : d.Ok N) (len : Nat) (u : UserMem) :
    writeTransfer N len d u = (min len (d.room N),
      { d with
        rbuf := Ring.store N d.rbuf d.iw (bytes u 0 (min len (d.room N)))
        iw := Ring.wrap N (d.iw + (min len (d.room N) : Nat)) }) := by
  have h1 := hd.ir_nonneg
  have h2 := hd.ir_lt
  rw [writeTransfer, writeLoop_eq _ len (by split <;> omega) (by split <;> omega) 0 d u hd,
    hd.span_stop, Nat.zero_add]

theorem writeTransfer_count (hd : d.Ok N) (len : Nat) (u : UserMem) :
    (writeTransfer N len d u).1 = min len (d.room N) := by
  rw [writeTransfer_eq hd]

theorem writeTransfer_ok (hd : d.Ok N) (len : Nat) (u : UserMem) :
    (writeTransfer N len d u).2.Ok N := by
  have hroom : d.room N < N := by
    have := hd.held_lt
    unfold Dev.room
    omega
  have h1 := hd.iw_nonneg
  have h2 := hd.iw_lt
  rw [writeTransfer_eq hd]
  exact { hd with
    iw_nonneg := Ring.wrap_nonneg (by omega)
    iw_lt := Ring.wrap_lt (by omega) }

theorem writeTransfer_held (hd : d.Ok N) (len : Nat) (u : UserMem) :
    (writeTransfer N len d u).2.held N = d.held N + min len (d.room N) := by
  have hlt := hd.held_lt
  have hfit : (Ring.span N d.ir d.iw : Int) + (min len (d.room N) : Nat) < N := by
    unfold Dev.room
    unfold Dev.held at hlt ⊢
    omega
  rw [writeTransfer_eq hd]
  exact Ring.span_wrap_right hd.ir_nonneg hd.ir_lt hd.iw_nonneg hfit

/-- A write appends the leading bytes of its buffer, as many as it counted. -/
theorem writeTransfer_contents (hd : d.Ok N) (len : Nat) (u : UserMem) :
    (writeTransfer N len d u).2.contents N = d.contents N ++ bytes u 0 (min len (d.room N)) := by
  have hlt := hd.held_lt
  -- `iw` stands right behind the window, which is where storing appends.
  have hiw : d.iw = Ring.wrap N (d.ir + (d.held N : Nat)) :=
    (Ring.wrap_add_span hd.ir_nonneg hd.ir_lt hd.iw_nonneg hd.iw_lt).symm
  have hstore := Ring.window_store (n := N) (bytes u 0 (min len (d.room N))) d.rbuf d.ir (d.held N)
    hd.ir_nonneg hd.ir_lt (by rw [bytes_length]; unfold Dev.room; omega)
  rw [← hiw, bytes_length] at hstore
  unfold Dev.contents
  rw [writeTransfer_held hd, writeTransfer_eq hd]
  exact hstore

theorem deviceOpen_ok (hN : 0 < N) (hd : d.Ok N) : (deviceOpen d).Ok N := by
  unfold deviceOpen
  by_cases hu : d.useCount = 0
  · simp only [if_pos hu]
    exact ⟨Int.le_refl 0, Int.natCast_pos.mpr hN, Int.le_refl 0, Int.natCast_pos.mpr hN⟩
  · simp only [if_neg hu]
    exact { hd with }

/-- The open that finds no other empties the ring. -/
theorem deviceOpen_contents_first (hu : d.useCount = 0) : (deviceOpen d).contents N = [] := by
  simp only [deviceOpen, if_pos hu, Dev.contents, Dev.held, Ring.span_self, Ring.window_zero]

/-- Any other open leaves the ring and its indices alone. -/
theorem deviceOpen_of_ne (hu : d.useCount ≠ 0) :
    deviceOpen d = { d with useCount := d.useCount + 1 } := by
  simp only [deviceOpen, if_neg hu]

@[simp] theorem deviceOpen_useCount : (deviceOpen d).useCount = d.useCount + 1 := by
  unfold deviceOpen
  split <;> rfl

end Indices

end Poll

end KernelModules
