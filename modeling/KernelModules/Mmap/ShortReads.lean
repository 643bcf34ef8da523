import KernelModules.Mmap.Proc

/-!
# Reads of the /proc Entry with Buffers of Any Size

One opener of `test_mmap_proc_hello` that reads with buffers of any size,
faulting addresses included, until it is told the end of the file. The VFS
passes its file position along with every read.

The read function looks neither at the size nor at the position. A read that
finds `read_flag` set copies two pages, whatever was asked for, and says so
even if the copy faulted on the way; the next one returns 0. A file read in
blocks is one whose reads each fit their block and continue where the last one
stopped. This one behaves like it only for a caller whose first block takes
the whole file.

## Main definitions

* `stored`: How many bytes a read stores in the caller's buffer.
* `Opener`, `sizedStep`: The opener and its reads.
* `FitsBuffer`: A read stays in its buffer and returns what it stored.
* `Whole`: At the end of the file the opener has all of it.
* `inTurn`, `dataReads`, `ended`: Which reads copy, how many did, and whether
  the opener was told the end, by the history.
* `WholeRead`: The condition on a read.

## Theorems

* `sizedStep_tracked`: How the history and the opener go together.
* `run_fits_iff`: When the reads respect their buffers and deliver the file.
* `run_short`: A read of a hundred bytes.
-/

namespace KernelModules

namespace Mmap

open Kernel Lib

variable {π : Type*}

/-- How many bytes a read stores: all that `copy_to_user` does not say are
    missing. -/
def stored (M : Machine π) (d : Driver π) (readFlag : Bool) (buf : UserMem) : Nat :=
  if readFlag then 2 * M.pageSize - (copyToUser buf (procContent M d)).1 else 0

/-- `read_flag` and the opener. -/
structure Opener where
  readFlag : Bool
  reader : Reader

/-- The opener before its first read, with `read_flag` as others left it. -/
def Opener.start (readFlag : Bool) : Opener :=
  { readFlag := readFlag, reader := { got := [], done := false } }

/-- What a read of `size` bytes returned, as its caller takes it: 0 is the end
    of the file unless nothing was asked for. -/
def Reader.receiveSized (r : Reader) (size : Nat) (ret : Int) (buf : UserMem) : Reader :=
  if r.done then r
  else if ret = 0 ∧ 1 ≤ size then { r with done := true }
  else { r with got := r.got ++ bytes buf 0 ret.toNat }

/-- A read, with the size of the buffer and the memory behind it. -/
abbrev SizedRead := Nat × UserMem

/-- The opener after a read. -/
def Opener.read (M : Machine π) (d : Driver π) (s : Opener) (l : SizedRead) : Opener :=
  let call := testMmapProcRead M d s.readFlag l.2
  { readFlag := call.2.2, reader := s.reader.receiveSized l.1 call.1 call.2.1 }

def sizedStep (M : Machine π) (d : Driver π) (l : SizedRead) (s : Opener) : Option Opener :=
  some (s.read M d l)

/-- The read stores no more than fits the buffer, and returns how much. -/
def FitsBuffer (M : Machine π) (d : Driver π) (s : Opener) (l : SizedRead) : Prop :=
  stored M d s.readFlag l.2 ≤ l.1 ∧
    (testMmapProcRead M d s.readFlag l.2).1 = stored M d s.readFlag l.2

/-- An opener that was told the end of the file has all of it. -/
def Whole (M : Machine π) (d : Driver π) (s : Opener) : Prop :=
  s.reader.done = true → s.reader.got = procContent M d

/-- Whether the next read copies: the first one does if `read_flag` was set,
    and then they take turns. -/
def inTurn (b : Bool) : History Opener SizedRead → Bool
  | [] => b
  | _ :: h => !inTurn b h

/-- How many reads copied. -/
def dataReads (b : Bool) : History Opener SizedRead → Nat
  | [] => 0
  | _ :: h => if inTurn b h then dataReads b h + 1 else dataReads b h

/-- A read of one byte or more was told the end of the file. -/
def ended (b : Bool) : History Opener SizedRead → Bool
  | [] => false
  | (_, l) :: h => ended b h || (!inTurn b h && decide (1 ≤ l.1))

/-- A read in its turn has room for two pages that do not fault, and the first
    one out of turn that asks for anything comes after exactly one in turn. -/
def WholeRead (M : Machine π) (b : Bool) (h : History Opener SizedRead) (_ : Opener)
    (l : SizedRead) : Prop :=
  if inTurn b h then 2 * M.pageSize ≤ l.1 ∧ NoFault l.2 (2 * M.pageSize)
  else 1 ≤ l.1 → ended b h = false → dataReads b h = 1

section Reads

variable {M : Machine π} {d : Driver π} {buf : UserMem}

/-- What a read in its turn stores ends at the first fault. -/
theorem stored_eq : stored M d true buf = readable buf 0 (2 * M.pageSize) := by
  have hle := readable_le buf (2 * M.pageSize) 0
  rw [stored, if_pos rfl, copyToUser, procContent_length]
  simp only
  omega

/-- A read out of turn stores nothing and returns 0; one in its turn stores
    what it returns only if all of it fits. -/
theorem fitsBuffer_iff (s : Opener) (l : SizedRead) : FitsBuffer M d s l ↔
    (s.readFlag = true → 2 * M.pageSize ≤ l.1 ∧ NoFault l.2 (2 * M.pageSize)) := by
  have hle := readable_le l.2 (2 * M.pageSize) 0
  unfold FitsBuffer
  cases hflag : s.readFlag with
  | false => exact iff_of_true ⟨Nat.zero_le _, rfl⟩ (fun h => absurd h Bool.false_ne_true)
  | true =>
      have hret : (testMmapProcRead M d true l.2).1 = ((2 * M.pageSize : Nat) : Int) := rfl
      rw [stored_eq, hret, ← readable_eq_iff, imp_iff_right rfl]
      omega

/-- What a read that fits is to its opener. -/
theorem receiveSized_read (s : Opener) (l : SizedRead) (hfits : FitsBuffer M d s l) :
    (s.read M d l).reader =
      if s.reader.done then s.reader
      else if s.readFlag then { s.reader with got := s.reader.got ++ procContent M d }
      else if 1 ≤ l.1 then { s.reader with done := true }
      else s.reader := by
  have hpos := M.pageSize_pos
  rw [fitsBuffer_iff] at hfits
  unfold Opener.read Reader.receiveSized
  by_cases hdone : s.reader.done = true
  · simp only [if_pos hdone]
  · simp only [if_neg hdone]
    cases hflag : s.readFlag with
    | true =>
        have hret : (testMmapProcRead M d true l.2).1 = ((2 * M.pageSize : Nat) : Int) := rfl
        rw [hret, if_neg (by omega), Int.toNat_natCast, testMmapProcRead_data (hfits hflag).2,
          if_pos rfl]
    | false =>
        have hret : (testMmapProcRead M d false l.2).1 = 0 := rfl
        rw [hret, if_neg Bool.false_ne_true]
        by_cases hsize : 1 ≤ l.1
        · rw [if_pos ⟨rfl, hsize⟩, if_pos hsize]
        · rw [if_neg fun h => hsize h.2, if_neg hsize]
          exact congrArg (fun got => Reader.mk got s.reader.done) (List.append_nil _)

end Reads

section Runs

variable {M : Machine π} {d : Driver π} {s s' : Opener} {l : SizedRead} {b : Bool}
  {h : History Opener SizedRead}

/-- What the history says of the opener as long as its reads fit and deliver
    the file. -/
structure Tracked (M : Machine π) (d : Driver π) (b : Bool) (h : History Opener SizedRead)
    (s : Opener) : Prop where
  flag : s.readFlag = inTurn b h
  done : s.reader.done = ended b h
  whole : Whole M d s
  got : s.reader.done = false → s.reader.got = copies M d (dataReads b h)

theorem start_tracked : Tracked M d b [] (Opener.start b) where
  flag := rfl
  done := rfl
  whole := fun h => absurd h Bool.false_ne_true
  got := fun _ => rfl

/-- A read fits and leaves the opener with the whole file, if it is at the
    end, exactly if it is a whole read. -/
theorem step_fits_iff (ht : Tracked M d b h s) :
    FitsBuffer M d s l ∧ Whole M d (s.read M d l) ↔ WholeRead M b h s l := by
  unfold WholeRead
  have hfits := fitsBuffer_iff (M := M) (d := d) s l
  rw [ht.flag] at hfits
  cases hturn : inTurn b h with
  | true =>
      rw [hturn, imp_iff_right rfl] at hfits
      rw [if_pos rfl, ← hfits]
      refine and_iff_left_of_imp fun hfit => ?_
      -- A copy does not tell the end of the file.
      unfold Whole
      rw [receiveSized_read s l hfit, ht.flag, hturn]
      by_cases hdone : s.reader.done = true
      · rw [if_pos hdone]
        exact ht.whole
      · rw [if_neg hdone, if_pos rfl]
        exact fun h => absurd h hdone
  | false =>
      have hfit : FitsBuffer M d s l := hfits.mpr fun h => by
        rw [hturn] at h
        exact absurd h Bool.false_ne_true
      rw [and_iff_right hfit, if_neg Bool.false_ne_true]
      unfold Whole
      rw [receiveSized_read s l hfit, ht.flag, hturn, if_neg Bool.false_ne_true, ← ht.done]
      cases hdone : s.reader.done with
      | true =>
          rw [if_pos rfl]
          exact iff_of_true ht.whole (fun _ h => absurd h Bool.false_ne_true.symm)
      | false =>
          rw [if_neg Bool.false_ne_true]
          by_cases hsize : 1 ≤ l.1
          · rw [if_pos hsize, imp_iff_right hsize, imp_iff_right rfl, imp_iff_right rfl,
              ht.got hdone, copies_eq_iff]
          · rw [if_neg hsize, hdone]
            exact iff_of_true (fun h => absurd h Bool.false_ne_true) (fun h => absurd h hsize)

/-- Such a read keeps the history in touch with the opener. -/
theorem sizedStep_tracked (ht : Tracked M d b h s) (hread : WholeRead M b h s l) :
    Tracked M d b ((s, l) :: h) (s.read M d l) := by
  rcases (step_fits_iff (d := d) ht).mpr hread with ⟨hfit, hwhole⟩
  have hreader := receiveSized_read s l hfit
  rw [ht.flag] at hreader
  refine ⟨?_, ?_, hwhole, ?_⟩
  · show (testMmapProcRead M d s.readFlag l.2).2.2 = !inTurn b h
    rw [testMmapProcRead_flag, ht.flag]
  · rw [ended, hreader, ← ht.done]
    cases hdone : s.reader.done with
    | true => rw [if_pos rfl, hdone, Bool.true_or]
    | false =>
        rw [if_neg Bool.false_ne_true, Bool.false_or]
        cases hturn : inTurn b h with
        | true => rw [if_pos rfl, Bool.not_true, Bool.false_and, hdone]
        | false =>
            rw [if_neg Bool.false_ne_true, Bool.not_false, Bool.true_and]
            by_cases hsize : 1 ≤ l.1
            · rw [if_pos hsize, decide_eq_true hsize]
            · rw [if_neg hsize, decide_eq_false hsize, hdone]
  · intro hlast
    rw [dataReads]
    rw [hreader] at hlast ⊢
    by_cases hdone : s.reader.done = true
    · rw [if_pos hdone] at hlast
      exact absurd hdone (by rw [hlast]; exact Bool.false_ne_true)
    · have hgot := ht.got (Bool.eq_false_iff.mpr hdone)
      rw [if_neg hdone] at hlast ⊢
      cases hturn : inTurn b h with
      | true =>
          rw [if_pos rfl, if_pos rfl, copies_succ, hgot]
      | false =>
          rw [hturn, if_neg Bool.false_ne_true] at hlast
          rw [if_neg Bool.false_ne_true, if_neg Bool.false_ne_true]
          by_cases hsize : 1 ≤ l.1
          · rw [if_pos hsize] at hlast
            exact absurd hlast Bool.false_ne_true.symm
          · rw [if_neg hsize]
            exact hgot

/-- Whatever `read_flag` was when the opener started: all its reads respect
    their buffers, and the opener has the whole file when it is told the end,
    exactly if all its reads are whole reads. -/
theorem run_fits_iff (hr : Run (sizedStep M d) (Opener.start b) h s) :
    EveryStep (fun _ s l => FitsBuffer M d s l) h ∧ EveryState (Whole M d) h s ↔
      EveryStep (WholeRead M b) h := by
  have hstates : EveryState (Whole M d) h s ↔
      EveryStep (fun _ s l => Whole M d (s.read M d l)) h := by
    refine hr.everyState_iff_everyStep (fun h => absurd h Bool.false_ne_true) ?_
    intro h s l s' _ _ hstep
    cases hstep
    exact Iff.rfl
  rw [hstates, ← everyStep_and]
  refine hr.everyStep_iff_under (Tracked M d b) start_tracked ?_
  intro h s l s' _ ht hstep
  cases hstep
  refine ⟨step_fits_iff ht, fun hC => ?_⟩
  exact sizedStep_tracked ht ((step_fits_iff ht).mp hC)

/-- A read of two pages, and another one. -/
theorem run_fits_whole : ∃ h s,
    Run (sizedStep flatMachine filledDriver) (Opener.start true) h s ∧ s.reader.done = true ∧
      s.reader.got = procContent flatMachine filledDriver := by
  have hbuf := wideBuffer_noFault (2 * flatMachine.pageSize)
  have h0 : Run (sizedStep flatMachine filledDriver) (Opener.start true) [] _ := .start
  have h1 := h0.next (8192, wideBuffer) rfl
  have h2 := h1.next (8192, wideBuffer) rfl
  have hwhole := ((run_fits_iff h2).mpr ⟨fun _ _ => rfl, ⟨by decide, hbuf⟩, trivial⟩).2.1
  exact ⟨_, _, h2, rfl, hwhole rfl⟩

/-- A read of a hundred bytes stores two pages. -/
theorem run_short : ∃ h s,
    Run (sizedStep flatMachine filledDriver) (Opener.start true) h s ∧
      ¬ EveryStep (fun _ s l => FitsBuffer flatMachine filledDriver s l) h := by
  have h0 : Run (sizedStep flatMachine filledDriver) (Opener.start true) [] _ := .start
  have h1 := h0.next (100, wideBuffer) rfl
  refine ⟨_, _, h1, fun hfits => ?_⟩
  exact absurd ((fitsBuffer_iff _ _).mp hfits.1 rfl).1 (by decide)

end Runs

end Mmap

end KernelModules
