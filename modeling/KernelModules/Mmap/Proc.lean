import KernelModules.Lib.Run
import KernelModules.Lib.Table
import KernelModules.Mmap.Driver
import KernelModules.Mmap.Files

/-!
# Readers of the /proc Entry of mmap_kmalloc.c

Any number of openers of `test_mmap_proc_hello`, each reading as often as it
likes with a buffer of two pages or more. An opener takes what a read returns
for the next part of the file, and 0 for its end.

The read function has no file position. Whether it copies the area or returns
0 goes by `read_flag`, one variable for all openers, which every read turns
over. So the reads of all openers together take turns. An opener that reads
until it gets 0 has received one copy exactly if its first read came at an
even count and its second at an odd one (`run_oneCopy_iff`).

## Main definitions

* `procContent`: The bytes of the area.
* `testMmapProcRead`: The read function.
* `Reader`, `Readers`, `ProcStep`, `procStep`: The openers and their reads.
* `OneCopy`: Who was told the end of the file has one copy of it.
* `reads`, `readsOf`, `Reading`: The reads so far, those of an opener, and
  whether it has been told the end, by the history.
* `OwnTurn`: The condition on a read.

## Theorems

* `testMmapProcRead_data`: A read in its turn hands on the whole area.
* `procStep_counted`: The history tells what an opener has received.
* `run_oneCopy_iff`: When every opener receives one copy.
* `run_empty_file`: An opener to whom the file is empty.
-/

namespace KernelModules

namespace Mmap

open Kernel Lib

variable {π φ : Type*}

/-- The two pages of `kmalloc_area`. -/
def procContent (M : Machine π) (d : Driver π) : List UInt8 :=
  (List.range (2 * M.pageSize)).map fun k => d.mem (d.kmallocArea + k)

/-- `test_mmap_proc_read`: what it returns, the caller's buffer and
    `read_flag` afterwards. It looks neither at the size of the buffer nor at
    the offset, nor at what `copy_to_user` returns. -/
def testMmapProcRead (M : Machine π) (d : Driver π) (readFlag : Bool) (buf : UserMem) :
    Int × UserMem × Bool :=
  let len := 2 * M.pageSize
  if readFlag then (len, (copyToUser buf (procContent M d)).2, false)
  else (0, buf, true)

/-- What an opener has received until it was told the end of the file. -/
structure Reader where
  got : List UInt8
  done : Bool

/-- What a read returned, as its caller takes it. -/
def Reader.receive (r : Reader) (ret : Int) (buf : UserMem) : Reader :=
  if r.done then r
  else if ret = 0 then { r with done := true }
  else { r with got := r.got ++ bytes buf 0 ret.toNat }

/-- One more copy for an opener whose turn it is, and else the end of the
    file. -/
def Reader.next (content : List UInt8) (turn : Bool) (r : Reader) : Reader :=
  if r.done then r
  else if turn then { r with got := r.got ++ content }
  else { r with done := true }

/-- `read_flag` and the openers. -/
structure Readers (φ : Type*) where
  readFlag : Bool
  reader : φ → Option Reader

/-- The module as loaded. -/
def Readers.loaded : Readers φ := { readFlag := true, reader := fun _ => none }

/-- A new opener, who has received nothing. -/
def Readers.opened [DecidableEq φ] (s : Readers φ) (f : φ) : Readers φ :=
  { s with reader := Function.update s.reader f (some { got := [], done := false }) }

/-- The openers after one of them has made a read. -/
def Readers.turned [DecidableEq φ] (content : List UInt8) (s : Readers φ) (f : φ) (r : Reader) :
    Readers φ :=
  { readFlag := !s.readFlag
    reader := Function.update s.reader f (some (r.next content s.readFlag)) }

inductive ProcStep (φ : Type*) where
  | openProc (f : φ)
  | readProc (f : φ) (size : Nat) (buf : UserMem)

/-- Every opener has a file of its own, and room for two pages in a buffer
    that does not fault. -/
def procStep [DecidableEq φ] (M : Machine π) (d : Driver π) :
    ProcStep φ → Readers φ → Option (Readers φ)
  | .openProc f, s =>
    match s.reader f with
    | some _ => none
    | none => some (s.opened f)
  | .readProc f size buf, s =>
    match s.reader f with
    | none => none
    | some r =>
      if 2 * M.pageSize ≤ size ∧ ∀ k < 2 * M.pageSize, (buf k).isSome then
        let call := testMmapProcRead M d s.readFlag buf
        some { readFlag := call.2.2
               reader := Function.update s.reader f (some (r.receive call.1 call.2.1)) }
      else none

/-- Every opener that was told the end of the file has one copy of it. -/
def OneCopy (M : Machine π) (d : Driver π) (s : Readers φ) : Prop :=
  ∀ f, ∀ r ∈ s.reader f, r.done = true → r.got = procContent M d

section Turns

variable [DecidableEq φ]

/-- How many reads there have been since the module was loaded. -/
def reads : History (Readers φ) (ProcStep φ) → Nat
  | [] => 0
  | (_, .readProc _ _ _) :: h => reads h + 1
  | (_, .openProc _) :: h => reads h

/-- How many of them were reads of this opener. -/
def readsOf (f : φ) : History (Readers φ) (ProcStep φ) → Nat
  | [] => 0
  | (_, .readProc g _ _) :: h => if g = f then readsOf f h + 1 else readsOf f h
  | (_, .openProc _) :: h => readsOf f h

/-- Every read of this opener so far came after an even number of reads. -/
def Reading (f : φ) : History (Readers φ) (ProcStep φ) → Prop
  | [] => True
  | (_, .readProc g _ _) :: h => (g = f → reads h % 2 = 0) ∧ Reading f h
  | (_, .openProc _) :: h => Reading f h

/-- A read after an odd number of reads, by an opener all of whose reads came
    after an even number, is that opener's second one. -/
def OwnTurn (h : History (Readers φ) (ProcStep φ)) : ProcStep φ → Prop
  | .readProc f _ _ => reads h % 2 = 1 → Reading f h → readsOf f h = 1
  | .openProc _ => True

instance decidableReading (f : φ) :
    (h : History (Readers φ) (ProcStep φ)) → Decidable (Reading f h)
  | [] => .isTrue trivial
  | (_, .readProc _ _ _) :: h =>
    haveI := decidableReading f h
    inferInstanceAs (Decidable ((_ → _) ∧ Reading f h))
  | (_, .openProc _) :: h => decidableReading f h

instance (h : History (Readers φ) (ProcStep φ)) : (l : ProcStep φ) → Decidable (OwnTurn h l)
  | .readProc f _ _ => inferInstanceAs (Decidable (_ → Reading f h → _))
  | .openProc _ => .isTrue trivial

end Turns

section Reads

variable {M : Machine π} {d : Driver π}

theorem procContent_length : (procContent M d).length = 2 * M.pageSize := by
  rw [procContent, List.length_map, List.length_range]

/-- A read in its turn leaves the whole area in the caller's buffer. -/
theorem testMmapProcRead_data {buf : UserMem} (hbuf : NoFault buf (2 * M.pageSize)) :
    bytes (testMmapProcRead M d true buf).2.1 0 (2 * M.pageSize) = procContent M d := by
  have hcontent : NoFault buf (procContent M d).length := by
    rw [procContent_length]
    exact hbuf
  have hcopy := bytes_copyToUser hcontent
  rw [procContent_length] at hcopy
  exact hcopy

/-- What a read is to its opener. -/
theorem receive_read (r : Reader) (readFlag : Bool) {buf : UserMem}
    (hbuf : NoFault buf (2 * M.pageSize)) :
    r.receive (testMmapProcRead M d readFlag buf).1 (testMmapProcRead M d readFlag buf).2.1 =
      r.next (procContent M d) readFlag := by
  have hpos := M.pageSize_pos
  unfold Reader.receive Reader.next
  by_cases hdone : r.done = true
  · rw [if_pos hdone, if_pos hdone]
  · rw [if_neg hdone, if_neg hdone]
    cases readFlag with
    | true =>
        have hret : (testMmapProcRead M d true buf).1 = ((2 * M.pageSize : Nat) : Int) := rfl
        rw [hret, if_neg (by omega), Int.toNat_natCast, testMmapProcRead_data hbuf, if_pos rfl]
    | false => rfl

theorem testMmapProcRead_flag (readFlag : Bool) (buf : UserMem) :
    (testMmapProcRead M d readFlag buf).2.2 = !readFlag := by
  cases readFlag with
  | true => rfl
  | false => rfl

theorem next_done (content : List UInt8) (turn : Bool) (r : Reader) :
    (r.next content turn).done = false ↔ r.done = false ∧ turn = true := by
  unfold Reader.next
  cases hdone : r.done <;> cases turn <;> simp only [hdone, if_true, if_false, Bool.false_eq_true,
    Bool.true_eq_false, and_self, and_false, false_and]

theorem next_got {content : List UInt8} {turn : Bool} {r : Reader}
    (hnext : (r.next content turn).done = false) :
    (r.next content turn).got = r.got ++ content := by
  rcases (next_done content turn r).mp hnext with ⟨hdone, hturn⟩
  rw [Reader.next, hdone, hturn]
  rfl

theorem next_end {content : List UInt8} {r : Reader} (hdone : r.done = false) :
    r.next content false = { got := r.got, done := true } := by
  rw [Reader.next, hdone]
  rfl

end Reads

section Runs

variable [DecidableEq φ] {M : Machine π} {d : Driver π} {s s' : Readers φ} {l : ProcStep φ}
  {h : History (Readers φ) (ProcStep φ)}

/-- As many copies of the area, one after the other. -/
def copies (M : Machine π) (d : Driver π) (n : Nat) : List UInt8 :=
  (List.replicate n (procContent M d)).flatten

theorem copies_succ (n : Nat) : copies M d (n + 1) = copies M d n ++ procContent M d := by
  rw [copies, List.replicate_succ', List.flatten_append, List.flatten_singleton, copies]

theorem copies_length (n : Nat) : (copies M d n).length = n * (2 * M.pageSize) := by
  induction n with
  | zero => rw [Nat.zero_mul]; rfl
  | succ n ih => rw [copies_succ, List.length_append, ih, procContent_length, Nat.succ_mul n]

theorem copies_eq_iff (n : Nat) : copies M d n = procContent M d ↔ n = 1 := by
  have hpos := M.pageSize_pos
  constructor
  · intro hcopy
    have hlength := congrArg List.length hcopy
    rw [copies_length, procContent_length] at hlength
    exact Nat.eq_of_mul_eq_mul_right (by omega) (hlength.trans (Nat.one_mul _).symm)
  · rintro rfl
    rw [copies_succ]
    rfl

/-- What the history says of the state: the flag goes by the parity of all
    reads, and an opener that has not been told the end has a copy from each
    of its own. -/
structure Counted (M : Machine π) (d : Driver π) (h : History (Readers φ) (ProcStep φ))
    (s : Readers φ) : Prop where
  flag : s.readFlag = decide (reads h % 2 = 0)
  unopened : ∀ f, s.reader f = none → readsOf f h = 0 ∧ Reading f h
  reading : ∀ f, ∀ r ∈ s.reader f, r.done = false ↔ Reading f h
  got : ∀ f, ∀ r ∈ s.reader f, r.done = false → r.got = copies M d (readsOf f h)

theorem loaded_counted : Counted M d [] (Readers.loaded : Readers φ) where
  flag := rfl
  unopened := fun _ _ => ⟨rfl, trivial⟩
  reading := fun _ _ hr => by simp only [Readers.loaded, Option.mem_def, reduceCtorEq] at hr
  got := fun _ _ hr => by simp only [Readers.loaded, Option.mem_def, reduceCtorEq] at hr

theorem procStep_open {f : φ} (hstep : procStep M d (.openProc f) s = some s') :
    s.reader f = none ∧ s' = s.opened f := by
  simp only [procStep] at hstep
  split at hstep
  · simp only [reduceCtorEq] at hstep
  · rename_i hnone
    rw [Option.some.injEq] at hstep
    exact ⟨hnone, hstep.symm⟩

theorem procStep_read {f : φ} {size : Nat} {buf : UserMem}
    (hstep : procStep M d (.readProc f size buf) s = some s') :
    ∃ r ∈ s.reader f, s' = s.turned (procContent M d) f r := by
  simp only [procStep] at hstep
  split at hstep
  · simp only [reduceCtorEq] at hstep
  · rename_i r hr
    split at hstep
    · rename_i hbuf
      rw [Option.some.injEq, receive_read r s.readFlag hbuf.2, testMmapProcRead_flag] at hstep
      exact ⟨r, hr, hstep.symm⟩
    · simp only [reduceCtorEq] at hstep

theorem open_counted {f : φ} (hc : Counted M d h s)
    (hstep : procStep M d (.openProc f) s = some s') : Counted M d ((s, .openProc f) :: h) s' := by
  rcases procStep_open hstep with ⟨hnone, rfl⟩
  refine ⟨hc.flag, ?_, ?_, ?_⟩
  · intro g hg
    exact hc.unopened g (Table.update_eq_none_iff.mp hg).2
  · intro g r hr
    rcases Table.update_some_iff.mp hr with ⟨rfl, rfl⟩ | ⟨_, hr⟩
    · exact iff_of_true rfl (hc.unopened g hnone).2
    · exact hc.reading g r hr
  · intro g r hr hdone
    rcases Table.update_some_iff.mp hr with ⟨rfl, rfl⟩ | ⟨_, hr⟩
    · rw [readsOf, (hc.unopened g hnone).1]
      rfl
    · exact hc.got g r hr hdone

theorem read_counted {f : φ} {size : Nat} {buf : UserMem} (hc : Counted M d h s)
    (hstep : procStep M d (.readProc f size buf) s = some s') :
    Counted M d ((s, .readProc f size buf) :: h) s' := by
  rcases procStep_read hstep with ⟨r, hr, rfl⟩
  refine ⟨?_, ?_, ?_, ?_⟩
  · show (!s.readFlag) = _
    rw [hc.flag, reads, ← decide_not, decide_eq_decide]
    omega
  · intro g hg
    rcases Table.update_eq_none_iff.mp hg with ⟨hgf, hnone⟩
    rcases hc.unopened g hnone with ⟨hzero, hreading⟩
    rw [readsOf, if_neg (Ne.symm hgf)]
    exact ⟨hzero, fun hfg => absurd hfg.symm hgf, hreading⟩
  · intro g r' hr'
    rcases Table.update_some_iff.mp hr' with ⟨rfl, rfl⟩ | ⟨hgf, hr'⟩
    · -- The opener goes on reading exactly if this read is in its turn.
      rw [next_done, hc.reading g r hr, hc.flag, decide_eq_true_eq, Reading, and_comm]
      exact and_congr_left fun _ => ⟨fun heven _ => heven, fun heven => heven rfl⟩
    · rw [hc.reading g r' hr', Reading]
      exact (and_iff_right fun hfg => absurd hfg.symm hgf).symm
  · intro g r' hr' hdone
    rcases Table.update_some_iff.mp hr' with ⟨rfl, rfl⟩ | ⟨hgf, hr'⟩
    · rw [next_got hdone, hc.got g r hr ((next_done _ _ _).mp hdone).1, readsOf, if_pos rfl,
        copies_succ]
    · rw [hc.got g r' hr' hdone, readsOf, if_neg (Ne.symm hgf)]

theorem procStep_counted (hc : Counted M d h s) (hstep : procStep M d l s = some s') :
    Counted M d ((s, l) :: h) s' := by
  cases l with
  | openProc f => exact open_counted hc hstep
  | readProc f size buf => exact read_counted hc hstep

/-- The law stands for the others whatever an opener does. -/
theorem oneCopy_update {f : φ} {r : Reader} (hs : OneCopy M d s)
    (hreader : s'.reader = Function.update s.reader f (some r)) :
    OneCopy M d s' ↔ (r.done = true → r.got = procContent M d) := by
  rw [OneCopy, hreader]
  constructor
  · intro hall
    exact hall f r (Function.update_self f (some r) s.reader)
  · intro hr g r' hr'
    rcases Table.update_some_iff.mp hr' with ⟨rfl, rfl⟩ | ⟨_, hr'⟩
    · exact hr
    · exact hs g r' hr'

theorem procStep_oneCopy_iff (hc : Counted M d h s) (hs : OneCopy M d s)
    (hstep : procStep M d l s = some s') : OneCopy M d s' ↔ OwnTurn h l := by
  cases l with
  | openProc f =>
      rcases procStep_open hstep with ⟨_, rfl⟩
      rw [oneCopy_update hs rfl]
      exact iff_of_true (fun hdone => Bool.noConfusion hdone) trivial
  | readProc f size buf =>
      rcases procStep_read hstep with ⟨r, hr, rfl⟩
      rw [oneCopy_update hs rfl, OwnTurn, ← hc.reading f r hr]
      have hflag := hc.flag
      cases hdone : r.done with
      | true =>
          -- Nothing more counts for an opener that was told the end.
          rw [Reader.next, if_pos hdone]
          exact iff_of_true (fun _ => hs f r hr hdone) fun _ h => Bool.noConfusion h
      | false =>
          by_cases heven : reads h % 2 = 0
          · rw [decide_eq_true heven] at hflag
            have hnext := (next_done (procContent M d) _ r).mpr ⟨hdone, hflag⟩
            rw [hnext]
            exact iff_of_true (fun h => Bool.noConfusion h) fun hodd => by omega
          · -- The opener is told the end, with the copies it has by now.
            rw [decide_eq_false heven] at hflag
            rw [hflag, next_end hdone, hc.got f r hr hdone]
            simp only [true_implies, copies_eq_iff]
            exact ⟨fun hone _ => hone, fun hone => hone (by omega)⟩

/-- Every opener that is told the end of the file has received one copy of
    it, in the runs in which each of them is told so by its second read, and
    in no others. -/
theorem run_oneCopy_iff (hr : Run (procStep M d) Readers.loaded h s) :
    EveryState (OneCopy M d) h s ↔ EveryStep (fun h _ l => OwnTurn h l) h := by
  refine hr.everyState_iff_everyStep ?_ ?_
  · intro f r hr
    simp only [Readers.loaded, Option.mem_def, reduceCtorEq] at hr
  · intro h s l s' hr hs hstep
    have hc : Counted M d h s := by
      refine hr.historyInvariant (Counted M d) loaded_counted ?_
      intro h s l s' _ hc hstep
      exact procStep_counted hc hstep
    exact procStep_oneCopy_iff hc hs hstep

theorem run_openProc (hr : Run (procStep M d) Readers.loaded h s) {f : φ}
    (hnone : s.reader f = none) :
    Run (procStep M d) Readers.loaded ((s, .openProc f) :: h) (s.opened f) := by
  refine hr.next (.openProc f) ?_
  simp only [procStep, hnone]

theorem run_readProc (hr : Run (procStep M d) Readers.loaded h s) {f : φ} {r : Reader}
    {buf : UserMem} (hbuf : NoFault buf (2 * M.pageSize)) (hreader : s.reader f = some r) :
    Run (procStep M d) Readers.loaded ((s, .readProc f (2 * M.pageSize) buf) :: h)
      (s.turned (procContent M d) f r) := by
  refine hr.next (.readProc f (2 * M.pageSize) buf) ?_
  simp only [procStep, hreader]
  rw [if_pos ⟨Nat.le_refl _, hbuf⟩, receive_read r s.readFlag hbuf, testMmapProcRead_flag,
    Readers.turned]

end Runs

/-- A driver with its areas at two addresses, and a caller's buffer. -/
def filledDriver : Driver Nat := Driver.loaded 0x10000 0x40000 fun _ => 48
def wideBuffer : UserMem := fun _ => some 0

theorem wideBuffer_noFault (n : Nat) : NoFault wideBuffer n := fun _ _ => rfl

/-- Two openers, the second of which waits for the first to finish. -/
theorem run_oneCopy_turns : ∃ (h : History (Readers Nat) (ProcStep Nat)) (s : Readers Nat),
    Run (procStep flatMachine filledDriver) Readers.loaded h s ∧
      (∃ r ∈ s.reader 1, r.done = true) ∧ EveryState (OneCopy flatMachine filledDriver) h s := by
  have hbuf := wideBuffer_noFault (2 * flatMachine.pageSize)
  have h0 : Run (procStep flatMachine filledDriver) (Readers.loaded : Readers Nat) [] _ := .start
  have h1 := run_openProc h0 (f := 0) rfl
  have h2 := run_openProc h1 (f := 1) rfl
  have h3 := run_readProc h2 hbuf (f := 0) rfl
  have h4 := run_readProc h3 hbuf (f := 0) rfl
  have h5 := run_readProc h4 hbuf (f := 1) rfl
  have h6 := run_readProc h5 hbuf (f := 1) rfl
  refine ⟨_, _, h6, ⟨_, rfl, rfl⟩, (run_oneCopy_iff h6).mpr ?_⟩
  exact ⟨fun _ _ => rfl, nofun, fun _ _ => rfl, nofun, trivial, trivial, trivial⟩

/-- The first of two openers reads one copy, and the second is told the end of
    the file by its first read. -/
theorem run_empty_file : ∃ (h : History (Readers Nat) (ProcStep Nat)) (s : Readers Nat),
    Run (procStep flatMachine filledDriver) Readers.loaded h s ∧
      s.reader 1 = some { got := [], done := true } ∧ ¬ OneCopy flatMachine filledDriver s := by
  have hbuf := wideBuffer_noFault (2 * flatMachine.pageSize)
  have h0 : Run (procStep flatMachine filledDriver) (Readers.loaded : Readers Nat) [] _ := .start
  have h1 := run_openProc h0 (f := 0) rfl
  have h2 := run_openProc h1 (f := 1) rfl
  have h3 := run_readProc h2 hbuf (f := 0) rfl
  have h4 := run_readProc h3 hbuf (f := 1) rfl
  refine ⟨_, _, h4, rfl, fun hall => ?_⟩
  have hgot := congrArg List.length (hall 1 _ rfl rfl)
  rw [procContent_length] at hgot
  exact absurd hgot (by decide)

end Mmap

end KernelModules
