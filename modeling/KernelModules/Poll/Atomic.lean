import KernelModules.Poll.Sections

/-!
# The Sections of poll.c as Single Steps

The steps of `Poll.Fifo` are the right ones. A loop can be taken to run when
`sema` is taken: what it still has to do from any of its statements on has a
result of its own, `rest`, and nobody changes that result. An open can be taken
to happen when it has the use count compared. It resets the indices only if no
file is open, and a task in a loop is on an open file.

So the two locks are enough, although neither excludes the sections of the
other. A run of the statements is one of `Poll.Fifo` that moves the same
blocks.

## Main definitions

* `Task.rest`: What a loop still does.
* `Sys.queue`: The state of `Poll.Fifo` that a state stands for.
* `blocks`, `Sys.pending`: The blocks that have been moved, by the history, and
  the one that is being moved.
* `Atomic`: The law.

## Theorems

* `loop_end`, `loop_step`: An iteration of a loop.
* `run_rest`: A statement leaves the rest of a loop.
* `run_down`, `run_openTest`: Where a loop and an open happen.
* `step_atomic`: A step is one of `Poll.Fifo`, or none.
* `run_queue`: A run is one of `Poll.Fifo`.
* `run_atomic`: The law holds at the end of every run.
-/

namespace KernelModules

namespace Poll

namespace Sections

open Kernel Lib

open Tasks (Kind)

open Queue (resident)

variable {ι φ : Type*}

/-- A loop with `rem` of its iterations left. -/
def loop (N : Nat) (kind : Kind) (ih : Int) (rem i : Nat) (d : Dev) (u : UserMem) :
    Nat × Dev × UserMem :=
  match kind with
  | .read => readLoop N rem i d u
  | .write => ((writeLoop N ih rem i d u).1, (writeLoop N ih rem i d u).2, u)

/-- What a task under `sema` still does to the ring, its buffer and its count
    until it gives `sema` back. -/
def Task.rest (N : Nat) (c : Task φ) (d : Dev) : Nat × Dev × UserMem :=
  match c.pc with
  | .stop => loop N c.kind (stopIndex N d) c.len 0 d c.buffer
  | .head | .test => loop N c.kind c.ih (c.len - c.i) c.i d c.buffer
  | .move =>
    let r := moveByte c.kind c.i d c.buffer
    loop N c.kind c.ih (c.len - c.i - 1) (c.i + 1) (wrapIndex N c.kind r.1) r.2
  | .count => loop N c.kind c.ih (c.len - c.i - 1) (c.i + 1) (wrapIndex N c.kind d) c.buffer
  | .wrap => loop N c.kind c.ih (c.len - c.i) c.i (wrapIndex N c.kind d) c.buffer
  | _ => (c.i, d, c.buffer)

/-- What a task under the spin lock still does to the device. -/
def Task.opened (c : Task φ) (d : Dev) : Dev :=
  match c.pc with
  | .reset => { d with ir := 0, iw := 0, useCount := d.useCount + 1 }
  | .openCount => { d with useCount := d.useCount + 1 }
  | _ => d

/-- And to the files that are counted. -/
def Task.counted [DecidableEq φ] (c : Task φ) (files : Finset φ) : Finset φ :=
  match c.pc with
  | .reset | .openCount => insert c.file files
  | _ => files

section Abstraction

variable [DecidableEq ι] [DecidableEq φ]

/-- The task under the spin lock. -/
def Sys.locker (s : Sys ι φ) : Option (Task φ) := s.lock.bind s.tasks

/-- The tasks in a read or a write on a file. -/
def Sys.callers (s : Sys ι φ) (f : φ) : Finset ι :=
  s.inside.filter fun t => (s.tasks t).any (fun c => decide (c.pc.Transfers ∧ c.file = f)) = true

/-- The device after the loop that is being run, and the one after the open
    that is being run as well. -/
def Sys.transferred (N : Nat) (s : Sys ι φ) : Dev :=
  s.holder.elim s.dev fun c => (c.rest N s.dev).2.1

def Sys.queue (N : Nat) (s : Sys ι φ) : Queue.Sys φ :=
  { dev := s.locker.elim (s.transferred N) fun c => c.opened (s.transferred N)
    files := s.locker.elim s.files fun c => c.counted s.files
    calls := fun f => (s.callers f).card }

/-- The block that a call has moved. -/
def Task.block (c : Task φ) (n : Nat) (u : UserMem) : Fifo.Event UInt8 :=
  match c.kind with
  | .read => .get (bytes u 0 n)
  | .write => .put (bytes (resident c.arg) 0 n)

/-- The block that is being moved. -/
def Sys.pending (N : Nat) (s : Sys ι φ) : List (Fifo.Event UInt8) :=
  s.holder.elim [] fun c => [c.block (c.rest N s.dev).1 (c.rest N s.dev).2.2]

/-- What is seen of a step: the block of a call that gives `sema` back, and the
    reset that an open decides on. -/
def seen : Sys ι φ × Step ι φ → Option (Fifo.Event UInt8)
  | (s, .run t) => (s.tasks t).bind fun c =>
    if c.pc = .up then some (c.block c.i c.buffer)
    else if c.pc = .openTest ∧ s.dev.useCount = 0 then some .reset
    else none
  | _ => none

/-- The blocks that have been moved, most recent first. -/
def blocks (h : History (Sys ι φ) (Step ι φ)) : List (Fifo.Event UInt8) := h.filterMap seen

/-- The law of the sections: there is a run of `Poll.Fifo`, with its steps, that
    has moved the same blocks, the one that is being moved included; it ends in
    the same state when no lock is held. No access to `rbuf` is outside of the
    ring, and no reset comes into a loop. -/
structure Atomic (N : Nat) (h : History (Sys ι φ) (Step ι φ)) (s : Sys ι φ) : Prop where
  run : ∃ h', Run (Queue.step N) Queue.Sys.init h' (s.queue N) ∧
    Queue.events N h' = s.pending N ++ blocks h
  idle : s.lock = none → s.sema = none → (s.queue N).dev = s.dev ∧ (s.queue N).files = s.files
  inside : ∀ t c, s.tasks t = some c → c.pc = .move →
    (0 ≤ s.dev.ir ∧ s.dev.ir < N) ∧ (0 ≤ s.dev.iw ∧ s.dev.iw < N)
  apart : ∀ t c, s.tasks t = some c → c.pc = .reset → s.sema = none

end Abstraction

section Loops

variable {N i rem : Nat} {kind : Kind} {ih : Int} {d : Dev} {u : UserMem}

@[simp] theorem loop_zero : loop N kind ih 0 i d u = (i, d, u) := by
  cases kind <;> rfl

/-- A loop that has come to the end of the ring is over. -/
theorem loop_end (h : atEnd kind ih d) : loop N kind ih rem i d u = (i, d, u) := by
  cases rem with
  | zero => exact loop_zero
  | succ rem =>
      cases kind with
      | read => exact if_pos h
      | write =>
          have hend : writeLoop N ih (rem + 1) i d u = (i, d) := if_pos h
          rw [loop, hend]

/-- An iteration moves a byte and brings the index back into the ring. -/
theorem loop_step (h : ¬ atEnd kind ih d) : loop N kind ih (rem + 1) i d u =
    loop N kind ih rem (i + 1) (wrapIndex N kind (moveByte kind i d u).1)
      (moveByte kind i d u).2 := by
  cases kind with
  | read => exact if_neg h
  | write =>
      have hstep : writeLoop N ih (rem + 1) i d u = writeLoop N ih rem (i + 1)
          (wrapIndex N .write (moveByte .write i d u).1) u := if_neg h
      rw [loop, hstep]
      rfl

theorem moveByte_useCount (n : Int) : moveByte kind i { d with useCount := n } u =
    ({ (moveByte kind i d u).1 with useCount := n }, (moveByte kind i d u).2) := by
  cases kind <;> rfl

theorem stopIndex_useCount (n : Int) : stopIndex N { d with useCount := n } = stopIndex N d := rfl

/-- How many files are open does not matter to a loop. -/
theorem loop_useCount (n : Int) : ∀ (rem i : Nat) (d : Dev) (u : UserMem),
    loop N kind ih rem i { d with useCount := n } u = ((loop N kind ih rem i d u).1,
      { (loop N kind ih rem i d u).2.1 with useCount := n }, (loop N kind ih rem i d u).2.2) := by
  intro rem
  induction rem with
  | zero => intro i d u; simp only [loop_zero]
  | succ rem ih' =>
      intro i d u
      have hsame : atEnd kind ih { d with useCount := n } ↔ atEnd kind ih d := by
        cases kind <;> exact Iff.rfl
      by_cases hend : atEnd kind ih d
      · rw [loop_end hend, loop_end (hsame.mpr hend)]
      · rw [loop_step hend, loop_step fun h => hend (hsame.mp h), ← ih']
        rw [moveByte_useCount, wrapIndex_useCount]

/-- Nor to what is left of one. -/
theorem rest_useCount (c : Task φ) (d : Dev) (n : Int) :
    c.rest N { d with useCount := n } = ((c.rest N d).1,
      { (c.rest N d).2.1 with useCount := n }, (c.rest N d).2.2) := by
  unfold Task.rest
  cases c.pc <;>
    simp only [moveByte_useCount, wrapIndex_useCount, stopIndex_useCount, loop_useCount]

end Loops

section Refinement

variable [DecidableEq ι] [DecidableEq φ] {N : Nat} {s s' : Sys ι φ} {t u : ι} {c c' cu : Task φ}

omit [DecidableEq φ] in
/-- The task under the spin lock, for the steps of the others. -/
theorem locker_of_out {x : Option (Task φ)} (hs : Guarded (fun c => c.pc.Locked) s.lock s.tasks)
    (htasks : s'.tasks = Function.update s.tasks t x) (hlock : s'.lock = s.lock)
    (hout : ∀ c, s.tasks t = some c → ¬ c.pc.Locked) : s'.locker = s.locker := by
  rw [Sys.locker, htasks, hlock, hs.bind_update hout, Sys.locker]

omit [DecidableEq ι] in
theorem mem_callers (hs : s.Ok N) {f : φ} : u ∈ s.callers f ↔
    ∃ c, s.tasks u = some c ∧ c.pc.Transfers ∧ c.file = f := by
  simp only [Sys.callers, Finset.mem_filter, Option.any_eq_true, decide_eq_true_eq]
  constructor
  · exact fun h => h.2
  · rintro ⟨c, hc, h⟩
    exact ⟨hs.inside u c hc, c, hc, h⟩

/-- A task that is in no call on the file after the step. -/
theorem callers_erase {x : Option (Task φ)} {f : φ} (hs : s.Ok N) (hs' : s'.Ok N)
    (htasks : s'.tasks = Function.update s.tasks t x)
    (hx : ∀ c', x = some c' → c'.pc.Transfers → c'.file ≠ f) :
    s'.callers f = (s.callers f).erase t := by
  ext u
  rw [Finset.mem_erase, mem_callers hs', mem_callers hs, htasks]
  by_cases hut : u = t
  · simp only [hut, Function.update_self, ne_eq, not_true, false_and, iff_false]
    rintro ⟨c', hc', htr, hfile⟩
    exact hx c' hc' htr hfile
  · simp only [Function.update_of_ne hut, ne_eq, hut, not_false_iff, true_and]

/-- And one that is. -/
theorem callers_insert {f : φ} (hs : s.Ok N) (hs' : s'.Ok N)
    (htasks : s'.tasks = Function.update s.tasks t (some c')) (htr : c'.pc.Transfers)
    (hfile : c'.file = f) : s'.callers f = insert t (s.callers f) := by
  ext u
  rw [Finset.mem_insert, mem_callers hs', mem_callers hs, htasks]
  by_cases hut : u = t
  · simp only [hut, Function.update_self, Option.some.injEq, exists_eq_left', htr, hfile, and_self,
      true_or]
  · simp only [Function.update_of_ne hut, hut, false_or]

/-- A statement within a call, or outside of all. -/
theorem callers_congr {x : Option (Task φ)} {f : φ} (hs : s.Ok N) (hs' : s'.Ok N)
    (htasks : s'.tasks = Function.update s.tasks t x)
    (hx : (∃ c, x = some c ∧ c.pc.Transfers ∧ c.file = f) ↔
      ∃ c, s.tasks t = some c ∧ c.pc.Transfers ∧ c.file = f) : s'.callers f = s.callers f := by
  ext u
  rw [mem_callers hs', mem_callers hs, htasks]
  by_cases hut : u = t
  · rw [hut, Function.update_self, hx]
  · rw [Function.update_of_ne hut]

theorem Frame.callers {x : Option (Task φ)} (hf : Frame t c s s' x) (hs : s.Ok N) (hs' : s'.Ok N)
    (hc : s.tasks t = some c) (hx : s'.tasks t = none → ¬ c.pc.Transfers) (f : φ) :
    s'.callers f = s.callers f := by
  refine callers_congr hs hs' hf.tasks ?_
  rw [hf.tasks, Function.update_self] at hx
  simp only [hc, Option.some.injEq, exists_eq_left']
  cases x with
  | none => simp only [reduceCtorEq, false_and, exists_false, hx rfl]
  | some c' =>
      rcases hf.stays c' rfl with ⟨_, hfile, _, _, _, htr⟩
      simp only [Option.some.injEq, exists_eq_left', hfile, htr]

omit [DecidableEq ι] [DecidableEq φ] in
theorem transferred_some (h : s.holder = some c) : s.transferred N = (c.rest N s.dev).2.1 := by
  rw [Sys.transferred, h, Option.elim_some]

omit [DecidableEq ι] [DecidableEq φ] in
theorem transferred_none (h : s.holder = none) : s.transferred N = s.dev := by
  rw [Sys.transferred, h, Option.elim_none]

omit [DecidableEq ι] [DecidableEq φ] in
theorem pending_some (h : s.holder = some c) :
    s.pending N = [c.block (c.rest N s.dev).1 (c.rest N s.dev).2.2] := by
  rw [Sys.pending, h, Option.elim_some]

omit [DecidableEq ι] [DecidableEq φ] in
theorem pending_none (h : s.holder = none) : s.pending N = [] := by
  rw [Sys.pending, h, Option.elim_none]

omit [DecidableEq ι] [DecidableEq φ] in
theorem transferred_useCount : (s.transferred N).useCount = s.dev.useCount := by
  cases h : s.holder with
  | none => rw [Sys.transferred, h, Option.elim_none]
  | some c =>
      have hrest := rest_useCount (N := N) c s.dev s.dev.useCount
      rw [Sys.transferred, h, Option.elim_some, hrest]

omit [DecidableEq ι] [DecidableEq φ] in
/-- A statement outside of the loops. -/
theorem transferred_congr (hholder : s'.holder = s.holder)
    (hdev : s'.dev = { s.dev with useCount := s'.dev.useCount }) :
    s'.transferred N = { s.transferred N with useCount := s'.dev.useCount } ∧
      s'.pending N = s.pending N := by
  rw [Sys.transferred, Sys.transferred, Sys.pending, Sys.pending, hholder]
  cases s.holder with
  | none => exact ⟨hdev, rfl⟩
  | some c =>
      simp only [Option.elim_some]
      rw [hdev, rest_useCount]
      exact ⟨rfl, rfl⟩

omit [DecidableEq ι] [DecidableEq φ] in
theorem transferred_same (hholder : s'.holder = s.holder) (hdev : s'.dev = s.dev) :
    s'.transferred N = s.transferred N ∧ s'.pending N = s.pending N := by
  rw [Sys.transferred, Sys.transferred, Sys.pending, Sys.pending, hholder, hdev]
  exact ⟨rfl, rfl⟩

omit [DecidableEq ι] in
theorem queue_some (hcallers : ∀ f, s'.callers f = s.callers f) (h : s'.locker = some c) :
    s'.queue N = { dev := c.opened (s'.transferred N), files := c.counted s'.files,
                   calls := fun f => (s.callers f).card } := by
  simp only [Sys.queue, h, Option.elim_some, hcallers]

omit [DecidableEq ι] in
theorem queue_none (hcallers : ∀ f, s'.callers f = s.callers f) (h : s'.locker = none) :
    s'.queue N = { dev := s'.transferred N, files := s'.files,
                   calls := fun f => (s.callers f).card } := by
  simp only [Sys.queue, h, Option.elim_none, hcallers]

/-- A statement of a loop does what is left to do, and leaves the rest of it. -/
theorem run_rest (hs : s.Ok N) (hc : s.tasks t = some c) (hin : c.pc.Holds) (hup : c.pc ≠ .up)
    (h : run N t c s = some s') : ∃ c', s' = { s.put t c' with dev := s'.dev } ∧ c'.pc.Holds ∧
      c'.kind = c.kind ∧ c'.arg = c.arg ∧ c'.rest N s'.dev = c.rest N s.dev ∧
      s'.dev.useCount = s.dev.useCount := by
  have hok := hs.tasks t c hc
  cases hpc : c.pc with
  | stop =>
      simp only [run, hpc, Option.some.injEq] at h
      subst h
      refine ⟨_, rfl, trivial, rfl, rfl, ?_, rfl⟩
      -- A read does not look at `ih`.
      have hi := (hok.start (.inr hpc)).1
      cases hkind : c.kind with
      | read =>
          simp only [Task.rest, hpc, hkind, hi, Nat.sub_zero, Sys.put]
          rfl
      | write =>
          simp only [Task.rest, hpc, hkind, hi, Nat.sub_zero, Sys.put]
  | head =>
      simp only [run, hpc, Option.some.injEq] at h
      subst h
      refine ⟨_, rfl, ?_, rfl, rfl, ?_, rfl⟩
      · simp only [Task.goto]
        split <;> trivial
      · by_cases hlt : c.i < c.len
        · simp only [Task.rest, Task.goto, hpc, if_pos hlt, Sys.put]
        · simp only [Task.rest, Task.goto, hpc, if_neg hlt, Sys.put,
            Nat.sub_eq_zero_of_le (Nat.le_of_not_lt hlt), loop_zero]
  | test =>
      simp only [run, hpc, Option.some.injEq] at h
      subst h
      have hlt := hok.within (.inl hpc)
      refine ⟨_, rfl, ?_, rfl, rfl, ?_, rfl⟩
      · simp only [Task.goto]
        split <;> trivial
      · by_cases hend : atEnd c.kind c.ih s.dev
        · simp only [Task.rest, Task.goto, hpc, if_pos hend, Sys.put, loop_end hend]
        · obtain ⟨rem, hrem⟩ : ∃ rem, c.len - c.i = rem + 1 := ⟨c.len - c.i - 1, by omega⟩
          simp only [Task.rest, Task.goto, hpc, if_neg hend, Sys.put, hrem, loop_step hend,
            Nat.add_sub_cancel]
  | move =>
      simp only [run, hpc, Option.some.injEq] at h
      subst h
      refine ⟨_, rfl, trivial, rfl, rfl, ?_, ?_⟩
      · simp only [Task.rest, hpc]
      · cases c.kind <;> rfl
  | count =>
      simp only [run, hpc, Option.some.injEq] at h
      subst h
      refine ⟨_, rfl, trivial, rfl, rfl, ?_, rfl⟩
      simp only [Task.rest, hpc, Nat.sub_sub, Sys.put]
  | wrap =>
      simp only [run, hpc, Option.some.injEq] at h
      subst h
      refine ⟨_, rfl, trivial, rfl, rfl, ?_, ?_⟩
      · simp only [Task.rest, Task.goto, hpc]
      · cases c.kind <;> rfl
  | up => exact absurd hpc hup
  | _ =>
      rw [hpc] at hin
      exact hin.elim

omit [DecidableEq ι] in
theorem queue_congr (hlocker : s'.locker = s.locker)
    (htransferred : s'.transferred N = s.transferred N) (hfiles : s'.files = s.files)
    (hcallers : ∀ f, s'.callers f = s.callers f) : s'.queue N = s.queue N := by
  simp only [Sys.queue, hlocker, htransferred, hfiles, hcallers]

omit [DecidableEq ι] [DecidableEq φ] in
theorem seen_run (hc : s.tasks t = some c) : seen (s, .run t) =
    if c.pc = .up then some (c.block c.i c.buffer)
    else if c.pc = .openTest ∧ s.dev.useCount = 0 then some .reset
    else none := by
  rw [seen, hc, Option.bind_some]

/-- The statements of a loop are not seen. -/
theorem run_loop (hs : s.Ok N) (hs' : s'.Ok N) (hc : s.tasks t = some c) (hin : c.pc.Holds)
    (hup : c.pc ≠ .up) (h : run N t c s = some s') : s'.queue N = s.queue N ∧
      s'.pending N ++ (seen (s, .run t)).toList = s.pending N := by
  rcases run_rest hs hc hin hup h with ⟨c', heq, hin', hkind, harg, hrest, _⟩
  rcases run_frame h with ⟨x, hf⟩
  have htasks : s'.tasks = Function.update s.tasks t (some c') := by rw [heq]; rfl
  have hholder : s.holder = some c := hs.sema.bind_eq hc hin
  have hholder' : s'.holder = some c' :=
    hs'.sema.bind_eq (by rw [htasks, Function.update_self]) hin'
  have hunlocked : ¬ c.pc.Locked := fun hlocked => hlocked.not_transfers hin.transfers
  refine ⟨queue_congr ?_ ?_ (by rw [heq]; rfl) ?_, ?_⟩
  · refine locker_of_out hs.lock htasks (by rw [heq]; rfl) fun c₀ hc₀ => ?_
    rw [hc, Option.some.injEq] at hc₀
    rwa [← hc₀]
  · rw [Sys.transferred, Sys.transferred, hholder, hholder', Option.elim_some, Option.elim_some,
      hrest]
  · refine hf.callers hs hs' hc fun hx => ?_
    rw [htasks, Function.update_self] at hx
    exact absurd hx (Option.some_ne_none c')
  · have hopen : ¬ (c.pc = .openTest ∧ s.dev.useCount = 0) := by
      rintro ⟨hpc, _⟩
      rw [hpc] at hin
      exact hin
    rw [seen_run hc, if_neg hup, if_neg hopen, Sys.pending, Sys.pending, hholder, hholder',
      Option.elim_some, Option.elim_some, hrest, Option.toList_none, List.append_nil, Task.block,
      Task.block, hkind, harg]

/-- Giving `sema` back is seen as the block that was pending. -/
theorem run_up (hs : s.Ok N) (hs' : s'.Ok N) (hc : s.tasks t = some c) (hpc : c.pc = .up)
    (h : run N t c s = some s') : s'.queue N = s.queue N ∧
      s'.pending N ++ (seen (s, .run t)).toList = s.pending N := by
  have hholder : s.holder = some c := hs.sema.bind_eq hc (by rw [hpc]; trivial)
  have hrest : c.rest N s.dev = (c.i, s.dev, c.buffer) := by rw [Task.rest, hpc]
  rcases run_frame h with ⟨x, hf⟩
  have hcallers := hf.callers hs hs' hc
  simp only [run, hpc, Option.some.injEq] at h
  subst h
  refine ⟨queue_congr ?_ ?_ rfl (hcallers fun hx => ?_), ?_⟩
  · refine locker_of_out hs.lock rfl rfl fun c₀ hc₀ => ?_
    rw [hc, Option.some.injEq] at hc₀
    rw [← hc₀, hpc]
    exact id
  · rw [Sys.transferred, Sys.transferred, hholder, Option.elim_some, hrest]
    rfl
  · simp only [Sys.put, Function.update_self, reduceCtorEq] at hx
  · rw [seen_run hc, if_pos hpc, Sys.pending, Sys.pending, hholder, Option.elim_some, hrest]
    rfl

omit [DecidableEq ι] [DecidableEq φ] in
theorem seen_none (hc : s.tasks t = some c) (hup : c.pc ≠ .up) (hopen : c.pc ≠ .openTest) :
    seen (s, .run t) = none := by
  rw [seen_run hc, if_neg hup, if_neg fun h => hopen h.1]

/-- The loop that is being run, for a statement outside of the loops. -/
theorem run_holder (hs : s.Ok N) (hc : s.tasks t = some c) (hout : ¬ c.pc.Holds)
    (hdown : c.pc ≠ .down) (h : run N t c s = some s') : s'.holder = s.holder := by
  rcases run_frame h with ⟨x, hf⟩
  refine holder_of_out hs.sema hf.tasks ?_ fun c' hc' => ?_
  · cases hpc : c.pc with
    | openLock | releaseLock =>
        simp only [run, hpc, Option.ite_none_right_eq_some, Option.some.injEq] at h
        rcases h with ⟨_, rfl⟩
        rfl
    | down => exact absurd hpc hdown
    | stop | head | test | move | count | wrap | up =>
        rw [hpc] at hout
        exact absurd trivial hout
    | _ =>
        simp only [run, hpc, Option.some.injEq] at h
        subst h
        rfl
  · rw [hc, Option.some.injEq] at hc'
    rwa [← hc']

/-- Taking the spin lock. -/
theorem run_lock (hs : s.Ok N) (hs' : s'.Ok N) (hc : s.tasks t = some c)
    (hpc : c.pc = .openLock ∨ c.pc = .releaseLock) (h : run N t c s = some s') :
    s'.queue N = s.queue N ∧ s'.pending N = s.pending N := by
  have hadmin : ¬ c.pc.Transfers := by rcases hpc with hpc | hpc <;> rw [hpc] <;> exact id
  have hout : ¬ c.pc.Holds := by rcases hpc with hpc | hpc <;> rw [hpc] <;> exact id
  rcases run_frame h with ⟨x, hf⟩
  have hcallers := hf.callers hs hs' hc fun _ => hadmin
  have hholder := run_holder hs hc hout (by rcases hpc with hpc | hpc <;> rw [hpc] <;> decide) h
  have hlock := hs'.lock
  rcases hpc with hpc | hpc <;>
    simp only [run, hpc, Option.ite_none_right_eq_some, Option.some.injEq,
      Option.isNone_iff_eq_none] at h <;>
    rcases h with ⟨hfree, rfl⟩
  all_goals
    rcases transferred_same (N := N) hholder rfl with ⟨htr, hpending⟩
    rw [queue_some hcallers (hlock.bind_eq (Function.update_self ..) trivial),
      queue_none (fun _ => rfl) (by rw [Sys.locker, hfree, Option.bind_none]), htr]
    exact ⟨rfl, hpending⟩

/-- The statements under the spin lock that are not seen. -/
theorem run_locked (hs : s.Ok N) (hs' : s'.Ok N) (hc : s.tasks t = some c) (hin : c.pc.Locked)
    (htest : c.pc ≠ .openTest) (hclose : c.pc ≠ .releaseCount) (h : run N t c s = some s') :
    s'.queue N = s.queue N ∧ s'.pending N = s.pending N := by
  have hadmin := hin.not_transfers
  have hout : ¬ c.pc.Holds := fun hin => hadmin hin.transfers
  rcases run_frame h with ⟨x, hf⟩
  have hcallers := hf.callers hs hs' hc fun _ => hadmin
  have hholder := run_holder hs hc hout (by rintro hpc; rw [hpc] at hin; exact hin) h
  have hlock := hs'.lock
  rw [queue_some (fun _ => rfl) (hs.lock.bind_eq hc hin)]
  cases hpc : c.pc with
  | reset =>
      have hfree := holder_of_free (sema_of_unused hs ((hs.tasks t c hc).reset hpc))
      simp only [run, hpc, Option.some.injEq] at h
      subst h
      rw [queue_some hcallers (hlock.bind_eq (Function.update_self ..) trivial), Sys.transferred,
        hholder, Sys.transferred, Sys.pending, hholder, Sys.pending, hfree]
      simp only [Task.opened, Task.counted, hpc, Task.goto]
      exact ⟨rfl, rfl⟩
  | openCount =>
      simp only [run, hpc, Option.some.injEq] at h
      subst h
      rcases transferred_congr (N := N) hholder rfl with ⟨htr, hpending⟩
      rw [queue_some hcallers (hlock.bind_eq (Function.update_self ..) trivial), htr]
      simp only [Task.opened, Task.counted, hpc, Task.goto, transferred_useCount]
      exact ⟨trivial, hpending⟩
  | openUnlock | releaseUnlock =>
      simp only [run, hpc, Option.some.injEq] at h
      subst h
      rcases transferred_same (N := N) hholder rfl with ⟨htr, hpending⟩
      rw [queue_none hcallers rfl, htr]
      simp only [Task.opened, Task.counted, hpc]
      exact ⟨rfl, hpending⟩
  | openTest => exact absurd hpc htest
  | releaseCount => exact absurd hpc hclose
  | _ =>
      rw [hpc] at hin
      exact hin.elim

/-- An open happens when it has compared the use count, and resets the ring if
    no file is open. -/
theorem run_openTest (hs : s.Ok N) (hs' : s'.Ok N) (hc : s.tasks t = some c)
    (hpc : c.pc = .openTest) (h : run N t c s = some s') :
    Queue.step N (.openFile c.file) (s.queue N) = some (s'.queue N) ∧
      s'.pending N ++ (seen (s, .run t)).toList =
        (Queue.event N (s.queue N, .openFile c.file)).toList ++ s.pending N := by
  have hadmin : ¬ c.pc.Transfers := by rw [hpc]; exact id
  have hnew := (hs.tasks t c hc).absent (by rw [hpc]; trivial)
  have hfree := fun hu => holder_of_free (sema_of_unused hs hu)
  rcases run_frame h with ⟨x, hf⟩
  have hcallers := hf.callers hs hs' hc fun _ => hadmin
  have hholder := run_holder hs hc (by rw [hpc]; exact id) (by rw [hpc]; decide) h
  have hlock := hs'.lock
  have hseen := seen_run hc
  rw [if_neg (by rw [hpc]; decide)] at hseen
  simp only [hpc, true_and] at hseen
  rw [hseen, queue_some (fun _ => rfl) (hs.lock.bind_eq hc (by rw [hpc]; trivial))]
  simp only [run, hpc, Option.some.injEq] at h
  subst h
  rcases transferred_same (N := N) hholder rfl with ⟨htr, hpending⟩
  rw [queue_some hcallers (hlock.bind_eq (Function.update_self ..) ?_), htr, hpending]
  · simp only [Task.opened, Task.counted, hpc, Queue.step, Queue.event, transferred_useCount,
      if_neg hnew, Option.some.injEq]
    by_cases hu : s.dev.useCount = 0
    · simp only [hu, if_true, Task.goto, deviceOpen, transferred_useCount]
      refine ⟨rfl, ?_⟩
      rw [Sys.pending, hfree hu]
      rfl
    · simp only [hu, if_false, Task.goto, deviceOpen, transferred_useCount]
      exact ⟨rfl, List.append_nil _⟩
  · simp only [Task.goto]
    split <;> trivial

/-- A release happens when it counts, with no call on the file inside. -/
theorem run_releaseCount (hs : s.Ok N) (hs' : s'.Ok N) (hc : s.tasks t = some c)
    (hpc : c.pc = .releaseCount) (h : run N t c s = some s') :
    Queue.step N (.releaseFile c.file) (s.queue N) = some (s'.queue N) ∧
      s'.pending N = s.pending N := by
  have hadmin : ¬ c.pc.Transfers := by rw [hpc]; exact id
  have hopen := (hs.tasks t c hc).present (by rw [hpc]; exact .inr trivial)
  have hidle : (s.callers c.file).card = 0 := by
    refine Finset.card_eq_zero.mpr (Finset.eq_empty_of_forall_notMem fun u hu => ?_)
    rcases (mem_callers hs).mp hu with ⟨cu, hcu, htr, hfile⟩
    have hut := hs.alone t c hc hadmin u cu hcu hfile
    rw [hut, hc, Option.some.injEq] at hcu
    exact hadmin (hcu ▸ htr)
  rcases run_frame h with ⟨x, hf⟩
  have hcallers := hf.callers hs hs' hc fun _ => hadmin
  have hholder := run_holder hs hc (by rw [hpc]; exact id) (by rw [hpc]; decide) h
  have hlock := hs'.lock
  rw [queue_some (fun _ => rfl) (hs.lock.bind_eq hc (by rw [hpc]; trivial))]
  simp only [run, hpc, Option.some.injEq] at h
  subst h
  rcases transferred_congr (N := N) hholder rfl with ⟨htr, hpending⟩
  rw [queue_some hcallers (hlock.bind_eq (Function.update_self ..) trivial), htr]
  simp only [Task.opened, Task.counted, hpc, Queue.step, Task.goto, deviceRelease, hopen, hidle,
    transferred_useCount, and_self, if_true]
  exact ⟨trivial, hpending⟩

/-- A call leaves. -/
theorem run_returned (hs : s.Ok N) (hs' : s'.Ok N) (hc : s.tasks t = some c)
    (hpc : c.pc = .returned) (h : run N t c s = some s') :
    Queue.step N (.leave c.file) (s.queue N) = some (s'.queue N) ∧
      s'.pending N = s.pending N := by
  have hmem : t ∈ s.callers c.file := (mem_callers hs).mpr ⟨c, hc, by rw [hpc]; trivial, rfl⟩
  have hholder := run_holder hs hc (by rw [hpc]; exact id) (by rw [hpc]; decide) h
  simp only [run, hpc, Option.some.injEq] at h
  subst h
  have hlocker : (s.drop t).locker = s.locker := by
    refine locker_of_out hs.lock rfl rfl fun c' hc' => ?_
    rw [hc, Option.some.injEq] at hc'
    rw [← hc', hpc]
    exact id
  rcases transferred_same (N := N) hholder rfl with ⟨htr, hpending⟩
  have hcalls : (fun f => ((s.drop t).callers f).card) =
      Function.update (fun f => (s.callers f).card) c.file ((s.callers c.file).card - 1) := by
    funext f
    rw [callers_erase hs hs' rfl fun c' hc' => absurd hc' (Option.some_ne_none c').symm]
    by_cases hf : f = c.file
    · rw [hf, Function.update_self, Finset.card_erase_of_mem hmem]
    · rw [Function.update_of_ne hf, Finset.erase_eq_of_notMem]
      rintro hmem'
      rcases (mem_callers hs).mp hmem' with ⟨c', hc', _, hfile⟩
      rw [hc, Option.some.injEq] at hc'
      exact hf (by rw [← hfile, hc'])
  refine ⟨?_, hpending⟩
  simp only [Queue.step, Sys.queue, hcalls, hlocker, htr]
  exact if_pos (Finset.card_pos.mpr ⟨t, hmem⟩)

omit [DecidableEq φ] in
theorem opened_eq (h : c.pc ≠ .reset) (d : Dev) : c.opened d =
    { d with useCount := if c.pc = .openCount then d.useCount + 1 else d.useCount } := by
  unfold Task.opened
  cases hpc : c.pc with
  | reset => exact absurd hpc h
  | _ => rfl

omit [DecidableEq ι] in
/-- An open that does not reset the ring adds to the use count only. -/
theorem queue_unreset (hcallers : ∀ f, s'.callers f = s.callers f) (hlocker : s'.locker = s.locker)
    (hfiles : s'.files = s.files) (hcount : s'.dev.useCount = s.dev.useCount)
    (hreset : ∀ cl, s.locker = some cl → cl.pc ≠ .reset) : ∃ (n : Int) (files : Finset φ),
      s.queue N = { dev := { s.transferred N with useCount := n }, files := files,
                    calls := fun f => (s.callers f).card } ∧
      s'.queue N = { dev := { s'.transferred N with useCount := n }, files := files,
                     calls := fun f => (s.callers f).card } := by
  cases h : s.locker with
  | none =>
      refine ⟨s.dev.useCount, s.files, ?_, ?_⟩
      · rw [queue_none (fun _ => rfl) h, ← transferred_useCount (N := N)]
      · rw [queue_none hcallers (hlocker.trans h), ← hcount, ← transferred_useCount (N := N),
          hfiles]
  | some cl =>
      have hpc := hreset cl h
      refine ⟨if cl.pc = .openCount then s.dev.useCount + 1 else s.dev.useCount,
        cl.counted s.files, ?_, ?_⟩
      · rw [queue_some (fun _ => rfl) h, opened_eq hpc, transferred_useCount]
      · rw [queue_some hcallers (hlocker.trans h), hfiles, opened_eq hpc, transferred_useCount,
          hcount]

/-- A loop happens when `sema` is taken. -/
theorem run_down (hs : s.Ok N) (hs' : s'.Ok N) (hc : s.tasks t = some c) (hpc : c.pc = .down)
    (h : run N t c s = some s') : ∃ q, Queue.step N q (s.queue N) = some (s'.queue N) ∧
      s'.pending N = (Queue.event N (s.queue N, q)).toList ++ s.pending N := by
  have hok := hs.tasks t c hc
  have hmem : t ∈ s.callers c.file := (mem_callers hs).mpr ⟨c, hc, by rw [hpc]; trivial, rfl⟩
  have hreset : ∀ cl, s.locker = some cl → cl.pc ≠ .reset := by
    intro cl hcl hpcl
    rcases hs.lock.of_bind_eq hcl with ⟨u, hu, _⟩
    have hcount := (hs.tasks u cl hu).reset hpcl
    rw [hs.useCount, Int.natCast_eq_zero, Finset.card_eq_zero] at hcount
    have hopen := hok.present (by rw [hpc]; exact .inl trivial)
    rw [hcount] at hopen
    exact absurd hopen (Finset.notMem_empty _)
  obtain ⟨hfree, hdev, hfiles, hlock, htasks⟩ : s.sema = none ∧ s'.dev = s.dev ∧
      s'.files = s.files ∧ s'.lock = s.lock ∧
      s'.tasks = Function.update s.tasks t (some (c.goto .stop)) := by
    simp only [run, hpc, Option.ite_none_right_eq_some, Option.some.injEq,
      Option.isNone_iff_eq_none] at h
    rcases h with ⟨hfree, rfl⟩
    exact ⟨hfree, rfl, rfl, rfl, rfl⟩
  rcases run_frame h with ⟨x, hf⟩
  have htask : s'.tasks t = some (c.goto .stop) := by rw [htasks, Function.update_self]
  have hcallers := hf.callers hs hs' hc fun hx =>
    absurd (htask.symm.trans hx) (Option.some_ne_none _)
  have hholder : s'.holder = some (c.goto .stop) := hs'.sema.bind_eq htask trivial
  have hlocker : s'.locker = s.locker := by
    refine locker_of_out hs.lock htasks hlock fun c' hc' => ?_
    rw [hc, Option.some.injEq] at hc'
    rw [← hc', hpc]
    exact id
  have hrest : (c.goto .stop).rest N s'.dev =
      loop N c.kind (stopIndex N s.dev) c.len 0 s.dev (resident c.arg) := by
    rw [← (hok.start (.inl hpc)).2, hdev]
    rfl
  rcases queue_unreset hcallers hlocker hfiles (by rw [hdev]) hreset with ⟨n, files, hq, hq'⟩
  rw [hq, hq', transferred_some hholder, transferred_none (holder_of_free hfree), hrest,
    pending_some hholder, pending_none (holder_of_free hfree), hrest]
  have hcalls : 0 < (s.callers c.file).card := Finset.card_pos.mpr ⟨t, hmem⟩
  have hcount : loop N c.kind (stopIndex N s.dev) c.len 0 { s.dev with useCount := n }
      (resident c.arg) = _ := loop_useCount n c.len 0 s.dev (resident c.arg)
  cases hkind : c.kind with
  | read =>
      rw [hkind] at hcount
      have hread : readTransfer N c.len { s.dev with useCount := n } (resident c.arg) = _ := hcount
      refine ⟨.read c.file c.len c.arg, ?_, ?_⟩
      · simp only [Queue.step, if_pos hcalls, hread]
      · simp only [Queue.event, hread, Task.block, Task.goto, hkind]
        rfl
  | write =>
      rw [hkind] at hcount
      have hwrite : writeTransfer N c.len { s.dev with useCount := n } (resident c.arg) = _ :=
        congrArg (fun r => (r.1, r.2.1)) hcount
      refine ⟨.write c.file c.len c.arg, ?_, ?_⟩
      · simp only [Queue.step, if_pos hcalls, hwrite]
      · simp only [Queue.event, hwrite, Task.block, Task.goto, hkind]
        rfl

/-- A task that comes in changes the calls at most. -/
theorem enter_queue (hs : s.Ok N) (hnone : s.tasks t = none) :
    (s.enter t c).pending N = s.pending N ∧ (s.enter t c).queue N = { s.queue N with
      calls := fun f => ((s.enter t c).callers f).card } := by
  have hout : ∀ p : Task φ → Prop, ∀ c', s.tasks t = some c' → ¬ p c' := fun p c' hc' => by
    rw [hnone] at hc'
    exact absurd hc' (Option.some_ne_none c').symm
  have hholder : (s.enter t c).holder = s.holder := holder_of_out hs.sema rfl rfl (hout _)
  have hlocker : (s.enter t c).locker = s.locker := locker_of_out hs.lock rfl rfl (hout _)
  rcases transferred_same (N := N) hholder rfl with ⟨htr, hpending⟩
  refine ⟨hpending, ?_⟩
  simp only [Sys.queue, hlocker, htr]
  rfl

omit [DecidableEq ι] in
theorem mem_counted {f : φ} {files : Finset φ} (h : f ∈ files) : f ∈ c.counted files := by
  unfold Task.counted
  cases c.pc with
  | reset | openCount => exact Finset.mem_insert_of_mem h
  | _ => exact h

/-- An open or a release comes in. -/
theorem enter_silent (hs : s.Ok N) (hs' : (s.enter t c).Ok N) (hnone : s.tasks t = none)
    (hadmin : ¬ c.pc.Transfers) {x : Option (Fifo.Event UInt8)} (hx : x = none) :
    (s.enter t c).queue N = s.queue N ∧
      (s.enter t c).pending N ++ x.toList = s.pending N := by
  rcases enter_queue hs hnone with ⟨hpending, hq⟩
  have hcallers : ∀ f, (s.enter t c).callers f = s.callers f := fun f => by
    refine callers_congr hs hs' rfl ?_
    simp only [hnone, Option.some.injEq, exists_eq_left', hadmin, false_and, reduceCtorEq,
      exists_false]
  rw [hq, hpending, hx]
  simp only [hcallers]
  exact ⟨rfl, List.append_nil _⟩

/-- A call comes in. -/
theorem enter_call (hs : s.Ok N) (hs' : (s.enter t c).Ok N) (hnone : s.tasks t = none)
    (htr : c.pc.Transfers) (hopen : c.file ∈ s.files) :
    Queue.step N (.enter c.file) (s.queue N) = some ((s.enter t c).queue N) ∧
      (s.enter t c).pending N = s.pending N := by
  rcases enter_queue hs hnone with ⟨hpending, hq⟩
  refine ⟨?_, hpending⟩
  have hcounted : c.file ∈ (s.queue N).files := by
    rw [Sys.queue]
    cases s.locker with
    | none => exact hopen
    | some cl => exact mem_counted hopen
  have hnew : t ∉ s.callers c.file := fun hmem => by
    rcases (mem_callers hs).mp hmem with ⟨c', hc', _⟩
    rw [hnone] at hc'
    exact absurd hc' (Option.some_ne_none c').symm
  have hcalls : (fun f => ((s.enter t c).callers f).card) =
      Function.update (s.queue N).calls c.file ((s.queue N).calls c.file + 1) := by
    funext f
    by_cases hf : f = c.file
    · rw [hf, Function.update_self, callers_insert hs hs' rfl htr rfl,
        Finset.card_insert_of_notMem hnew]
      rfl
    · rw [Function.update_of_ne hf, callers_erase hs hs' rfl, Finset.erase_eq_of_notMem]
      · rfl
      · rintro hmem
        rcases (mem_callers hs).mp hmem with ⟨c', hc', _⟩
        rw [hnone] at hc'
        exact absurd hc' (Option.some_ne_none c').symm
      · intro c' hc' _ hfile
        rw [← Option.some.inj hc'] at hfile
        exact hf hfile.symm
  rw [hq, hcalls, Queue.step, if_pos hcounted]

/-- A call that does not get `sema` goes back with nothing moved. -/
theorem downFails_silent (hs : s.Ok N) (hs' : (s.put t (c.goto .returned)).Ok N)
    (hc : s.tasks t = some c) (hpc : c.pc = .down) :
    (s.put t (c.goto .returned)).queue N = s.queue N ∧
      (s.put t (c.goto .returned)).pending N = s.pending N := by
  have hout : ∀ p : Task φ → Prop, ¬ p c → ∀ c', s.tasks t = some c' → ¬ p c' := by
    intro p hp c' hc'
    rw [hc, Option.some.injEq] at hc'
    rwa [← hc']
  have hcallers : ∀ f, (s.put t (c.goto .returned)).callers f = s.callers f := fun f => by
    refine callers_congr hs hs' rfl ?_
    simp only [hc, Option.some.injEq, exists_eq_left', Task.goto, hpc, Pc.Transfers]
  have hlocker : (s.put t (c.goto .returned)).locker = s.locker :=
    locker_of_out hs.lock rfl rfl (hout _ (by rw [hpc]; exact id))
  have hholder : (s.put t (c.goto .returned)).holder = s.holder :=
    holder_of_out hs.sema rfl rfl (hout _ (by rw [hpc]; exact id))
  rcases transferred_same (N := N) hholder rfl with ⟨htr, hpending⟩
  exact ⟨queue_congr hlocker htr rfl hcallers, hpending⟩

/-- Each step is a step of `Poll.Fifo` or none, and the history has grown by what
    was seen. -/
theorem step_atomic (hN : 0 < N) (hs : s.Ok N) (l : Step ι φ) (h : step N l s = some s') :
    (s'.queue N = s.queue N ∧ s'.pending N ++ (seen (s, l)).toList = s.pending N) ∨
    ∃ q, Queue.step N q (s.queue N) = some (s'.queue N) ∧
      s'.pending N ++ (seen (s, l)).toList =
        (Queue.event N (s.queue N, q)).toList ++ s.pending N := by
  have hs' := step_ok hN l hs h
  cases l with
  | openFile t f =>
      simp only [step, Option.ite_none_right_eq_some, Option.some.injEq,
        Option.isNone_iff_eq_none] at h
      rcases h with ⟨⟨hnone, _⟩, rfl⟩
      exact .inl (enter_silent hs hs' hnone id rfl)
  | releaseFile t f =>
      simp only [step, Option.ite_none_right_eq_some, Option.some.injEq,
        Option.isNone_iff_eq_none] at h
      rcases h with ⟨⟨hnone, _⟩, rfl⟩
      exact .inl (enter_silent hs hs' hnone id rfl)
  | call t kind f len arg =>
      simp only [step, Option.ite_none_right_eq_some, Option.some.injEq,
        Option.isNone_iff_eq_none] at h
      rcases h with ⟨⟨hnone, hopen, _⟩, rfl⟩
      rcases enter_call hs hs' hnone trivial hopen with ⟨hq, hpending⟩
      exact .inr ⟨_, hq, by rw [hpending]; exact List.append_nil _⟩
  | run t =>
      rcases Option.bind_eq_some_iff.mp h with ⟨c, hc, hrun⟩
      -- Two of the statements are seen.
      have hunseen : c.pc ≠ .up → c.pc ≠ .openTest → s'.pending N = s.pending N →
          s'.pending N ++ (seen (s, .run t)).toList = s.pending N := by
        intro hup hopen hpending
        rw [seen_none hc hup hopen, hpending]
        exact List.append_nil _
      cases hpc : c.pc with
      | openLock | releaseLock =>
          rcases run_lock hs hs' hc (by simp only [hpc, reduceCtorEq, or_false, or_true]) hrun with
            ⟨hq, hpending⟩
          exact .inl ⟨hq, hunseen (by rw [hpc]; decide) (by rw [hpc]; decide) hpending⟩
      | reset | openCount | openUnlock | releaseUnlock =>
          rcases run_locked hs hs' hc (by rw [hpc]; trivial) (by rw [hpc]; decide)
            (by rw [hpc]; decide) hrun with ⟨hq, hpending⟩
          exact .inl ⟨hq, hunseen (by rw [hpc]; decide) (by rw [hpc]; decide) hpending⟩
      | openTest => exact .inr ⟨_, run_openTest hs hs' hc hpc hrun⟩
      | releaseCount =>
          rcases run_releaseCount hs hs' hc hpc hrun with ⟨hq, hpending⟩
          exact .inr ⟨_, hq, hunseen (by rw [hpc]; decide) (by rw [hpc]; decide) hpending⟩
      | down =>
          rcases run_down hs hs' hc hpc hrun with ⟨q, hq, hpending⟩
          refine .inr ⟨q, hq, ?_⟩
          rw [seen_none hc (by rw [hpc]; decide) (by rw [hpc]; decide), hpending]
          exact List.append_nil _
      | up => exact .inl (run_up hs hs' hc hpc hrun)
      | returned =>
          rcases run_returned hs hs' hc hpc hrun with ⟨hq, hpending⟩
          exact .inr ⟨_, hq, hunseen (by rw [hpc]; decide) (by rw [hpc]; decide) hpending⟩
      | stop | head | test | move | count | wrap =>
          exact .inl (run_loop hs hs' hc (by rw [hpc]; trivial) (by rw [hpc]; decide) hrun)
  | downFails t =>
      rcases Option.bind_eq_some_iff.mp h with ⟨c, hc, hfail⟩
      simp only [Option.ite_none_right_eq_some, Option.some.injEq] at hfail
      rcases hfail with ⟨hpc, rfl⟩
      rcases downFails_silent hs hs' hc hpc with ⟨hq, hpending⟩
      refine .inl ⟨hq, ?_⟩
      rw [hpending]
      exact List.append_nil _

/-- The history of every run is one of `Poll.Fifo`, with the block that is being
    moved. -/
theorem run_queue {h : History (Sys ι φ) (Step ι φ)} (hN : 0 < N)
    (hr : Run (step N) Sys.init h s) : ∃ h', Run (Queue.step N) Queue.Sys.init h' (s.queue N) ∧
      Queue.events N h' = s.pending N ++ blocks h := by
  induction hr with
  | start => exact ⟨[], .start, rfl⟩
  | @next h s s' l hr hstep ih =>
      rcases ih with ⟨h', hr', hev⟩
      have hblocks : blocks ((s, l) :: h) = (seen (s, l)).toList ++ blocks h := by
        rw [blocks, List.filterMap_cons]
        cases seen (s, l) <;> rfl
      rw [hblocks, ← List.append_assoc]
      rcases step_atomic hN (run_ok hN hr) l hstep with ⟨hq, hpending⟩ | ⟨q, hq, hpending⟩
      · rw [hq, hpending]
        exact ⟨h', hr', hev⟩
      · refine ⟨_, .next q hr' hq, ?_⟩
        rw [hpending, List.append_assoc, ← hev, Queue.events, List.filterMap_cons]
        cases Queue.event N (s.queue N, q) <;> rfl

/-- The sections are atomic in every run. -/
theorem run_atomic {h : History (Sys ι φ) (Step ι φ)} (hN : 0 < N)
    (hr : Run (step N) Sys.init h s) : Atomic N h s where
  run := run_queue hN hr
  idle := by
    intro hlock hsema
    have hlocker : s.locker = none := by rw [Sys.locker, hlock, Option.bind_none]
    rw [queue_none (fun _ => rfl) hlocker, transferred_none (holder_of_free hsema)]
    exact ⟨rfl, rfl⟩
  inside := by
    intro t c hc hpc
    have hs := run_ok hN hr
    have hring := hs.ring
    rw [settled_some (hs.sema.bind_eq hc (by rw [hpc]; trivial)), if_neg (by rw [hpc]; decide)]
      at hring
    exact ⟨⟨hring.ir_nonneg, hring.ir_lt⟩, hring.iw_nonneg, hring.iw_lt⟩
  apart := by
    intro t c hc hpc
    have hs := run_ok hN hr
    exact sema_of_unused hs ((hs.tasks t c hc).reset hpc)

/-- Task 1 opens its file while task 0 is between two statements of a write. -/
theorem run_atomic_two : ∃ (h : History (Sys Nat Nat) (Step Nat Nat)) (s : Sys Nat Nat),
    Atomic 3 h s ∧ s.sema = some 0 ∧ s.dev.useCount = 2 ∧ (blocks h).length = 1 := by
  rcases exists_run_of_exec (step 3) (Sys.init : Sys Nat Nat)
    (List.flatten [[.openFile 0 0], List.replicate 5 (.run 0), [.call 0 .write 0 2 (fun _ => 7)],
      List.replicate 5 (.run 0), [.openFile 1 1], List.replicate 4 (.run 1)])
    (fun h s => s.sema = some 0 ∧ s.dev.useCount = 2 ∧ (blocks h).length = 1) (by decide +kernel)
    with ⟨h, s, hr, hp⟩
  exact ⟨h, s, run_atomic (by decide) hr, of_decide_eq_true hp⟩

end Refinement

end Sections

end Poll

end KernelModules
