import KernelModules.Lib.Fifo
import KernelModules.Poll.Device
import Mathlib.Data.Finset.Card

/-!
# The Poll Device as a Queue

The poll device over whole runs of its entry points. The steps are an open, a
release, and the transfer loops of `device_read` and `device_write`, each of
them one step because open and release hold `lock` and the loops hold `sema`.
Around the loops stand the entry and the return of the call they belong to, so
that the promise of the VFS can be stated: release of a file comes after every
call on that file has returned.

Nothing restricts the order of the steps otherwise. A loop may run on an empty
ring or a full one, and several calls may be inside the driver on one file or
on many.

`simulates_fifo` is the refinement: every run is a run of the queue machine of
`Lib.Fifo` with capacity `N - 1`, where an open that finds the use count zero
is a reset. The accounting of bytes is then the queue's, and what is left is
that the use count is the number of open files.

## Main definitions

* `Sys`: The device, the open files and the calls inside the driver.
* `Step`, `step`: The steps of the system.
* `event`, `events`: What the queue machine sees of a step, and of a run.
* `Sys.Ok`: The indices lie in the ring and the use count is right.
* `BoundedFifo`: The law of a bounded queue, for one run.

## Theorems

* `step_ok`, `run_ok`: Steps and runs keep the invariant.
* `simulates_fifo`: Every run is a run of the queue machine.
* `poll_boundedFifo`: The device is a bounded queue over every run.
-/

namespace KernelModules

namespace Poll

namespace Queue

open Kernel Lib

variable {φ : Type*}

/-- The device, the files that are open, and how many calls on each file are
    inside the driver. -/
structure Sys (φ : Type*) where
  dev : Dev
  files : Finset φ
  calls : φ → Nat

def Sys.init : Sys φ := { dev := Dev.init, files := ∅, calls := fun _ => 0 }

/-- The steps. The user memory of a transfer does not fault, so a step names
    its bytes. -/
inductive Step (φ : Type*) where
  | openFile (f : φ)
  | enter (f : φ)
  | read (f : φ) (len : Nat) (buffer : Nat → UInt8)
  | write (f : φ) (len : Nat) (buffer : Nat → UInt8)
  | leave (f : φ)
  | releaseFile (f : φ)

/-- User memory that does not fault. -/
def resident (buffer : Nat → UInt8) : UserMem := fun k => some (buffer k)

def step [DecidableEq φ] (N : Nat) : Step φ → Sys φ → Option (Sys φ)
  | .openFile f, s =>
    if f ∈ s.files then none
    else some { s with dev := deviceOpen s.dev, files := insert f s.files }
  | .enter f, s =>
    if f ∈ s.files then some { s with calls := Function.update s.calls f (s.calls f + 1) }
    else none
  | .read f len buffer, s =>
    if 0 < s.calls f then some { s with dev := (readTransfer N len s.dev (resident buffer)).2.1 }
    else none
  | .write f len buffer, s =>
    if 0 < s.calls f then some { s with dev := (writeTransfer N len s.dev (resident buffer)).2 }
    else none
  | .leave f, s =>
    if 0 < s.calls f then some { s with calls := Function.update s.calls f (s.calls f - 1) }
    else none
  | .releaseFile f, s =>
    if f ∈ s.files ∧ s.calls f = 0 then
      some { s with dev := deviceRelease s.dev, files := s.files.erase f }
    else none

/-- What the queue machine sees of a step. A transfer is the block it put into
    the ring, or the block it left in the user's buffer, as long as the count
    it returns says. -/
def event (N : Nat) : Sys φ × Step φ → Option (Fifo.Event UInt8)
  | (s, .openFile _) => if s.dev.useCount = 0 then some .reset else none
  | (s, .read _ len buffer) =>
    let r := readTransfer N len s.dev (resident buffer)
    some (.get (bytes r.2.2 0 r.1))
  | (s, .write _ len buffer) =>
    let r := writeTransfer N len s.dev (resident buffer)
    some (.put (bytes (resident buffer) 0 r.1))
  | _ => none

/-- What the queue machine sees of a run, most recent first. -/
def events (N : Nat) (h : History (Sys φ) (Step φ)) : List (Fifo.Event UInt8) :=
  h.filterMap (event N)

/-- The indices lie in the ring, the use count is the number of open files, and
    calls are on open files only. -/
structure Sys.Ok (N : Nat) (s : Sys φ) : Prop where
  dev : s.dev.Ok N
  useCount : s.dev.useCount = s.files.card
  calls : ∀ f, 0 < s.calls f → f ∈ s.files

variable {N : Nat} {s s' : Sys φ} {h : History (Sys φ) (Step φ)}

theorem noFault_resident (buffer : Nat → UInt8) (len : Nat) : NoFault (resident buffer) len :=
  fun _ _ => rfl

theorem init_ok (hN : 0 < N) : (Sys.init : Sys φ).Ok N where
  dev := ⟨Int.le_refl 0, Int.natCast_pos.mpr hN, Int.le_refl 0, Int.natCast_pos.mpr hN⟩
  useCount := by simp only [Sys.init, Dev.init, Finset.card_empty, Int.natCast_zero]
  calls := fun f hf => absurd hf (Nat.lt_irrefl 0)

theorem useCount_eq_zero_iff (hs : s.Ok N) : s.dev.useCount = 0 ↔ s.files = ∅ := by
  rw [hs.useCount, Int.natCast_eq_zero, Finset.card_eq_zero]

variable [DecidableEq φ]

/-- Every step keeps the invariant. -/
theorem step_ok (hN : 0 < N) (l : Step φ) (hs : s.Ok N) (hstep : step N l s = some s') :
    s'.Ok N := by
  cases l with
  | openFile f =>
      simp only [step, Option.ite_none_left_eq_some, Option.some.injEq] at hstep
      rcases hstep with ⟨hnew, rfl⟩
      refine ⟨deviceOpen_ok hN hs.dev, ?_, fun g hg => Finset.mem_insert_of_mem (hs.calls g hg)⟩
      simp only [deviceOpen_useCount, hs.useCount, Finset.card_insert_of_notMem hnew,
        Int.natCast_add, Int.natCast_one]
  | enter f =>
      simp only [step, Option.ite_none_right_eq_some, Option.some.injEq] at hstep
      rcases hstep with ⟨hf, rfl⟩
      refine ⟨hs.dev, hs.useCount, fun g hg => ?_⟩
      by_cases hgf : g = f
      · rw [hgf]
        exact hf
      · simp only [Function.update_of_ne hgf] at hg
        exact hs.calls g hg
  | read f len buffer =>
      simp only [step, Option.ite_none_right_eq_some, Option.some.injEq] at hstep
      rcases hstep with ⟨-, rfl⟩
      refine ⟨readTransfer_ok hs.dev len _, ?_, hs.calls⟩
      simp only [readTransfer_dev hs.dev, hs.useCount]
  | write f len buffer =>
      simp only [step, Option.ite_none_right_eq_some, Option.some.injEq] at hstep
      rcases hstep with ⟨-, rfl⟩
      refine ⟨writeTransfer_ok hs.dev len _, ?_, hs.calls⟩
      simp only [writeTransfer_eq hs.dev, hs.useCount]
  | leave f =>
      simp only [step, Option.ite_none_right_eq_some, Option.some.injEq] at hstep
      rcases hstep with ⟨-, rfl⟩
      -- A file that has calls left on it had some before.
      refine ⟨hs.dev, hs.useCount, fun g hg => hs.calls g ?_⟩
      by_cases hgf : g = f
      · rw [hgf] at hg ⊢
        simp only [Function.update_self] at hg
        omega
      · simpa only [Function.update_of_ne hgf] using hg
  | releaseFile f =>
      simp only [step, Option.ite_none_right_eq_some, Option.some.injEq] at hstep
      rcases hstep with ⟨⟨hf, hidle⟩, rfl⟩
      refine ⟨{ hs.dev with }, ?_, ?_⟩
      · have hpos := Finset.card_pos.mpr ⟨f, hf⟩
        simp only [deviceRelease, hs.useCount, Finset.card_erase_of_mem hf]
        omega
      · -- A file with calls on it is not the one released.
        intro g hg
        refine Finset.mem_erase.mpr ⟨fun hgf => ?_, hs.calls g hg⟩
        rw [hgf, hidle] at hg
        exact Nat.lt_irrefl 0 hg

theorem run_ok (hN : 0 < N) (hr : Run (step N) Sys.init h s) : s.Ok N :=
  hr.invariant (Sys.Ok N) (init_ok hN) (fun _ l _ hs => step_ok hN l hs)

/-- Every run is a run of the queue machine of capacity `N - 1` that emits the
    same events and ends with the contents of the ring. -/
theorem simulates_fifo (hN : 0 < N) (hr : Run (step N) Sys.init h s) :
    ∃ hq, Run (Fifo.step (N - 1)) [] hq (s.dev.contents N) ∧ Fifo.events hq = events N h := by
  refine hr.simulate (fun s => s.dev.contents N) (event N) (fun h s l s' hr hstep => ?_)
  have hs := run_ok hN hr
  have hlt := hs.dev.held_lt
  cases l with
  | openFile f =>
      simp only [step, Option.ite_none_left_eq_some, Option.some.injEq] at hstep
      rcases hstep with ⟨-, rfl⟩
      -- Only the open that finds the use count zero is an event.
      by_cases hu : s.dev.useCount = 0
      · exact Or.inr ⟨.reset, if_pos hu, Fifo.step_reset.mpr (deviceOpen_contents_first hu)⟩
      · refine Or.inl ⟨if_neg hu, ?_⟩
        simp only [deviceOpen_of_ne hu]
        rfl
  | read f len buffer =>
      simp only [step, Option.ite_none_right_eq_some, Option.some.injEq] at hstep
      rcases hstep with ⟨-, rfl⟩
      -- What the loop left in the buffer is the front of the window.
      refine Or.inr ⟨_, rfl, Fifo.step_get.mpr ?_⟩
      simp only [readTransfer_count hs.dev, readTransfer_contents hs.dev,
        readTransfer_bytes hs.dev len _ (noFault_resident buffer _)]
      exact (List.take_append_drop _ _).symm
  | write f len buffer =>
      simp only [step, Option.ite_none_right_eq_some, Option.some.injEq] at hstep
      rcases hstep with ⟨-, rfl⟩
      -- The block is as long as the count, which never exceeds the room.
      refine Or.inr ⟨_, rfl, Fifo.step_put.mpr ⟨?_, ?_⟩⟩
      · simp only [bytes_length, contents_length, writeTransfer_count hs.dev, Dev.room]
        omega
      · simp only [writeTransfer_contents hs.dev, writeTransfer_count hs.dev]
  | enter f | leave f =>
      simp only [step, Option.ite_none_right_eq_some, Option.some.injEq] at hstep
      rcases hstep with ⟨-, rfl⟩
      exact Or.inl ⟨rfl, rfl⟩
  | releaseFile f =>
      simp only [step, Option.ite_none_right_eq_some, Option.some.injEq] at hstep
      rcases hstep with ⟨-, rfl⟩
      exact Or.inl ⟨rfl, rfl⟩

/-- The law of a bounded queue, for a run that ended in `s` with history `h`. -/
structure BoundedFifo [DecidableEq φ] (N : Nat) (h : History (Sys φ) (Step φ)) (s : Sys φ) :
    Prop where
  useCount : s.dev.useCount = s.files.card
  ir_range : 0 ≤ s.dev.ir ∧ s.dev.ir < N
  iw_range : 0 ≤ s.dev.iw ∧ s.dev.iw < N
  /-- The ring holds what went in and has not come out, in order. -/
  conserved : Fifo.accepted (events N h) = Fifo.returned (events N h) ++ s.dev.contents N
  /-- At most `N - 1` bytes are held. -/
  bounded : s.dev.held N ≤ N - 1
  /-- A write loop accepts the leading bytes that fit, as one block. -/
  write : ∀ (len : Nat) (buffer : Nat → UInt8),
    (writeTransfer N len s.dev (resident buffer)).1 = min len (N - 1 - s.dev.held N) ∧
    (writeTransfer N len s.dev (resident buffer)).2.contents N =
      s.dev.contents N ++ bytes (resident buffer) 0 (min len (N - 1 - s.dev.held N))
  /-- A read loop delivers the oldest bytes and takes them out. -/
  read : ∀ (len : Nat) (buffer : Nat → UInt8),
    (readTransfer N len s.dev (resident buffer)).1 = min len (s.dev.held N) ∧
    bytes (readTransfer N len s.dev (resident buffer)).2.2 0 (min len (s.dev.held N)) =
      (s.dev.contents N).take (min len (s.dev.held N)) ∧
    (readTransfer N len s.dev (resident buffer)).2.1.contents N =
      (s.dev.contents N).drop (min len (s.dev.held N))
  /-- An open while another file is open leaves the indices alone. -/
  no_reset : ∀ (f : φ) (s' : Sys φ), s.files.Nonempty → step N (.openFile f) s = some s' →
    s'.dev.ir = s.dev.ir ∧ s'.dev.iw = s.dev.iw

/-- The device is a bounded queue of capacity `N - 1` over every run. -/
theorem poll_boundedFifo (hN : 2 ≤ N) (hr : Run (step N) Sys.init h s) : BoundedFifo N h s := by
  have hs := run_ok (by omega) hr
  rcases simulates_fifo (by omega) hr with ⟨hq, hrq, hev⟩
  refine ⟨hs.useCount, ⟨hs.dev.ir_nonneg, hs.dev.ir_lt⟩, ⟨hs.dev.iw_nonneg, hs.dev.iw_lt⟩, ?_,
    ?_, ?_, ?_, ?_⟩
  · rw [← hev]
    exact Fifo.conservation hrq
  · rw [← contents_length]
    exact Fifo.run_length_le hrq
  · intro len buffer
    exact ⟨writeTransfer_count hs.dev len _, writeTransfer_contents hs.dev len _⟩
  · intro len buffer
    exact ⟨readTransfer_count hs.dev len _,
      readTransfer_bytes hs.dev len _ (noFault_resident buffer _),
      readTransfer_contents hs.dev len _⟩
  · -- Another file is open, so the use count is not zero.
    intro f s' hne hstep
    have hu : s.dev.useCount ≠ 0 := fun hu =>
      hne.ne_empty ((useCount_eq_zero_iff hs).mp hu)
    simp only [step, Option.ite_none_left_eq_some, Option.some.injEq] at hstep
    rcases hstep with ⟨-, rfl⟩
    simp only [deviceOpen_of_ne hu, and_self]

/-- Two files on the source's ring: a write that fills it, a read of two bytes
    and a second open. -/
theorem poll_boundedFifo_full : ∃ (h : History (Sys Nat) (Step Nat)) (s : Sys Nat),
    BoundedFifo 23 h s ∧ s.dev.useCount = 2 ∧ s.dev.ir = 2 ∧ s.dev.iw = 22 := by
  rcases exists_run_of_exec (step 23) (Sys.init : Sys Nat)
    [.openFile 0, .enter 0, .write 0 (2 ^ 64 - 1) (fun k => k.toUInt8), .leave 0, .openFile 1,
      .enter 1, .read 1 2 (fun _ => 0)]
    (fun _ s => s.dev.useCount = 2 ∧ s.dev.ir = 2 ∧ s.dev.iw = 22) (by decide) with
    ⟨h, s, hr, hp⟩
  exact ⟨h, s, poll_boundedFifo (by decide) hr, of_decide_eq_true hp⟩

end Queue

end Poll

end KernelModules
