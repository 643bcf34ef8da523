import KernelModules.Lib.Mutex
import KernelModules.Poll.Fifo
import KernelModules.Poll.Tasks

/-!
# The Sections of poll.c

`Poll.Fifo` takes an open, a release and a transfer loop as one step each. The
source has locks for that, and two of them: `device_open` and `device_release`
run under the spin lock, the loops under `sema`. So neither excludes the other,
and the reset of the indices in `device_open` might come between any two
statements of a loop.

Here they are run statement by statement, for any number of tasks in any order,
with the two locks as they are. The VFS opens a file and releases it once,
makes calls on it in between, and has none of them inside when it releases it.

The invariant says who holds the locks, that `use_count` is right at every
statement, and that the indices lie in the ring except within an iteration,
between the increment and the reset at the end. `Poll.Atomic` rests on it.

## Main definitions

* `Pc`, `Task`: The statements, and a task inside the driver.
* `moveByte`, `wrapIndex`: The two halves of an iteration.
* `Sys`, `run`, `Step`, `step`: The system.
* `Sys.settled`: The device when the iteration is over.
* `Task.Ok`, `Sys.Ok`: The invariant.

## Theorems

* `run_frame`, `run_guarded`, `run_counted`, `run_ring`: What a statement
  leaves as it is, the locks, the use count and the indices after it.
* `run_keeps`, `enter_ok`: A statement keeps the invariant, and a task that
  comes in.
* `sema_of_unused`: An open resets the indices when nobody is in a loop.
* `step_ok`, `run_ok`: Steps and runs keep the invariant.
-/

namespace KernelModules

namespace Poll

namespace Sections

open Kernel Lib

open Tasks (Kind)

open Queue (resident)

/-- The statements of `device_open`, of `device_release`, and of the part of
    the calls from `down_interruptible` on. -/
inductive Pc where
  | openLock
  | openTest
  | reset
  | openCount
  | openUnlock
  | releaseLock
  | releaseCount
  | releaseUnlock
  | down
  | stop
  | head
  | test
  | move
  | count
  | wrap
  | up
  | returned
  deriving DecidableEq

/-- Under the spin lock. -/
def Pc.Locked : Pc → Prop
  | .openTest | .reset | .openCount | .openUnlock | .releaseCount | .releaseUnlock => True
  | _ => False

/-- Under `sema`. -/
def Pc.Holds : Pc → Prop
  | .stop | .head | .test | .move | .count | .wrap | .up => True
  | _ => False

/-- In a read or a write. -/
def Pc.Transfers : Pc → Prop
  | .down | .stop | .head | .test | .move | .count | .wrap | .up | .returned => True
  | _ => False

instance : (pc : Pc) → Decidable pc.Transfers
  | .down | .stop | .head | .test | .move | .count | .wrap | .up | .returned => .isTrue trivial
  | .openLock | .openTest | .reset | .openCount | .openUnlock | .releaseLock | .releaseCount
  | .releaseUnlock => .isFalse id

/-- In an open that has not counted its file, and in a release that still
    has. -/
def Pc.Opening : Pc → Prop
  | .openLock | .openTest | .reset | .openCount => True
  | _ => False

def Pc.Closing : Pc → Prop
  | .releaseLock | .releaseCount => True
  | _ => False

theorem Pc.Holds.transfers {pc : Pc} (h : pc.Holds) : pc.Transfers := by
  cases pc <;> first | exact h | trivial

/-- What is under the spin lock is neither under `sema` nor in a call. -/
theorem Pc.Locked.not_transfers {pc : Pc} (h : pc.Locked) : ¬ pc.Transfers := by
  cases pc <;> first | exact id | exact h.elim

/-- A task inside the driver: its arguments, what is in its buffer by now, and
    its locals. An open or a release has a file only. -/
structure Task (φ : Type*) where
  pc : Pc
  kind : Kind
  file : φ
  len : Nat
  arg : Nat → UInt8
  buffer : UserMem
  i : Nat
  ih : Int

variable {ι φ : Type*}

def Task.goto (c : Task φ) (pc : Pc) : Task φ := { c with pc := pc }

/-- Where a write stops: `ih=ir-1; if(ih<0) ih+=N;`. -/
def stopIndex (N : Nat) (d : Dev) : Int := if d.ir - 1 < 0 then d.ir - 1 + N else d.ir - 1

/-- `ir==iw` in a read, `iw==ih` in a write. -/
def atEnd : Kind → (ih : Int) → Dev → Prop
  | .read, _, d => d.ir = d.iw
  | .write, ih, d => d.iw = ih

instance : (kind : Kind) → (ih : Int) → (d : Dev) → Decidable (atEnd kind ih d)
  | .read, _, d => inferInstanceAs (Decidable (d.ir = d.iw))
  | .write, ih, d => inferInstanceAs (Decidable (d.iw = ih))

/-- `put_user(rbuf[ir++], buffer++)`, or `get_user(rbuf[iw++], buffer++)`, of
    byte `i`. -/
def moveByte : Kind → (i : Nat) → Dev → UserMem → Dev × UserMem
  | .read, i, d, u => ({ d with ir := d.ir + 1 }, putUser u i (d.rbuf d.ir))
  | .write, i, d, u =>
    ({ d with rbuf := Function.update d.rbuf d.iw (getUser u i), iw := d.iw + 1 }, u)

/-- `if(ir==N) ir=0;`, or the same for `iw`. -/
def wrapIndex (N : Nat) : Kind → Dev → Dev
  | .read, d => { d with ir := if d.ir = N then 0 else d.ir }
  | .write, d => { d with iw := if d.iw = N then 0 else d.iw }

/-- The device, the files that are counted in `use_count`, the holders of the
    spin lock and of `sema`, and the tasks. -/
structure Sys (ι φ : Type*) where
  dev : Dev
  files : Finset φ
  lock : Option ι
  sema : Option ι
  inside : Finset ι
  tasks : ι → Option (Task φ)

def Sys.init : Sys ι φ :=
  { dev := Dev.init, files := ∅, lock := none, sema := none, inside := ∅,
    tasks := fun _ => none }

inductive Step (ι φ : Type*) where
  | openFile (t : ι) (f : φ)
  | releaseFile (t : ι) (f : φ)
  | call (t : ι) (kind : Kind) (f : φ) (len : Nat) (arg : Nat → UInt8)
  | run (t : ι)
  | downFails (t : ι)

section Semantics

variable [DecidableEq ι] [DecidableEq φ]

def Sys.put (s : Sys ι φ) (t : ι) (c : Task φ) : Sys ι φ :=
  { s with tasks := Function.update s.tasks t (some c) }

/-- The task is back in the VFS. -/
def Sys.drop (s : Sys ι φ) (t : ι) : Sys ι φ :=
  { s with inside := s.inside.erase t, tasks := Function.update s.tasks t none }

/-- A task that has come inside. -/
def Sys.enter (s : Sys ι φ) (t : ι) (c : Task φ) : Sys ι φ :=
  { s.put t c with inside := insert t s.inside }

/-- The next statement of a task, or `none` where it waits for a lock. -/
def run (N : Nat) (t : ι) (c : Task φ) (s : Sys ι φ) : Option (Sys ι φ) :=
  match c.pc with
  | .openLock =>
    if s.lock.isNone then some { s.put t (c.goto .openTest) with lock := some t } else none
  | .openTest => some (s.put t (c.goto (if s.dev.useCount = 0 then .reset else .openCount)))
  -- `ir=iw=0;`
  | .reset => some { s.put t (c.goto .openCount) with dev := { s.dev with ir := 0, iw := 0 } }
  | .openCount =>
    some { s.put t (c.goto .openUnlock) with
      dev := { s.dev with useCount := s.dev.useCount + 1 }
      files := insert c.file s.files }
  | .openUnlock => some { s.drop t with lock := none }
  | .releaseLock =>
    if s.lock.isNone then some { s.put t (c.goto .releaseCount) with lock := some t } else none
  | .releaseCount =>
    some { s.put t (c.goto .releaseUnlock) with
      dev := deviceRelease s.dev
      files := s.files.erase c.file }
  | .releaseUnlock => some { s.drop t with lock := none }
  | .down => if s.sema.isNone then some { s.put t (c.goto .stop) with sema := some t } else none
  -- Only a write has a statement here.
  | .stop =>
    some (s.put t { c with
      pc := .head
      ih := match c.kind with
        | .read => c.ih
        | .write => stopIndex N s.dev })
  | .head => some (s.put t (c.goto (if c.i < c.len then .test else .up)))
  | .test => some (s.put t (c.goto (if atEnd c.kind c.ih s.dev then .up else .move)))
  | .move =>
    let r := moveByte c.kind c.i s.dev c.buffer
    some { s.put t { c with pc := .count, buffer := r.2 } with dev := r.1 }
  | .count => some (s.put t { c with pc := .wrap, i := c.i + 1 })
  | .wrap => some { s.put t (c.goto .head) with dev := wrapIndex N c.kind s.dev }
  | .up => some { s.put t (c.goto .returned) with sema := none }
  | .returned => some (s.drop t)

/-- No task inside is on the file, or only such as meet `p`. -/
def Sys.noneOn (s : Sys ι φ) (f : φ) (p : Pc → Bool) : Bool :=
  decide (∀ t ∈ s.inside, (s.tasks t).all (fun c => decide (c.file = f) → p c.pc) = true)

/-- A file is opened once, released once, and in between has calls. -/
def step (N : Nat) : Step ι φ → Sys ι φ → Option (Sys ι φ)
  | .openFile t f, s =>
    if (s.tasks t).isNone ∧ f ∉ s.files ∧ s.noneOn f fun _ => false then
      some (s.enter t { pc := .openLock, kind := .read, file := f, len := 0, arg := fun _ => 0,
                        buffer := fun _ => none, i := 0, ih := 0 })
    else none
  | .releaseFile t f, s =>
    if (s.tasks t).isNone ∧ f ∈ s.files ∧ s.noneOn f fun _ => false then
      some (s.enter t { pc := .releaseLock, kind := .read, file := f, len := 0,
                        arg := fun _ => 0, buffer := fun _ => none, i := 0, ih := 0 })
    else none
  | .call t kind f len arg, s =>
    if (s.tasks t).isNone ∧ f ∈ s.files ∧ s.noneOn f fun pc => decide pc.Transfers then
      some (s.enter t { pc := .down, kind := kind, file := f, len := len, arg := arg,
                        buffer := resident arg, i := 0, ih := 0 })
    else none
  | .run t, s => (s.tasks t).bind fun c => run N t c s
  | .downFails t, s =>
    (s.tasks t).bind fun c =>
      if c.pc = .down then some (s.put t (c.goto .returned)) else none

end Semantics

/-- The task in a transfer loop. -/
def Sys.holder (s : Sys ι φ) : Option (Task φ) := s.sema.bind s.tasks

/-- The device when the iteration that is being run is over. -/
def Sys.settled (N : Nat) (s : Sys ι φ) : Dev :=
  s.holder.elim s.dev fun c =>
    if c.pc = .count ∨ c.pc = .wrap then wrapIndex N c.kind s.dev else s.dev

/-- A task between two of its statements: its file is counted or not, a reset
    finds no file counted, a loop starts from the beginning, and an iteration
    has a byte to move. -/
structure Task.Ok (s : Sys ι φ) (c : Task φ) : Prop where
  present : c.pc.Transfers ∨ c.pc.Closing → c.file ∈ s.files
  absent : c.pc.Opening → c.file ∉ s.files
  reset : c.pc = .reset → s.dev.useCount = 0
  start : c.pc = .down ∨ c.pc = .stop → c.i = 0 ∧ c.buffer = resident c.arg
  within : c.pc = .test ∨ c.pc = .move ∨ c.pc = .count → c.i < c.len

/-- The invariant: the locks are held by those in their sections, `use_count`
    is right, an open or a release is alone on its file, and the indices lie in
    the ring except within an iteration. -/
structure Sys.Ok (N : Nat) (s : Sys ι φ) : Prop where
  lock : Guarded (fun c => c.pc.Locked) s.lock s.tasks
  sema : Guarded (fun c => c.pc.Holds) s.sema s.tasks
  useCount : s.dev.useCount = s.files.card
  inside : ∀ t c, s.tasks t = some c → t ∈ s.inside
  tasks : ∀ t c, s.tasks t = some c → c.Ok s
  alone : ∀ t c, s.tasks t = some c → ¬ c.pc.Transfers →
    ∀ u cu, s.tasks u = some cu → cu.file = c.file → u = t
  ring : (s.settled N).Ok N

section Steps

variable [DecidableEq ι] [DecidableEq φ] {N : Nat} {s s' : Sys ι φ} {t u : ι} {c c' cu : Task φ}

omit [DecidableEq ι] [DecidableEq φ] in
theorem wrapIndex_useCount {kind : Kind} {d : Dev} (n : Int) :
    wrapIndex N kind { d with useCount := n } = { wrapIndex N kind d with useCount := n } := by
  cases kind <;> rfl

/-- What a statement leaves as it is: the other tasks, and of its own what the
    call was made with. -/
structure Frame (t : ι) (c : Task φ) (s s' : Sys ι φ) (x : Option (Task φ)) : Prop where
  tasks : s'.tasks = Function.update s.tasks t x
  stays : ∀ c', x = some c' → s'.inside = s.inside ∧ c'.file = c.file ∧ c'.kind = c.kind ∧
    c'.len = c.len ∧ c'.arg = c.arg ∧ (c'.pc.Transfers ↔ c.pc.Transfers)
  leaves : x = none → s'.inside = s.inside.erase t

theorem run_frame (h : run N t c s = some s') : ∃ x, Frame t c s s' x := by
  cases hpc : c.pc with
  | openLock | releaseLock | down =>
      simp only [run, hpc, Option.ite_none_right_eq_some, Option.some.injEq] at h
      rcases h with ⟨_, rfl⟩
      refine ⟨_, rfl, fun c' hc' => ?_, fun h => absurd h (Option.some_ne_none _)⟩
      rw [← Option.some.inj hc']
      exact ⟨rfl, rfl, rfl, rfl, rfl, by rw [hpc]; exact Iff.rfl⟩
  | openUnlock | releaseUnlock | returned =>
      simp only [run, hpc, Option.some.injEq] at h
      subst h
      exact ⟨none, rfl, fun c' hc' => absurd hc' (Option.some_ne_none c').symm, fun _ => rfl⟩
  | openTest | head | test =>
      simp only [run, hpc, Option.some.injEq] at h
      subst h
      refine ⟨_, rfl, fun c' hc' => ?_, fun h => absurd h (Option.some_ne_none _)⟩
      rw [← Option.some.inj hc']
      refine ⟨rfl, rfl, rfl, rfl, rfl, ?_⟩
      rw [hpc]
      simp only [Task.goto]
      split <;> exact Iff.rfl
  | reset | openCount | releaseCount | stop | move | count | wrap | up =>
      simp only [run, hpc, Option.some.injEq] at h
      subst h
      refine ⟨_, rfl, fun c' hc' => ?_, fun h => absurd h (Option.some_ne_none _)⟩
      rw [← Option.some.inj hc']
      exact ⟨rfl, rfl, rfl, rfl, rfl, by rw [hpc]; exact Iff.rfl⟩

/-- Each lock is with the task that is between taking and giving it. -/
theorem run_guarded (hlock : Guarded (fun c => c.pc.Locked) s.lock s.tasks)
    (hsema : Guarded (fun c => c.pc.Holds) s.sema s.tasks) (hc : s.tasks t = some c)
    (h : run N t c s = some s') : Guarded (fun c => c.pc.Locked) s'.lock s'.tasks ∧
      Guarded (fun c => c.pc.Holds) s'.sema s'.tasks := by
  cases hpc : c.pc with
  | openLock | releaseLock =>
      simp only [run, hpc, Option.ite_none_right_eq_some, Option.some.injEq,
        Option.isNone_iff_eq_none] at h
      rcases h with ⟨hfree, rfl⟩
      exact ⟨hlock.take hfree trivial, hsema.stay hc (by rw [hpc]; exact Iff.rfl)⟩
  | openUnlock | releaseUnlock =>
      simp only [run, hpc, Option.some.injEq] at h
      subst h
      refine ⟨hlock.free hc (by rw [hpc]; trivial) fun c' hc' => ?_,
        hsema.drop hc (by rw [hpc]; exact id)⟩
      exact absurd hc' (Option.some_ne_none c').symm
  | down =>
      simp only [run, hpc, Option.ite_none_right_eq_some, Option.some.injEq,
        Option.isNone_iff_eq_none] at h
      rcases h with ⟨hfree, rfl⟩
      exact ⟨hlock.stay hc (by rw [hpc]; exact Iff.rfl), hsema.take hfree trivial⟩
  | up =>
      simp only [run, hpc, Option.some.injEq] at h
      subst h
      refine ⟨hlock.stay hc (by rw [hpc]; exact Iff.rfl),
        hsema.free hc (by rw [hpc]; trivial) fun c' hc' => ?_⟩
      rw [← Option.some.inj hc']
      exact id
  | returned =>
      simp only [run, hpc, Option.some.injEq] at h
      subst h
      exact ⟨hlock.drop hc (by rw [hpc]; exact id), hsema.drop hc (by rw [hpc]; exact id)⟩
  | openTest | head | test =>
      simp only [run, hpc, Option.some.injEq] at h
      subst h
      refine ⟨hlock.stay hc ?_, hsema.stay hc ?_⟩ <;> rw [hpc] <;> simp only [Task.goto] <;>
        split <;> exact Iff.rfl
  | reset | openCount | releaseCount | stop | move | count | wrap =>
      simp only [run, hpc, Option.some.injEq] at h
      subst h
      exact ⟨hlock.stay hc (by rw [hpc]; exact Iff.rfl), hsema.stay hc (by rw [hpc]; exact Iff.rfl)⟩

omit [DecidableEq ι] [DecidableEq φ] in
/-- A task that has counted its file and gives the lock back. -/
theorem ok_unlocking (h : c.pc = .openUnlock ∨ c.pc = .releaseUnlock) : c.Ok s := by
  rcases h with h | h <;> constructor <;>
    simp only [h, Pc.Transfers, Pc.Closing, Pc.Opening, reduceCtorEq, or_self, false_implies]

omit [DecidableEq ι] [DecidableEq φ] in
theorem Task.Ok.congr (hok : c.Ok s) (hfiles : s'.files = s.files)
    (hcount : s'.dev.useCount = s.dev.useCount) : c.Ok s' := by
  rcases hok with ⟨hpresent, habsent, hreset, hstart, hwithin⟩
  rw [← hfiles] at hpresent habsent
  rw [← hcount] at hreset
  exact ⟨hpresent, habsent, hreset, hstart, hwithin⟩

omit [DecidableEq φ] in
/-- The tasks after a statement that counts no file. -/
theorem Frame.tasks_ok {x : Option (Task φ)} (hf : Frame t c s s' x)
    (hs : ∀ t c, s.tasks t = some c → c.Ok s) (hfiles : s'.files = s.files)
    (hcount : s'.dev.useCount = s.dev.useCount) (hx : ∀ c', x = some c' → c'.Ok s) :
    ∀ u cu, s'.tasks u = some cu → cu.Ok s' := by
  intro u cu hu
  rw [hf.tasks] at hu
  by_cases hut : u = t
  · rw [hut, Function.update_self] at hu
    exact (hx cu hu).congr hfiles hcount
  · rw [Function.update_of_ne hut] at hu
    exact (hs u cu hu).congr hfiles hcount

omit [DecidableEq φ] in
theorem Frame.alone {x : Option (Task φ)} (hf : Frame t c s s' x) (hc : s.tasks t = some c)
    (hs : ∀ t c, s.tasks t = some c → ¬ c.pc.Transfers →
      ∀ u cu, s.tasks u = some cu → cu.file = c.file → u = t) :
    ∀ t c, s'.tasks t = some c → ¬ c.pc.Transfers →
      ∀ u cu, s'.tasks u = some cu → cu.file = c.file → u = t := by
  -- A task after the step is one before it, on the same file.
  have hback : ∀ u cu, s'.tasks u = some cu → ∃ cu', s.tasks u = some cu' ∧
      cu'.file = cu.file ∧ (cu.pc.Transfers ↔ cu'.pc.Transfers) := by
    intro u cu hu
    rw [hf.tasks] at hu
    by_cases hut : u = t
    · rw [hut, Function.update_self] at hu
      rcases hf.stays cu hu with ⟨_, hfile, _, _, _, htransfers⟩
      exact ⟨c, hut ▸ hc, hfile.symm, htransfers⟩
    · rw [Function.update_of_ne hut] at hu
      exact ⟨cu, hu, rfl, Iff.rfl⟩
  intro v cv hv hadmin u cu hu hfile
  rcases hback v cv hv with ⟨cv', hv', hfilev, hadminv⟩
  rcases hback u cu hu with ⟨cu', hu', hfileu, _⟩
  exact hs v cv' hv' (mt hadminv.mpr hadmin) u cu' hu' (by rw [hfileu, hfile, hfilev])

omit [DecidableEq φ] in
theorem Frame.inside {x : Option (Task φ)} (hf : Frame t c s s' x)
    (hs : ∀ t c, s.tasks t = some c → t ∈ s.inside) (hc : s.tasks t = some c) :
    ∀ u cu, s'.tasks u = some cu → u ∈ s'.inside := by
  intro u cu hu
  rw [hf.tasks] at hu
  cases x with
  | none =>
      have hut : u ≠ t := by
        rintro rfl
        rw [Function.update_self] at hu
        exact absurd hu (Option.some_ne_none cu).symm
      rw [Function.update_of_ne hut] at hu
      rw [hf.leaves rfl]
      exact Finset.mem_erase_of_ne_of_mem hut (hs u cu hu)
  | some c' =>
      rw [(hf.stays c' rfl).1]
      by_cases hut : u = t
      · rw [hut]
        exact hs t c hc
      · rw [Function.update_of_ne hut] at hu
        exact hs u cu hu

/-- A task after a statement that counts no file. -/
theorem run_task (hs : s.Ok N) (hc : s.tasks t = some c) (h : run N t c s = some s')
    (hpc : c.pc ≠ .openCount) (hpc' : c.pc ≠ .releaseCount) :
    s'.files = s.files ∧ s'.dev.useCount = s.dev.useCount ∧
      ∀ c', s'.tasks t = some c' → c'.Ok s := by
  have hok := hs.tasks t c hc
  cases hcase : c.pc with
  | openCount => exact absurd hcase hpc
  | releaseCount => exact absurd hcase hpc'
  | openLock | releaseLock | down =>
      simp only [run, hcase, Option.ite_none_right_eq_some, Option.some.injEq] at h
      rcases h with ⟨_, rfl⟩
      refine ⟨rfl, rfl, fun c' hc' => ?_⟩
      simp only [Sys.put, Function.update_self, Option.some.injEq] at hc'
      subst hc'
      rcases hok with ⟨hpresent, habsent, hreset, hstart, hwithin⟩
      rw [hcase] at hpresent habsent hreset hstart hwithin
      constructor <;> simp_all [Task.goto, Pc.Transfers, Pc.Closing, Pc.Opening]
  | openUnlock | releaseUnlock | returned =>
      simp only [run, hcase, Option.some.injEq] at h
      subst h
      refine ⟨rfl, rfl, fun c' hc' => ?_⟩
      simp only [Sys.drop, Function.update_self, reduceCtorEq] at hc'
  | openTest | head | test =>
      simp only [run, hcase, Option.some.injEq] at h
      subst h
      refine ⟨rfl, rfl, fun c' hc' => ?_⟩
      simp only [Sys.put, Function.update_self, Option.some.injEq] at hc'
      subst hc'
      rcases hok with ⟨hpresent, habsent, hreset, hstart, hwithin⟩
      rw [hcase] at hpresent habsent hreset hstart hwithin
      constructor <;> simp only [Task.goto] <;> split <;>
        simp_all [Pc.Transfers, Pc.Closing, Pc.Opening]
  | reset | stop | move | count | wrap | up =>
      simp only [run, hcase, Option.some.injEq] at h
      subst h
      refine ⟨rfl, ?_, fun c' hc' => ?_⟩
      · cases c.kind <;> rfl
      simp only [Sys.put, Function.update_self, Option.some.injEq] at hc'
      subst hc'
      rcases hok with ⟨hpresent, habsent, hreset, hstart, hwithin⟩
      rw [hcase] at hpresent habsent hreset hstart hwithin
      constructor <;> simp_all [Task.goto, Pc.Transfers, Pc.Closing, Pc.Opening]

/-- The use count after a statement, and the tasks. -/
theorem run_counted (hs : s.Ok N) (hc : s.tasks t = some c) (h : run N t c s = some s') :
    s'.dev.useCount = s'.files.card ∧ ∀ u cu, s'.tasks u = some cu → cu.Ok s' := by
  have hok := hs.tasks t c hc
  -- An open or a release is alone on its file, so nobody misses it.
  have hother : ¬ c.pc.Transfers → ∀ u cu, s.tasks u = some cu → u ≠ t → cu.file ≠ c.file :=
    fun hadmin u cu hu hne hfile => hne (hs.alone t c hc hadmin u cu hu hfile)
  by_cases hopen : c.pc = .openCount
  · have hnew := hok.absent (by rw [hopen]; trivial)
    simp only [run, hopen, Option.some.injEq] at h
    subst h
    refine ⟨?_, fun u cu hu => ?_⟩
    · simp only [hs.useCount, Finset.card_insert_of_notMem hnew, Int.natCast_add,
        Int.natCast_one]
    · by_cases hut : u = t
      · simp only [hut, Sys.put, Function.update_self, Option.some.injEq] at hu
        subst hu
        exact ok_unlocking (.inl rfl)
      · simp only [Sys.put, Function.update_of_ne hut] at hu
        have hne := hother (by rw [hopen]; exact id) u cu hu hut
        rcases hs.tasks u cu hu with ⟨hpresent, habsent, _, hstart, hwithin⟩
        refine ⟨fun h => Finset.mem_insert_of_mem (hpresent h), fun h => ?_, fun h => ?_, hstart,
          hwithin⟩
        · simp only [Finset.mem_insert, hne, habsent h, or_self, not_false_iff]
        · exact absurd (hs.lock.unique hu (by rw [h]; trivial) hc (by rw [hopen]; trivial)) hut
  · by_cases hclose : c.pc = .releaseCount
    · have hold := hok.present (by rw [hclose]; exact .inr trivial)
      simp only [run, hclose, Option.some.injEq] at h
      subst h
      refine ⟨?_, fun u cu hu => ?_⟩
      · have hpos := Finset.card_pos.mpr ⟨c.file, hold⟩
        simp only [deviceRelease, hs.useCount, Finset.card_erase_of_mem hold]
        omega
      · by_cases hut : u = t
        · simp only [hut, Sys.put, Function.update_self, Option.some.injEq] at hu
          subst hu
          exact ok_unlocking (.inr rfl)
        · simp only [Sys.put, Function.update_of_ne hut] at hu
          have hne := hother (by rw [hclose]; exact id) u cu hu hut
          rcases hs.tasks u cu hu with ⟨hpresent, habsent, _, hstart, hwithin⟩
          refine ⟨fun h => Finset.mem_erase.mpr ⟨hne, hpresent h⟩,
            fun h hmem => habsent h (Finset.mem_of_mem_erase hmem), fun h => ?_, hstart, hwithin⟩
          exact absurd (hs.lock.unique hu (by rw [h]; trivial) hc (by rw [hclose]; trivial)) hut
    · rcases run_frame h with ⟨x, hf⟩
      rcases run_task hs hc h hopen hclose with ⟨hfiles, hcount, hown⟩
      refine ⟨by rw [hcount, hfiles, hs.useCount], hf.tasks_ok hs.tasks hfiles hcount ?_⟩
      intro c' hc'
      exact hown c' (by rw [hf.tasks, Function.update_self, hc'])

omit [DecidableEq φ] in
/-- The task in a loop, for the steps of the others. -/
theorem holder_of_out {x : Option (Task φ)} (hs : Guarded (fun c => c.pc.Holds) s.sema s.tasks)
    (htasks : s'.tasks = Function.update s.tasks t x) (hsema : s'.sema = s.sema)
    (hout : ∀ c, s.tasks t = some c → ¬ c.pc.Holds) : s'.holder = s.holder := by
  rw [Sys.holder, htasks, hsema, hs.bind_update hout, Sys.holder]

omit [DecidableEq ι] [DecidableEq φ] in
theorem settled_some (h : s.holder = some c) : s.settled N =
    if c.pc = .count ∨ c.pc = .wrap then wrapIndex N c.kind s.dev else s.dev := by
  rw [Sys.settled, h, Option.elim_some]

omit [DecidableEq ι] [DecidableEq φ] in
theorem settled_none (h : s.holder = none) : s.settled N = s.dev := by
  rw [Sys.settled, h, Option.elim_none]

omit [DecidableEq ι] [DecidableEq φ] in
/-- How many files are open does not matter to the indices. -/
theorem ring_congr (hs : (s.settled N).Ok N) (hholder : s'.holder = s.holder) (n : Int)
    (hdev : s'.dev = { s.dev with useCount := n }) : (s'.settled N).Ok N := by
  cases h : s.holder with
  | none =>
      rw [settled_none h] at hs
      rw [settled_none (hholder.trans h), hdev]
      exact { hs with }
  | some c =>
      rw [settled_some h] at hs
      rw [settled_some (hholder.trans h), hdev, wrapIndex_useCount]
      by_cases hpc : c.pc = .count ∨ c.pc = .wrap
      · rw [if_pos hpc] at hs ⊢
        exact { hs with }
      · rw [if_neg hpc] at hs ⊢
        exact { hs with }

omit [DecidableEq ι] [DecidableEq φ] in
/-- An open resets the indices when nobody is in a loop. -/
theorem sema_of_unused (hs : s.Ok N) (h : s.dev.useCount = 0) : s.sema = none := by
  rw [hs.sema.none_iff]
  intro u cu hu hin
  have hfiles : s.files = ∅ := by
    rw [← Finset.card_eq_zero, ← Int.natCast_eq_zero, ← hs.useCount, h]
  have hmem := (hs.tasks u cu hu).present (.inl hin.transfers)
  rw [hfiles] at hmem
  exact absurd hmem (Finset.notMem_empty _)

omit [DecidableEq ι] [DecidableEq φ] in
theorem holder_of_free (h : s.sema = none) : s.holder = none := by
  rw [Sys.holder, h, Option.bind_none]

omit [DecidableEq ι] [DecidableEq φ] in
theorem ring_of_free (h : s.holder = none) (hholder : s'.holder = s.holder) (hd : s'.dev.Ok N) :
    (s'.settled N).Ok N := by
  rw [settled_none (hholder.trans h)]
  exact hd

omit [DecidableEq φ] in
/-- The task that has made the step is in a loop still. -/
theorem ring_of_holds {x : Option (Task φ)} (hsema : Guarded (fun c => c.pc.Holds) s'.sema s'.tasks)
    (htasks : s'.tasks = Function.update s.tasks t x) (hx : x = some c') (hin : c'.pc.Holds)
    (hd : (if c'.pc = .count ∨ c'.pc = .wrap then wrapIndex N c'.kind s'.dev else s'.dev).Ok N) :
    (s'.settled N).Ok N := by
  rw [settled_some (hsema.bind_eq (by rw [htasks, Function.update_self, hx]) hin)]
  exact hd

/-- An iteration keeps the indices in the ring. -/
theorem wrapIndex_moveByte_ok {d : Dev} {u : UserMem} {i : Nat} {kind : Kind} (hd : d.Ok N) :
    (wrapIndex N kind (moveByte kind i d u).1).Ok N := by
  have hwrap : ∀ n : Int, 0 ≤ n → n < N →
      0 ≤ (if n + 1 = N then 0 else n + 1) ∧ (if n + 1 = N then 0 else n + 1) < (N : Int) := by
    intro n hn hlt
    split <;> omega
  rcases hd with ⟨hir, hir', hiw, hiw'⟩
  cases kind with
  | read => exact ⟨(hwrap d.ir hir hir').1, (hwrap d.ir hir hir').2, hiw, hiw'⟩
  | write => exact ⟨hir, hir', (hwrap d.iw hiw hiw').1, (hwrap d.iw hiw hiw').2⟩

/-- The indices after a statement. -/
theorem run_ring (hN : 0 < N) (hs : s.Ok N) (hsema : Guarded (fun c => c.pc.Holds) s'.sema s'.tasks)
    (hc : s.tasks t = some c) (h : run N t c s = some s') : (s'.settled N).Ok N := by
  have hring := hs.ring
  have hout : ¬ c.pc.Holds → ∀ c, s.tasks t = some c → ¬ c.pc.Holds := by
    intro hout c' hc'
    rw [hc, Option.some.injEq] at hc'
    rwa [← hc']
  cases hpc : c.pc with
  | openLock | releaseLock =>
      simp only [run, hpc, Option.ite_none_right_eq_some, Option.some.injEq] at h
      rcases h with ⟨_, rfl⟩
      exact ring_congr hring (holder_of_out hs.sema rfl rfl (hout (by rw [hpc]; exact id))) _ rfl
  | openTest | openCount | openUnlock | releaseCount | releaseUnlock | returned =>
      simp only [run, hpc, Option.some.injEq] at h
      subst h
      exact ring_congr hring (holder_of_out hs.sema rfl rfl (hout (by rw [hpc]; exact id))) _ rfl
  | reset =>
      have hfree := holder_of_free (sema_of_unused hs ((hs.tasks t c hc).reset hpc))
      simp only [run, hpc, Option.some.injEq] at h
      subst h
      exact ring_of_free hfree (holder_of_out hs.sema rfl rfl (hout (by rw [hpc]; exact id)))
        ⟨Int.le_refl 0, Int.natCast_pos.mpr hN, Int.le_refl 0, Int.natCast_pos.mpr hN⟩
  | down =>
      simp only [run, hpc, Option.ite_none_right_eq_some, Option.some.injEq,
        Option.isNone_iff_eq_none] at h
      rcases h with ⟨hfree, rfl⟩
      rw [settled_none (holder_of_free hfree)] at hring
      exact ring_of_holds hsema rfl rfl trivial hring
  | up =>
      rw [settled_some (hs.sema.bind_eq hc (by rw [hpc]; trivial)), hpc] at hring
      simp only [run, hpc, Option.some.injEq] at h
      subst h
      rw [settled_none rfl]
      exact hring
  | head | test =>
      rw [settled_some (hs.sema.bind_eq hc (by rw [hpc]; trivial)), hpc] at hring
      simp only [run, hpc, Option.some.injEq] at h
      subst h
      refine ring_of_holds hsema rfl rfl ?_ ?_ <;> simp only [Task.goto] <;> split
      · trivial
      · trivial
      · exact hring
      · exact hring
  | move =>
      rw [settled_some (hs.sema.bind_eq hc (by rw [hpc]; trivial)), hpc] at hring
      simp only [run, hpc, Option.some.injEq] at h
      subst h
      exact ring_of_holds hsema rfl rfl trivial (wrapIndex_moveByte_ok hring)
  | stop | count | wrap =>
      rw [settled_some (hs.sema.bind_eq hc (by rw [hpc]; trivial)), hpc] at hring
      simp only [run, hpc, Option.some.injEq] at h
      subst h
      exact ring_of_holds hsema rfl rfl trivial hring

/-- A statement keeps the invariant. -/
theorem run_keeps (hN : 0 < N) (hs : s.Ok N) (hc : s.tasks t = some c)
    (h : run N t c s = some s') : s'.Ok N := by
  rcases run_frame h with ⟨x, hf⟩
  rcases run_guarded hs.lock hs.sema hc h with ⟨hlock, hsema⟩
  rcases run_counted hs hc h with ⟨hcount, htasks⟩
  exact ⟨hlock, hsema, hcount, hf.inside hs.inside hc, htasks, hf.alone hc hs.alone,
    run_ring hN hs hsema hc h⟩

omit [DecidableEq ι] in
/-- The tasks inside are all there are. -/
theorem noneOn_iff (hs : s.Ok N) {f : φ} {p : Pc → Bool} :
    s.noneOn f p = true ↔ ∀ u cu, s.tasks u = some cu → cu.file = f → p cu.pc = true := by
  simp only [Sys.noneOn, decide_eq_true_eq]
  constructor
  · intro hnone u cu hu hfile
    have hp := hnone u (hs.inside u cu hu)
    simpa only [hu, Option.all_some, hfile, decide_true, true_implies, decide_eq_true_eq] using hp
  · intro hnone u _
    cases hu : s.tasks u with
    | none => rfl
    | some cu =>
        simp only [Option.all_some, decide_eq_true_eq]
        exact hnone u cu hu

omit [DecidableEq φ] in
/-- A task that comes inside, where only calls go together on one file. -/
theorem enter_ok (hs : s.Ok N) (hnone : s.tasks t = none) (hok : c.Ok s) (hlock : ¬ c.pc.Locked)
    (hsema : ¬ c.pc.Holds) (hon : ∀ u cu, s.tasks u = some cu → cu.file = c.file →
      c.pc.Transfers ∧ cu.pc.Transfers) : (s.enter t c).Ok N where
  lock := hs.lock.start hnone hlock
  sema := hs.sema.start hnone hsema
  useCount := hs.useCount
  inside := by
    intro u cu hu
    by_cases hut : u = t
    · exact Finset.mem_insert.mpr (.inl hut)
    · simp only [Sys.enter, Sys.put, Function.update_of_ne hut] at hu
      exact Finset.mem_insert_of_mem (hs.inside u cu hu)
  tasks := by
    intro u cu hu
    by_cases hut : u = t
    · simp only [hut, Sys.enter, Sys.put, Function.update_self, Option.some.injEq] at hu
      subst hu
      exact hok.congr rfl rfl
    · simp only [Sys.enter, Sys.put, Function.update_of_ne hut] at hu
      exact (hs.tasks u cu hu).congr rfl rfl
  alone := by
    intro v cv hv hadmin u cu hu hfile
    by_cases hvt : v = t
    · simp only [hvt, Sys.enter, Sys.put, Function.update_self, Option.some.injEq] at hv
      subst hv
      by_cases hut : u = t
      · rw [hut, hvt]
      · simp only [Sys.enter, Sys.put, Function.update_of_ne hut] at hu
        exact absurd (hon u cu hu hfile).1 hadmin
    · simp only [Sys.enter, Sys.put, Function.update_of_ne hvt] at hv
      by_cases hut : u = t
      · simp only [hut, Sys.enter, Sys.put, Function.update_self, Option.some.injEq] at hu
        subst hu
        exact absurd (hon v cv hv hfile.symm).2 hadmin
      · simp only [Sys.enter, Sys.put, Function.update_of_ne hut] at hu
        exact hs.alone v cv hv hadmin u cu hu hfile
  ring := by
    refine ring_congr hs.ring (holder_of_out hs.sema rfl rfl ?_) _ rfl
    intro c' hc'
    rw [hnone] at hc'
    exact absurd hc' (Option.some_ne_none c').symm

/-- Every step keeps the invariant. -/
theorem step_ok (hN : 0 < N) (l : Step ι φ) (hs : s.Ok N) (h : step N l s = some s') :
    s'.Ok N := by
  cases l with
  | openFile t f =>
      simp only [step, Option.ite_none_right_eq_some, Option.some.injEq,
        Option.isNone_iff_eq_none, noneOn_iff hs] at h
      rcases h with ⟨⟨hnone, hnew, hon⟩, rfl⟩
      refine enter_ok hs hnone ?_ id id ?_
      · exact ⟨(Or.elim · False.elim False.elim), fun _ => hnew, by simp, by simp, by simp⟩
      · exact fun u cu hu hfile => absurd (hon u cu hu hfile) Bool.false_ne_true
  | releaseFile t f =>
      simp only [step, Option.ite_none_right_eq_some, Option.some.injEq,
        Option.isNone_iff_eq_none, noneOn_iff hs] at h
      rcases h with ⟨⟨hnone, hopen, hon⟩, rfl⟩
      refine enter_ok hs hnone ?_ id id ?_
      · exact ⟨fun _ => hopen, False.elim, by simp, by simp, by simp⟩
      · exact fun u cu hu hfile => absurd (hon u cu hu hfile) Bool.false_ne_true
  | call t kind f len arg =>
      simp only [step, Option.ite_none_right_eq_some, Option.some.injEq,
        Option.isNone_iff_eq_none, noneOn_iff hs, decide_eq_true_eq] at h
      rcases h with ⟨⟨hnone, hopen, hon⟩, rfl⟩
      refine enter_ok hs hnone ?_ id id ?_
      · exact ⟨fun _ => hopen, False.elim, by simp, fun _ => ⟨rfl, rfl⟩, by simp⟩
      · exact fun u cu hu hfile => ⟨trivial, hon u cu hu hfile⟩
  | run t =>
      rcases Option.bind_eq_some_iff.mp h with ⟨c, hc, hrun⟩
      exact run_keeps hN hs hc hrun
  | downFails t =>
      rcases Option.bind_eq_some_iff.mp h with ⟨c, hc, hfail⟩
      simp only [Option.ite_none_right_eq_some, Option.some.injEq] at hfail
      rcases hfail with ⟨hpc, rfl⟩
      have hf : Frame t c s (s.put t (c.goto .returned)) (some (c.goto .returned)) := by
        refine ⟨rfl, fun c' hc' => ?_, fun h => absurd h (Option.some_ne_none _)⟩
        rw [← Option.some.inj hc']
        exact ⟨rfl, rfl, rfl, rfl, rfl, by rw [hpc]; exact Iff.rfl⟩
      have hok : (c.goto .returned).Ok s :=
        ⟨fun _ => (hs.tasks t c hc).present (.inl (by rw [hpc]; trivial)), False.elim,
          by simp [Task.goto], by simp [Task.goto], by simp [Task.goto]⟩
      refine ⟨hs.lock.stay hc (by rw [hpc]; exact Iff.rfl),
        hs.sema.stay hc (by rw [hpc]; exact Iff.rfl), hs.useCount, hf.inside hs.inside hc,
        hf.tasks_ok hs.tasks rfl rfl fun c' hc' => Option.some.inj hc' ▸ hok,
        hf.alone hc hs.alone, ring_congr hs.ring (holder_of_out hs.sema rfl rfl ?_) _ rfl⟩
      intro c' hc'
      rw [hc, Option.some.injEq] at hc'
      rw [← hc', hpc]
      exact id

omit [DecidableEq ι] [DecidableEq φ] in
theorem init_ok (hN : 0 < N) : (Sys.init : Sys ι φ).Ok N where
  lock := ⟨fun _ _ h => absurd h (by simp [Sys.init]), fun _ h => absurd h (by simp [Sys.init])⟩
  sema := ⟨fun _ _ h => absurd h (by simp [Sys.init]), fun _ h => absurd h (by simp [Sys.init])⟩
  useCount := rfl
  inside := fun _ _ h => absurd h (by simp [Sys.init])
  tasks := fun _ _ h => absurd h (by simp [Sys.init])
  alone := fun _ _ h => absurd h (by simp [Sys.init])
  ring := ⟨Int.le_refl 0, Int.natCast_pos.mpr hN, Int.le_refl 0, Int.natCast_pos.mpr hN⟩

theorem run_ok {h : History (Sys ι φ) (Step ι φ)} (hN : 0 < N)
    (hr : Run (step N) Sys.init h s) : s.Ok N :=
  hr.invariant (Sys.Ok N) (init_ok hN) fun _ l _ hs => step_ok hN l hs

end Steps

end Sections

end Poll

end KernelModules
