import KernelModules.Lib.Run
import KernelModules.Lib.Table
import KernelModules.Mmap.Area

/-!
# Opens at the Same Time

The loop of `test_mmap_open` over the pages of its area, one statement at a
time, with any number of calls in progress. The loop counts with `virt_addr`,
which is one variable for all calls, so that a call may find in it what
another one has left there. Then it looks up a page of the other area, or one
behind its own, or leaves the loop before its pages are reserved.

The counters of the other loops of the driver are local. A call is right as
long as the shared counter does for it what one of its own would: its tests
come out the same, and it reserves at the same addresses
(`run_marks_of_asOwn`). That is so when no two loops run at the same time
(`run_asOwn_of_exclusive`), and a call alone is the one of `Mmap.Driver`
(`alone_eq`).

## Main definitions

* `Areas`: The two areas.
* `Shared`, `Call`, `Sys`: The driver's data, a call in progress, and all.
* `stmt`, `step`: A statement of a call, and the steps.
* `Marks`: The pages of the areas are reserved, and nothing else is.
* `rounds`: The rounds a call has completed, by the history.
* `AsOwn`: The condition on a step.
* `Exclusive`: No two loops at the same time.

## Theorems

* `step_tracked`: What a call has reserved, by its place and its rounds.
* `run_marks_of_asOwn`: When the pages are reserved.
* `run_asOwn_of_exclusive`: When the counter is shared in turns.
* `alone_eq`: A call alone.
* `run_lost_area`: Two calls that leave an area without a reserved page.
-/

namespace KernelModules

namespace Mmap

namespace Opens

open Kernel Lib

variable {π τ : Type*}

/-- The two areas, of two pages each, apart and inside the address space. -/
structure Areas (π : Type*) where
  machine : Machine π
  kmallocArea : BitVec 64
  vmallocPtr : BitVec 64
  kmalloc_fits : kmallocArea.toNat + 2 * machine.pageSize < 2 ^ 64
  vmalloc_fits : vmallocPtr.toNat + 2 * machine.pageSize < 2 ^ 64
  apart : kmallocArea.toNat + 2 * machine.pageSize ≤ vmallocPtr.toNat ∨
    vmallocPtr.toNat + 2 * machine.pageSize ≤ kmallocArea.toNat

/-- `PAGE_SIZE`. -/
def Areas.pageSize (A : Areas π) : Nat := A.machine.pageSize

/-- `alloc_area` of a call for this minor. -/
def Areas.area (A : Areas π) (minor : Nat) : BitVec 64 :=
  if minor = MINOR_NUMBER_0 then A.kmallocArea else A.vmallocPtr

/-- `alloc_area + 2 * PAGE_SIZE`. -/
def Areas.stop (A : Areas π) (minor : Nat) : BitVec 64 :=
  A.area minor + 2 * BitVec.ofNat 64 A.pageSize

/-- The address and the page structure of page `i` of an area. -/
def Areas.addr (A : Areas π) (minor i : Nat) : BitVec 64 :=
  A.area minor + BitVec.ofNat 64 (i * A.pageSize)
def Areas.page (A : Areas π) (minor i : Nat) : π :=
  toPage A.machine minor (A.addr minor i).toNat

/-- An address of an area. -/
def Areas.Has (A : Areas π) (minor : Nat) (a : BitVec 64) : Prop :=
  (A.area minor).toNat ≤ a.toNat ∧ a.toNat < (A.area minor).toNat + 2 * A.pageSize

/-- An address that was looked up for `SetPageReserved`, and by whose minor:
    with `virt_to_page` for minor 0, with `vmalloc_to_page` otherwise. -/
structure Lookup where
  minor : Nat
  addr : BitVec 64
  deriving DecidableEq

/-- What all calls work on. -/
structure Shared (π : Type*) where
  virtAddr : BitVec 64
  reserved : π → Bool
  lookups : List Lookup

/-- The next statement of a call. -/
inductive Pc where
  | init
  | compare
  | reserve
  | advance
  | returned
  deriving DecidableEq

structure Call where
  minor : Nat
  pc : Pc
  deriving DecidableEq

structure Sys (π τ : Type*) where
  shared : Shared π
  calls : τ → Option Call

/-- The driver before the calls, with any page flags and anything in
    `virt_addr`. -/
def Sys.init (virtAddr : BitVec 64) (reserved : π → Bool) : Sys π τ :=
  { shared := { virtAddr := virtAddr, reserved := reserved, lookups := [] }
    calls := fun _ => none }

inductive Step (τ : Type*) where
  | enter (t : τ) (minor : Nat)
  | run (t : τ)
  deriving DecidableEq

/-- The next statement of a call. The fill is behind the loop, and does not
    look at `virt_addr`. -/
def stmt [DecidableEq π] (A : Areas π) (c : Call) (s : Shared π) : Option (Shared π × Pc) :=
  match c.pc with
  | .init => some ({ s with virtAddr := A.area c.minor }, .compare)
  | .compare => some (s, if s.virtAddr < A.stop c.minor then .reserve else .returned)
  | .reserve =>
    some ({ s with
      reserved := Function.update s.reserved (toPage A.machine c.minor s.virtAddr.toNat) true
      lookups := { minor := c.minor, addr := s.virtAddr } :: s.lookups }, .advance)
  | .advance =>
    some ({ s with virtAddr := s.virtAddr + BitVec.ofNat 64 A.pageSize }, .compare)
  | .returned => none

/-- A call for another minor returns at once. -/
def step [DecidableEq π] [DecidableEq τ] (A : Areas π) : Step τ → Sys π τ → Option (Sys π τ)
  | .enter t minor, s =>
    match s.calls t with
    | some _ => none
    | none =>
      let pc := if Supported minor then .init else .returned
      some { s with calls := Function.update s.calls t (some { minor := minor, pc := pc }) }
  | .run t, s =>
    match s.calls t with
    | none => none
    | some c => (stmt A c s.shared).map fun r =>
      { shared := r.1, calls := Function.update s.calls t (some { c with pc := r.2 }) }

/-- Every call has returned. -/
def Returned (s : Sys π τ) : Prop := ∀ t, ∀ c ∈ s.calls t, c.pc = .returned

/-- The pages of every area that was opened are reserved, no page outside the
    two areas was looked up, and none of an area with the function for the
    other. -/
structure Marks (A : Areas π) (s : Sys π τ) : Prop where
  complete : ∀ t, ∀ c ∈ s.calls t, Supported c.minor →
    ∀ i < 2, s.shared.reserved (A.page c.minor i) = true
  inside : ∀ q ∈ s.shared.lookups, ∃ m, Supported m ∧ A.Has m q.addr
  translated : ∀ q ∈ s.shared.lookups, ∀ m, Supported m → A.Has m q.addr → q.minor = m

section Conditions

variable [DecidableEq τ]

/-- The rounds of its loop that a call has completed. -/
def rounds (t : τ) : History (Sys π τ) (Step τ) → Nat
  | [] => 0
  | (s, .run u) :: h =>
    if u = t ∧ (s.calls t).map Call.pc = some .advance then rounds t h + 1 else rounds t h
  | (_, .enter _ _) :: h => rounds t h

/-- Every test of a call comes out as it would with a counter of the call's
    own, and the call reserves where that counter would be. -/
def AsOwn (A : Areas π) (h : History (Sys π τ) (Step τ)) (s : Sys π τ) : Step τ → Prop
  | .run t => ∀ c ∈ s.calls t,
    (c.pc = .compare → (s.shared.virtAddr < A.stop c.minor ↔ rounds t h < 2)) ∧
      (c.pc = .reserve → s.shared.virtAddr = A.addr c.minor (rounds t h))
  | .enter _ _ => True

/-- A call in its loop, which relies on what it has left in `virt_addr`. -/
def Call.InLoop (c : Call) : Prop := c.pc = .compare ∨ c.pc = .reserve ∨ c.pc = .advance

/-- A call writes to `virt_addr` while no other call is in its loop. -/
def Exclusive (_ : History (Sys π τ) (Step τ)) (s : Sys π τ) : Step τ → Prop
  | .run t => ∀ c ∈ s.calls t, c.pc = .init ∨ c.pc = .advance →
    ∀ u ≠ t, ∀ c' ∈ s.calls u, ¬ c'.InLoop
  | .enter _ _ => True

instance (A : Areas π) (h : History (Sys π τ) (Step τ)) (s : Sys π τ) :
    (l : Step τ) → Decidable (AsOwn A h s l)
  | .run t => Option.decidableForallMem (s.calls t)
  | .enter _ _ => .isTrue trivial

end Conditions

section Areas

variable {A : Areas π} {m m' i : Nat} {a : BitVec 64}

theorem Areas.fits (A : Areas π) (m : Nat) : (A.area m).toNat + 2 * A.pageSize < 2 ^ 64 := by
  unfold Areas.area
  split
  · exact A.kmalloc_fits
  · exact A.vmalloc_fits

theorem Areas.toNat_stop (A : Areas π) (m : Nat) :
    (A.stop m).toNat = (A.area m).toNat + 2 * A.pageSize :=
  toNat_areaEnd (A.fits m)

theorem Areas.toNat_addr (A : Areas π) (m : Nat) (hi : i ≤ 2) :
    (A.addr m i).toNat = (A.area m).toNat + i * A.pageSize := by
  have hfits := A.fits m
  have hle : i * A.pageSize ≤ 2 * A.pageSize := Nat.mul_le_mul_right _ hi
  rw [Areas.addr, BitVec.toNat_add, BitVec.toNat_ofNat]
  omega

/-- A counter is below the end of the area in its first two rounds. -/
theorem Areas.addr_lt_stop (A : Areas π) (m : Nat) (hi : i ≤ 2) :
    A.addr m i < A.stop m ↔ i < 2 := by
  have hpos : 0 < A.pageSize := A.machine.pageSize_pos
  rw [BitVec.lt_def, A.toNat_addr m hi, A.toNat_stop m, Nat.add_lt_add_iff_left,
    Nat.mul_lt_mul_right hpos]

theorem Areas.addr_has (A : Areas π) (m : Nat) (hi : i < 2) : A.Has m (A.addr m i) := by
  have hlt := (A.addr_lt_stop m (Nat.le_of_lt hi)).mpr hi
  rw [BitVec.lt_def, A.toNat_stop m] at hlt
  refine ⟨?_, hlt⟩
  rw [A.toNat_addr m (Nat.le_of_lt hi)]
  exact Nat.le_add_right _ _

theorem Areas.addr_succ (A : Areas π) (m i : Nat) :
    A.addr m i + BitVec.ofNat 64 A.pageSize = A.addr m (i + 1) := by
  rw [Areas.addr, Areas.addr, BitVec.add_assoc, ← BitVec.ofNat_add, Nat.succ_mul]

theorem Areas.addr_zero (A : Areas π) (m : Nat) : A.addr m 0 = A.area m := by
  rw [Areas.addr, Nat.zero_mul, BitVec.add_zero]

/-- No address is in both areas. -/
theorem Areas.has_unique (hm : Supported m) (hm' : Supported m') (ha : A.Has m a)
    (ha' : A.Has m' a) : m = m' := by
  have hapart := A.apart
  have hsize : A.machine.pageSize = A.pageSize := rfl
  rcases hm with rfl | rfl <;> rcases hm' with rfl | rfl
  · rfl
  · have h0 : A.area MINOR_NUMBER_0 = A.kmallocArea := rfl
    have h1 : A.area MINOR_NUMBER_1 = A.vmallocPtr := rfl
    rw [Areas.Has, h0] at ha
    rw [Areas.Has, h1] at ha'
    omega
  · have h0 : A.area MINOR_NUMBER_0 = A.kmallocArea := rfl
    have h1 : A.area MINOR_NUMBER_1 = A.vmallocPtr := rfl
    rw [Areas.Has, h1] at ha
    rw [Areas.Has, h0] at ha'
    omega
  · rfl

end Areas

/-- How many pages of its area a call has reserved, by its place and the rounds
    it has completed. -/
def Pc.done (n : Nat) : Pc → Nat
  | .init => 0
  | .compare | .reserve => n
  | .advance => n + 1
  | .returned => 2

/-- The rounds that a call at a place may have completed. -/
def Pc.Fits (n : Nat) : Pc → Prop
  | .init => n = 0
  | .compare => n ≤ 2
  | .reserve | .advance => n < 2
  | .returned => True

/-- The rounds completed after the statement at a place. -/
def Pc.after (n : Nat) (pc : Pc) : Nat := if pc = .advance then n + 1 else n

section Statements

variable [DecidableEq π] {A : Areas π} {c : Call} {sh sh' : Shared π} {pc' : Pc} {n : Nat}

/-- A page that is reserved stays so when a page is reserved. -/
theorem reserved_update {reserved : π → Bool} {p : π} (q : π) (hp : reserved p = true) :
    Function.update reserved q true p = true := by
  by_cases hsame : p = q
  · rw [hsame, Function.update_self]
  · rw [Function.update_of_ne hsame]
    exact hp

/-- No statement takes a reserved page back. -/
theorem stmt_reserved {p : π} (hs : stmt A c sh = some (sh', pc')) (hp : sh.reserved p = true) :
    sh'.reserved p = true := by
  cases hpc : c.pc <;>
    simp only [stmt, hpc, Option.some.injEq, Prod.mk.injEq, reduceCtorEq] at hs <;>
    rcases hs with ⟨rfl, rfl⟩
  case reserve => exact reserved_update _ hp
  all_goals exact hp

/-- A statement of a call whose counter is as one of its own would be leaves
    the call with its pages reserved, and looks up a page of its area if any. -/
theorem stmt_tracked (hs : stmt A c sh = some (sh', pc')) (hfits : c.pc.Fits n)
    (hdone : ∀ i < c.pc.done n, sh.reserved (A.page c.minor i) = true)
    (hcompare : c.pc = .compare → (sh.virtAddr < A.stop c.minor ↔ n < 2))
    (hreserve : c.pc = .reserve → sh.virtAddr = A.addr c.minor n) :
    pc'.Fits (c.pc.after n) ∧
      (∀ i < pc'.done (c.pc.after n), sh'.reserved (A.page c.minor i) = true) ∧
      ∀ q ∈ sh'.lookups, q ∈ sh.lookups ∨ (q.minor = c.minor ∧ A.Has c.minor q.addr) := by
  cases hpc : c.pc <;> rw [hpc] at hfits hdone <;>
    simp only [stmt, hpc, Option.some.injEq, Prod.mk.injEq, reduceCtorEq] at hs <;>
    rcases hs with ⟨rfl, rfl⟩
  case init =>
    -- No round yet, so there is nothing to be reserved.
    rw [show n = 0 from hfits]
    exact ⟨Nat.zero_le 2, fun i hi => absurd hi (Nat.not_lt_zero i), fun q hq => .inl hq⟩
  case compare =>
    by_cases hlt : sh.virtAddr < A.stop c.minor
    · rw [if_pos hlt]
      exact ⟨(hcompare hpc).mp hlt, hdone, fun q hq => .inl hq⟩
    · -- The loop is left after both rounds.
      have htwo : n = 2 := by
        have hle : n ≤ 2 := hfits
        have hnot := mt (hcompare hpc).mpr hlt
        omega
      rw [if_neg hlt]
      rw [htwo] at hdone
      exact ⟨trivial, hdone, fun q hq => .inl hq⟩
  case reserve =>
    have hat := hreserve hpc
    refine ⟨hfits, ?_, ?_⟩
    · intro i hi
      by_cases hlast : i = n
      · simp only [hat, hlast]
        exact Function.update_self _ _ _
      · have hbefore : i < n := by
          have hle : i < n + 1 := hi
          omega
        exact reserved_update _ (hdone i hbefore)
    · intro q hq
      rcases List.mem_cons.mp hq with rfl | hq
      · exact .inr ⟨rfl, by rw [hat]; exact A.addr_has c.minor hfits⟩
      · exact .inl hq
  case advance =>
    exact ⟨hfits, hdone, fun q hq => .inl hq⟩

/-- Only two of the statements write to the counter. -/
theorem stmt_virtAddr_same (hs : stmt A c sh = some (sh', pc')) (hinit : c.pc ≠ .init)
    (hadvance : c.pc ≠ .advance) : sh'.virtAddr = sh.virtAddr := by
  cases hpc : c.pc <;>
    simp only [stmt, hpc, Option.some.injEq, Prod.mk.injEq, reduceCtorEq] at hs <;>
    rcases hs with ⟨rfl, rfl⟩
  case init => exact absurd hpc hinit
  case advance => exact absurd hpc hadvance
  all_goals rfl

/-- A call that finds its own counter leaves its own counter. -/
theorem stmt_virtAddr (hs : stmt A c sh = some (sh', pc')) (hfits : c.pc.Fits n)
    (hheld : c.InLoop → sh.virtAddr = A.addr c.minor n) (hpc' : pc' ≠ .returned) :
    sh'.virtAddr = A.addr c.minor (c.pc.after n) := by
  cases hpc : c.pc <;> rw [hpc] at hfits <;>
    simp only [stmt, hpc, Option.some.injEq, Prod.mk.injEq, reduceCtorEq] at hs <;>
    rcases hs with ⟨rfl, rfl⟩
  case init =>
    rw [show n = 0 from hfits]
    exact (A.addr_zero c.minor).symm
  case compare => exact hheld (.inl hpc)
  case reserve => exact hheld (.inr (.inl hpc))
  case advance =>
    simp only [hheld (.inr (.inr hpc))]
    exact A.addr_succ c.minor n

end Statements

section Tracked

variable [DecidableEq τ] {A : Areas π} {virtAddr : BitVec 64} {reserved : π → Bool}
  {s : Sys π τ} {h : History (Sys π τ) (Step τ)} {t u : τ} {c : Call}

/-- The rounds after a statement: the one that advances completes one. -/
theorem rounds_run_self (hc : c ∈ s.calls t) :
    rounds t ((s, .run t) :: h) = c.pc.after (rounds t h) := by
  simp only [rounds, Option.mem_def.mp hc, Option.map_some, Option.some.injEq, true_and, Pc.after]

theorem rounds_run_of_ne (hne : u ≠ t) : rounds u ((s, .run t) :: h) = rounds u h := by
  rw [rounds, if_neg fun hand => hne hand.1.symm]

/-- What the history says of the calls: how far each of them is, and which
    pages it has reserved. -/
structure Tracked (A : Areas π) (h : History (Sys π τ) (Step τ)) (s : Sys π τ) : Prop where
  fresh : ∀ t, s.calls t = none → rounds t h = 0
  fits : ∀ t, ∀ c ∈ s.calls t, c.pc.Fits (rounds t h)
  supported : ∀ t, ∀ c ∈ s.calls t, c.pc ≠ .returned → Supported c.minor
  done : ∀ t, ∀ c ∈ s.calls t, Supported c.minor →
    ∀ i < c.pc.done (rounds t h), s.shared.reserved (A.page c.minor i) = true
  lookups : ∀ q ∈ s.shared.lookups, Supported q.minor ∧ A.Has q.minor q.addr

theorem init_tracked : Tracked A [] (Sys.init virtAddr reserved : Sys π τ) where
  fresh := fun _ _ => rfl
  fits := fun _ _ hc => by simp only [Sys.init, Option.mem_def, reduceCtorEq] at hc
  supported := fun _ _ hc => by simp only [Sys.init, Option.mem_def, reduceCtorEq] at hc
  done := fun _ _ hc => by simp only [Sys.init, Option.mem_def, reduceCtorEq] at hc
  lookups := fun _ hq => absurd hq List.not_mem_nil

/-- A call that has returned has reserved its pages. -/
theorem marks_of_tracked (ht : Tracked A h s) (hret : Returned s) : Marks A s := by
  refine ⟨?_, ?_, ?_⟩
  · intro t c hc hm i hi
    refine ht.done t c hc hm i ?_
    rw [hret t c hc]
    exact hi
  · intro q hq
    exact ⟨q.minor, ht.lookups q hq⟩
  · intro q hq m hm hhas
    rcases ht.lookups q hq with ⟨hm', hhas'⟩
    exact A.has_unique hm' hm hhas' hhas

/-- A call in its loop finds in the counter what it has left there. -/
def Held (A : Areas π) (h : History (Sys π τ) (Step τ)) (s : Sys π τ) : Prop :=
  ∀ t, ∀ c ∈ s.calls t, c.InLoop → s.shared.virtAddr = A.addr c.minor (rounds t h)

theorem asOwn_of_held {l : Step τ} (ht : Tracked A h s) (hheld : Held A h s) : AsOwn A h s l := by
  cases l with
  | enter t minor => trivial
  | run t =>
      intro c hc
      refine ⟨fun hpc => ?_, fun hpc => hheld t c hc (.inr (.inl hpc))⟩
      have hfits := ht.fits t c hc
      rw [hpc] at hfits
      rw [hheld t c hc (.inl hpc)]
      exact A.addr_lt_stop c.minor hfits

end Tracked

section Runs

variable [DecidableEq π] [DecidableEq τ] {A : Areas π} {virtAddr : BitVec 64}
  {reserved : π → Bool} {s s' : Sys π τ} {h : History (Sys π τ) (Step τ)} {l : Step τ} {t u : τ}
  {c : Call}

theorem step_enter {minor : Nat} (hstep : step A (.enter t minor) s = some s') :
    s.calls t = none ∧ s' = { s with
      calls := Function.update s.calls t
        (some { minor := minor, pc := if Supported minor then .init else .returned }) } := by
  simp only [step] at hstep
  split at hstep
  · simp only [reduceCtorEq] at hstep
  · rename_i hnone
    rw [Option.some.injEq] at hstep
    exact ⟨hnone, hstep.symm⟩

theorem step_run (hstep : step A (.run t) s = some s') : ∃ c ∈ s.calls t, ∃ sh pc,
    stmt A c s.shared = some (sh, pc) ∧
      s' = { shared := sh, calls := Function.update s.calls t (some { c with pc := pc }) } := by
  simp only [step] at hstep
  split at hstep
  · simp only [reduceCtorEq] at hstep
  · rename_i c hc
    rcases Option.map_eq_some_iff.mp hstep with ⟨⟨sh, pc⟩, hstmt, rfl⟩
    exact ⟨c, hc, sh, pc, hstmt, rfl⟩

/-- A call that has returned has nothing to execute. -/
theorem not_returned_of_stmt {sh sh' : Shared π} {pc : Pc} (hs : stmt A c sh = some (sh', pc)) :
    c.pc ≠ .returned := by
  intro hpc
  simp only [stmt, hpc, reduceCtorEq] at hs

theorem enter_tracked {minor : Nat} (ht : Tracked A h s)
    (hstep : step A (.enter t minor) s = some s') : Tracked A ((s, .enter t minor) :: h) s' := by
  rcases step_enter hstep with ⟨hnone, rfl⟩
  have hzero := ht.fresh t hnone
  refine ⟨?_, ?_, ?_, ?_, ht.lookups⟩
  · intro u hu
    exact ht.fresh u (Table.update_eq_none_iff.mp hu).2
  · intro u c hc
    rcases Table.update_some_iff.mp hc with ⟨rfl, rfl⟩ | ⟨-, hc⟩
    · simp only [rounds, hzero]
      split
      · rfl
      · trivial
    · exact ht.fits u c hc
  · intro u c hc hpc
    rcases Table.update_some_iff.mp hc with ⟨rfl, rfl⟩ | ⟨-, hc⟩
    · by_contra hm
      simp only [if_neg hm, ne_eq, not_true_eq_false] at hpc
    · exact ht.supported u c hc hpc
  · intro u c hc hm i hi
    rcases Table.update_some_iff.mp hc with ⟨rfl, rfl⟩ | ⟨-, hc⟩
    · simp only [if_pos hm, Pc.done] at hi
      exact absurd hi (Nat.not_lt_zero i)
    · exact ht.done u c hc hm i hi

theorem run_tracked (ht : Tracked A h s) (hown : AsOwn A h s (.run t))
    (hstep : step A (.run t) s = some s') : Tracked A ((s, .run t) :: h) s' := by
  rcases step_run hstep with ⟨c, hc, sh, pc, hstmt, rfl⟩
  -- A statement is executed, so the call has not returned.
  have hm := ht.supported t c hc (not_returned_of_stmt hstmt)
  rcases stmt_tracked hstmt (ht.fits t c hc) (ht.done t c hc hm) (hown c hc).1 (hown c hc).2
    with ⟨hfits, hdone, hlookups⟩
  refine ⟨?_, ?_, ?_, ?_, ?_⟩
  · intro u hu
    rcases Table.update_eq_none_iff.mp hu with ⟨hne, hnone⟩
    rw [rounds_run_of_ne hne]
    exact ht.fresh u hnone
  · intro u c' hc'
    rcases Table.update_some_iff.mp hc' with ⟨rfl, rfl⟩ | ⟨hne, hc'⟩
    · rw [rounds_run_self hc]
      exact hfits
    · rw [rounds_run_of_ne hne]
      exact ht.fits u c' hc'
  · intro u c' hc' hpc
    rcases Table.update_some_iff.mp hc' with ⟨rfl, rfl⟩ | ⟨-, hc'⟩
    · exact hm
    · exact ht.supported u c' hc' hpc
  · intro u c' hc' hm' i hi
    rcases Table.update_some_iff.mp hc' with ⟨rfl, rfl⟩ | ⟨hne, hc'⟩
    · rw [rounds_run_self hc] at hi
      exact hdone i hi
    · -- What another call has reserved stays so.
      rw [rounds_run_of_ne hne] at hi
      exact stmt_reserved hstmt (ht.done u c' hc' hm' i hi)
  · intro q hq
    rcases hlookups q hq with hq | ⟨hminor, hhas⟩
    · exact ht.lookups q hq
    · rw [hminor]
      exact ⟨hm, hhas⟩

theorem step_tracked (ht : Tracked A h s) (hown : AsOwn A h s l) (hstep : step A l s = some s') :
    Tracked A ((s, l) :: h) s' := by
  cases l with
  | enter t minor => exact enter_tracked ht hstep
  | run t => exact run_tracked ht hown hstep

/-- When all calls have returned the pages of the opened areas are reserved,
    and nothing else was looked up, in every run in which the shared counter
    does for each call what one of its own would. -/
theorem run_marks_of_asOwn (hr : Run (step A) (Sys.init virtAddr reserved) h s)
    (hown : EveryStep (AsOwn A) h) : EveryState (fun s => Returned s → Marks A s) h s := by
  have hlast : ∀ h (s : Sys π τ), Run (step A) (Sys.init virtAddr reserved) h s →
      EveryStep (AsOwn A) h → Returned s → Marks A s := by
    intro h s hr hown hret
    refine marks_of_tracked (hr.invariantUnder (Tracked A) init_tracked ?_ hown) hret
    intro h s l s' _ hown ht hstep
    exact step_tracked ht hown hstep
  -- The steps before a state meet the condition as well, so the last state's
  -- case serves for all of them.
  induction hr with
  | start =>
      rw [everyState_nil]
      exact hlast _ _ .start hown
  | next l hr hstep ih =>
      rw [everyState_cons]
      exact ⟨hlast _ _ (.next l hr hstep) hown, ih hown.2⟩

/-- A step keeps the counter for the calls that rely on it, if no two of them
    do. -/
theorem step_held (ht : Tracked A h s) (hheld : Held A h s) (hexcl : Exclusive h s l)
    (hstep : step A l s = some s') : Held A ((s, l) :: h) s' := by
  cases l with
  | enter t minor =>
      rcases step_enter hstep with ⟨-, rfl⟩
      intro u c hc hloop
      rcases Table.update_some_iff.mp hc with ⟨rfl, rfl⟩ | ⟨-, hc⟩
      · -- A call that has just begun is at its first statement or has returned.
        exfalso
        simp only [Call.InLoop] at hloop
        split at hloop <;> simp only [reduceCtorEq, or_self] at hloop
      · exact hheld u c hc hloop
  | run t =>
      rcases step_run hstep with ⟨c, hc, sh, pc, hstmt, rfl⟩
      intro u c' hc' hloop
      rcases Table.update_some_iff.mp hc' with ⟨rfl, rfl⟩ | ⟨hne, hc'⟩
      · have hpc : pc ≠ .returned := by
          rintro rfl
          simp only [Call.InLoop, reduceCtorEq, or_self] at hloop
        rw [rounds_run_self hc]
        simp only
        exact stmt_virtAddr hstmt (ht.fits u c hc) (hheld u c hc) hpc
      -- Another call is in its loop, so this statement does not write.
      · rw [rounds_run_of_ne hne]
        by_cases hwrites : c.pc = .init ∨ c.pc = .advance
        · exact absurd hloop (hexcl c hc hwrites u hne c' hc')
        · rcases not_or.mp hwrites with ⟨hinit, hadvance⟩
          simp only [stmt_virtAddr_same hstmt hinit hadvance]
          exact hheld u c' hc' hloop

/-- Loops that do not run at the same time do not disturb each other. -/
theorem run_asOwn_of_exclusive (hr : Run (step A) (Sys.init virtAddr reserved) h s)
    (hexcl : EveryStep Exclusive h) : EveryStep (AsOwn A) h := by
  -- Both conditions at once: the next step needs the first one, and the
  -- invariant needs both.
  have hboth : EveryStep (fun h s l => Exclusive h s l ∧ AsOwn A h s l) h := by
    refine (hr.everyStep_iff_under (fun h s => Tracked A h s ∧ Held A h s) ⟨init_tracked, ?_⟩
      ?_).mp hexcl
    · intro t c hc
      simp only [Sys.init, Option.mem_def, reduceCtorEq] at hc
    · rintro h s l s' _ ⟨ht, hheld⟩ hstep
      have hown : AsOwn A h s l := asOwn_of_held ht hheld
      exact ⟨(and_iff_left hown).symm, fun hexcl =>
        ⟨step_tracked ht hown hstep, step_held ht hheld hexcl hstep⟩⟩
  exact ((everyStep_and _ _ h).mp hboth).2

end Runs

section Alone

variable [DecidableEq π] [DecidableEq τ] {A : Areas π} {init : Sys π τ} {calls : τ → Option Call}
  {t : τ} {m : Nat} {sh sh' : Shared π} {pc pc' : Pc}

/-- The system with one call at a statement. -/
def alone (calls : τ → Option Call) (t : τ) (m : Nat) (sh : Shared π) (pc : Pc) : Sys π τ :=
  { shared := sh, calls := Function.update calls t (some { minor := m, pc := pc }) }

/-- The call can execute its next statement. -/
theorem alone_stmt (hr : ∃ h, Run (step A) init h (alone calls t m sh pc))
    (hstmt : stmt A { minor := m, pc := pc } sh = some (sh', pc')) :
    ∃ h, Run (step A) init h (alone calls t m sh' pc') := by
  rcases hr with ⟨h, hr⟩
  refine ⟨_, .next (.run t) hr ?_⟩
  simp only [step, alone, Function.update_self, hstmt, Option.map_some, Function.update_idem]

/-- A round of a loop whose counter nobody else writes to. -/
theorem alone_round {i : Nat} (hi : i < 2) {reserved : π → Bool} {lookups : List Lookup}
    (hr : ∃ h, Run (step A) init h (alone calls t m
      { virtAddr := A.addr m i, reserved := reserved, lookups := lookups } .compare)) :
    ∃ h, Run (step A) init h (alone calls t m
      { virtAddr := A.addr m (i + 1), reserved := Function.update reserved (A.page m i) true,
        lookups := { minor := m, addr := A.addr m i } :: lookups } .compare) := by
  have htest : A.addr m i < A.stop m := (A.addr_lt_stop m (Nat.le_of_lt hi)).mpr hi
  have hcompare : ∃ h, Run (step A) init h (alone calls t m
      { virtAddr := A.addr m i, reserved := reserved, lookups := lookups } .reserve) :=
    alone_stmt hr (by simp only [stmt, if_pos htest])
  have hreserve : ∃ h, Run (step A) init h (alone calls t m
      { virtAddr := A.addr m i, reserved := Function.update reserved (A.page m i) true,
        lookups := { minor := m, addr := A.addr m i } :: lookups } .advance) :=
    alone_stmt hcompare rfl
  exact alone_stmt hreserve (by simp only [stmt, A.addr_succ])

/-- What the loop of a call alone leaves. -/
def Areas.walked (A : Areas π) (m : Nat) (reserved : π → Bool) : Shared π :=
  { virtAddr := A.addr m 2
    reserved :=
      Function.update (Function.update reserved (A.page m 0) true) (A.page m 1) true
    lookups := [{ minor := m, addr := A.addr m 1 }, { minor := m, addr := A.addr m 0 }] }

theorem alone_returns (A : Areas π) (t : τ) (hm : Supported m) (virtAddr : BitVec 64)
    (reserved : π → Bool) : ∃ h, Run (step A) (Sys.init virtAddr reserved) h
      (alone (fun _ : τ => none) t m (A.walked m reserved) .returned) := by
  have henter : ∃ h, Run (step A) (Sys.init virtAddr reserved) h
      (alone (fun _ : τ => none) t m
        { virtAddr := virtAddr, reserved := reserved, lookups := [] } .init) := by
    refine ⟨_, .next (.enter t m) .start ?_⟩
    simp only [step, Sys.init, if_pos hm, alone]
  have hinit : ∃ h, Run (step A) (Sys.init virtAddr reserved) h
      (alone (fun _ : τ => none) t m
        { virtAddr := A.addr m 0, reserved := reserved, lookups := [] } .compare) :=
    alone_stmt henter (by simp only [stmt, A.addr_zero])
  -- After two rounds the counter is the end of the area.
  have hend : ¬ A.addr m 2 < A.stop m := fun hlt =>
    absurd ((A.addr_lt_stop m (Nat.le_refl 2)).mp hlt) (Nat.lt_irrefl 2)
  exact alone_stmt (alone_round Nat.one_lt_two (alone_round Nat.zero_lt_two hinit))
    (by simp only [stmt, if_neg hend, Areas.walked])

/-- A call alone does what the open of the driver does. -/
theorem alone_eq (A : Areas π) (t : τ) (hm : Supported m) (virtAddr : BitVec 64) {d : Driver π}
    (hd : d.area m = (A.area m).toNat) :
    ∃ h s, Run (step A) (Sys.init virtAddr d.reserved : Sys π τ) h s ∧
      s.calls t = some { minor := m, pc := .returned } ∧
      s.shared.virtAddr.toNat = (testMmapOpen A.machine m d).2.virtAddr ∧
      s.shared.reserved = (testMmapOpen A.machine m d).2.reserved := by
  rcases alone_returns A t hm virtAddr d.reserved with ⟨h, hr⟩
  have hsize : A.machine.pageSize = A.pageSize := rfl
  refine ⟨h, _, hr, ?_, ?_, ?_⟩
  · simp only [alone, Function.update_self]
  · simp only [alone, Areas.walked, testMmapOpen, select_supported hm, markPages_eq, hd, hsize,
      A.toNat_addr m (Nat.le_refl 2)]
  · simp only [alone, Areas.walked, testMmapOpen, select_supported hm, markPages_eq, hd, hsize,
      Areas.page, A.toNat_addr m (Nat.zero_le 2), A.toNat_addr m (show 1 ≤ 2 by decide),
      Nat.zero_mul, Nat.add_zero, Nat.one_mul]

end Alone

section Examples

/-- Two areas on a machine whose page structures are numbers. -/
def twoAreas : Areas Nat where
  machine :=
    { pageShift := 12
      virtToPhys := fun v => v - 0xFFFF888000000000
      virtToPage := fun v => (v - 0xFFFF888000000000) / 4096
      vmallocToPage := fun v => if v = 0xFFFFC90000000000 then 7 else 9
      vmallocToPfn := fun v => if v = 0xFFFFC90000000000 then 7 else 9
      remapPfnRange := fun _ _ => 0 }
  kmallocArea := 0xFFFF888000002000
  vmallocPtr := 0xFFFFC90000000000
  kmalloc_fits := by decide
  vmalloc_fits := by decide
  apart := by decide

theorem returned_of_pair {s : Sys Nat Bool}
    (hcalls : s.calls false = some { minor := 0, pc := .returned } ∧
      s.calls true = some { minor := 1, pc := .returned }) : Returned s := by
  intro t c hc
  cases t with
  | false =>
      rw [hcalls.1, Option.mem_some_iff] at hc
      rw [← hc]
  | true =>
      rw [hcalls.2, Option.mem_some_iff] at hc
      rw [← hc]

/-- The second call begins its loop before the last test of the first one. -/
theorem run_marks_overlapping : ∃ h s,
    Run (step twoAreas) (Sys.init 0 fun _ => false : Sys Nat Bool) h s ∧ Returned s ∧
      s.shared.lookups.length = 4 ∧ EveryState (fun s => Returned s → Marks twoAreas s) h s := by
  rcases exists_run_of_exec (step twoAreas) (Sys.init 0 fun _ => false)
    ([.enter false 0, .enter true 1, .run false, .run false, .run false, .run false, .run false,
      .run false, .run false, .run true, .run false, .run true, .run true, .run true, .run true,
      .run true, .run true, .run true] : List (Step Bool))
    (fun h s => EveryStep (AsOwn twoAreas) h ∧ s.shared.lookups.length = 4 ∧
      s.calls false = some { minor := 0, pc := .returned } ∧
      s.calls true = some { minor := 1, pc := .returned })
    (by decide +kernel) with ⟨h, s, hr, hp⟩
  rcases of_decide_eq_true hp with ⟨hown, hlookups, hcalls⟩
  exact ⟨h, s, hr, returned_of_pair hcalls, hlookups, run_marks_of_asOwn hr hown⟩

/-- The second call begins its loop between the test and the reservation of the
    first. The first looks up a page of the other area with its own function
    and leaves its loop, and when both have returned no page of its area is
    reserved. -/
theorem run_lost_area : ∃ h s,
    Run (step twoAreas) (Sys.init 0 fun _ => false : Sys Nat Bool) h s ∧ Returned s ∧
      s.shared.lookups = [{ minor := 1, addr := 0xFFFFC90000001000 },
        { minor := 0, addr := 0xFFFFC90000000000 }] ∧
      s.shared.reserved (twoAreas.page 0 0) = false ∧ ¬ Marks twoAreas s := by
  rcases exists_run_of_exec (step twoAreas) (Sys.init 0 fun _ => false)
    ([.enter false 0, .enter true 1, .run false, .run false, .run true, .run false, .run false,
      .run false, .run true, .run true, .run true, .run true] : List (Step Bool))
    (fun _ s => (s.shared.lookups = [{ minor := 1, addr := 0xFFFFC90000001000 },
        { minor := 0, addr := 0xFFFFC90000000000 }] ∧
      s.shared.reserved (twoAreas.page 0 0) = false) ∧
      s.calls false = some { minor := 0, pc := .returned } ∧
      s.calls true = some { minor := 1, pc := .returned })
    (by decide +kernel) with ⟨h, s, hr, hp⟩
  rcases of_decide_eq_true hp with ⟨⟨hlookups, hpage⟩, hcalls⟩
  refine ⟨h, s, hr, returned_of_pair hcalls, hlookups, hpage, fun hmarks => ?_⟩
  have hreserved := hmarks.complete false _ hcalls.1 (.inl rfl) 0 Nat.zero_lt_two
  rw [hpage] at hreserved
  exact Bool.false_ne_true hreserved

end Examples

end Opens

end Mmap

end KernelModules
