import Mathlib.Logic.Function.Basic

/-!
# Pools

Instances of a resource that are made one after the other and released by
name. A pool counts the releases of every instance, so that a second release
is not lost in the books, and neither is one of an instance that was never
made.

`Owns p H` says that the books are in order and `H` are the instances still to
be released: they are made and not released, every other instance that was
made has been released exactly once, and nothing else has been released. To
say that everything has been released exactly once is to say that nothing is
owned.

## Main definitions

* `Pool`: The instances made, and how often each was released.
* `Pool.make`, `Pool.release`, `Pool.releaseOpt`: The operations.
* `Pool.Live`: An instance that was made and not released.
* `Pool.Owns`: The books are in order, with these instances left.
* `Pool.Settled`: Every instance has been released exactly once.
* `Pool.Slot`: Instances kept in one variable, one at a time.
* `Pool.Account`: The same with instances lost on the way.

## Theorems

* `Pool.Owns.make`, `Pool.Owns.release`: The operations keep the books.
* `Pool.Owns.live_iff`: The instances owned are the live ones.
* `Pool.settled_iff`: To own nothing is to have released everything once.
* `Pool.Slot.make`, `Pool.Slot.release`, `Pool.Slot.release_once`: The
  operations on a slot.
* `Pool.Slot.settled_iff`: Everything is released when the slot is empty.
* `Pool.Account.make`, `Pool.Account.release`, `Pool.Account.lose`: The
  operations on a slot that loses instances.
* `Pool.Account.settled_iff`: Everything is released when nothing was lost
  either.
-/

namespace KernelModules

namespace Lib

/-- Instances are numbered in the order in which they are made. -/
structure Pool where
  made : Nat
  released : Nat → Nat

namespace Pool

def empty : Pool := { made := 0, released := fun _ => 0 }

/-- The pool with one more instance, whose number is `made` before. -/
def make (p : Pool) : Pool := { p with made := p.made + 1 }

def release (p : Pool) (n : Nat) : Pool :=
  { p with released := Function.update p.released n (p.released n + 1) }

/-- The release of what a pointer refers to, which is nothing for NULL. -/
def releaseOpt (p : Pool) : Option Nat → Pool
  | none => p
  | some n => p.release n

/-- The instance was made and has not been released. -/
def Live (p : Pool) (n : Nat) : Prop := n < p.made ∧ p.released n = 0

instance (p : Pool) (n : Nat) : Decidable (p.Live n) := inferInstanceAs (Decidable (_ ∧ _))

/-- The instances still to be released are those of `H`, and all others were
    released exactly once. -/
structure Owns (p : Pool) (H : Nat → Prop) : Prop where
  made : ∀ n, H n → n < p.made
  held : ∀ n, H n → p.released n = 0
  once : ∀ n, n < p.made → ¬ H n → p.released n = 1
  fresh : ∀ n, p.made ≤ n → p.released n = 0

/-- Every instance made was released exactly once, and nothing else was. -/
def Settled (p : Pool) : Prop :=
  (∀ n, n < p.made → p.released n = 1) ∧ ∀ n, p.made ≤ n → p.released n = 0

/-- One variable of a program is where instances are kept, one at a time:
    while `held`, it points to the only instance that is still to be
    released. -/
structure Slot (p : Pool) (held : Bool) (ptr : Option Nat) : Prop where
  owns : p.Owns fun n => held = true ∧ ptr = some n
  nonnull : held = true → ptr ≠ none

/-- A variable whose instances are not always released: what is still to be
    released is its own instance, while `held`, and those of `lost`, which it
    does not point to any more. -/
structure Account (p : Pool) (lost : List Nat) (held : Bool) (ptr : Option Nat) : Prop where
  owns : p.Owns fun n => n ∈ lost ∨ (held = true ∧ ptr = some n)
  nonnull : held = true → ptr ≠ none
  apart : held = true → ∀ n ∈ ptr, n ∉ lost

variable {p : Pool} {H H' : Nat → Prop} {n : Nat} {ptr ptr' : Option Nat} {lost : List Nat}

@[simp] theorem make_made (p : Pool) : p.make.made = p.made + 1 := rfl

@[simp] theorem make_released (p : Pool) : p.make.released = p.released := rfl

@[simp] theorem release_made (p : Pool) (n : Nat) : (p.release n).made = p.made := rfl

@[simp] theorem release_self (p : Pool) (n : Nat) :
    (p.release n).released n = p.released n + 1 :=
  Function.update_self _ _ _

theorem release_of_ne (p : Pool) {n m : Nat} (hm : m ≠ n) :
    (p.release n).released m = p.released m :=
  Function.update_of_ne hm _ _

@[simp] theorem releaseOpt_made (p : Pool) (ptr : Option Nat) :
    (p.releaseOpt ptr).made = p.made := by
  cases ptr <;> rfl

theorem Owns.congr (hp : p.Owns H) (hH : ∀ n, H' n ↔ H n) : p.Owns H' where
  made := fun n hn => hp.made n ((hH n).mp hn)
  held := fun n hn => hp.held n ((hH n).mp hn)
  once := fun n hlt hn => hp.once n hlt fun h => hn ((hH n).mpr h)
  fresh := hp.fresh

theorem empty_owns : empty.Owns fun _ => False where
  made := fun _ hn => hn.elim
  held := fun _ hn => hn.elim
  once := fun _ hlt _ => absurd hlt (Nat.not_lt_zero _)
  fresh := fun _ _ => rfl

/-- The instances owned are the live ones. -/
theorem Owns.live_iff (hp : p.Owns H) : p.Live n ↔ H n := by
  constructor
  · rintro ⟨hlt, hzero⟩
    by_contra hn
    rw [hp.once n hlt hn] at hzero
    exact absurd hzero Nat.one_ne_zero
  · intro hn
    exact ⟨hp.made n hn, hp.held n hn⟩

/-- A new instance is owned by whoever made it. -/
theorem Owns.make (hp : p.Owns H) : p.make.Owns fun n => n = p.made ∨ H n where
  made := by
    intro n hn
    rw [make_made]
    rcases hn with rfl | hn
    · exact Nat.lt_succ_self _
    · exact Nat.lt_succ_of_lt (hp.made n hn)
  held := by
    intro n hn
    rw [make_released]
    rcases hn with rfl | hn
    · exact hp.fresh p.made (Nat.le_refl _)
    · exact hp.held n hn
  once := by
    intro n hlt hn
    rw [make_made] at hlt
    rw [make_released]
    rcases not_or.mp hn with ⟨hne, hH⟩
    exact hp.once n (by omega) hH
  fresh := by
    intro n hle
    rw [make_made] at hle
    rw [make_released]
    exact hp.fresh n (by omega)

/-- An instance that is owned may be released, and is not owned afterwards. -/
theorem Owns.release (hp : p.Owns H) (hn : H n) : (p.release n).Owns fun m => H m ∧ m ≠ n where
  made := fun m hm => hp.made m hm.1
  held := by
    intro m hm
    rw [release_of_ne p hm.2]
    exact hp.held m hm.1
  once := by
    intro m hlt hm
    by_cases hmn : m = n
    · rw [hmn, release_self, hp.held n hn]
    · rw [release_of_ne p hmn]
      exact hp.once m hlt fun h => hm ⟨h, hmn⟩
  fresh := by
    intro m hle
    have hlt := hp.made n hn
    rw [release_made] at hle
    rw [release_of_ne p (by omega)]
    exact hp.fresh m hle

/-- To own nothing is to have released everything exactly once. -/
theorem settled_iff : p.Settled ↔ p.Owns fun _ => False := by
  constructor
  · rintro ⟨honce, hfresh⟩
    exact ⟨fun _ hn => hn.elim, fun _ hn => hn.elim, fun n hlt _ => honce n hlt, hfresh⟩
  · intro hp
    exact ⟨fun n hlt => hp.once n hlt fun h => h, hp.fresh⟩

theorem empty_slot : empty.Slot false ptr where
  owns := empty_owns.congr fun _ => by simp only [Bool.false_eq_true, false_and]
  nonnull := fun h => Bool.noConfusion h

/-- While nothing is held the variable does not matter. -/
theorem Slot.unheld (hp : p.Slot false ptr) : p.Slot false ptr' where
  owns := hp.owns.congr fun _ => by simp only [Bool.false_eq_true, false_and]
  nonnull := fun h => Bool.noConfusion h

theorem Slot.make (hp : p.Slot false ptr) : p.make.Slot true (some p.made) where
  owns := hp.owns.make.congr fun n => by
    simp only [true_and, Bool.false_eq_true, false_and, or_false, Option.some.injEq, eq_comm]
  nonnull := fun _ => Option.some_ne_none _

theorem Slot.release (hp : p.Slot true ptr) : (p.releaseOpt ptr).Slot false ptr' := by
  cases ptr with
  | none => exact absurd rfl (hp.nonnull rfl)
  | some n =>
      refine ⟨(hp.owns.release ⟨rfl, rfl⟩).congr fun m => ?_, fun h => Bool.noConfusion h⟩
      simp only [Bool.false_eq_true, false_and, true_and, Option.some.injEq, false_iff,
        not_and, ne_eq, Decidable.not_not]
      exact fun h => h.symm

/-- An instance that is live is released for the first time. -/
theorem releaseOpt_once (hn : p.Live n) : (p.releaseOpt (some n)).released n = 1 := by
  rw [releaseOpt, release_self, hn.2]

/-- What a slot holds is released for the first time. -/
theorem Slot.release_once (hp : p.Slot true ptr) :
    ∃ n, ptr = some n ∧ p.Live n ∧ (p.releaseOpt ptr).released n = 1 := by
  rcases Option.ne_none_iff_exists'.mp (hp.nonnull rfl) with ⟨n, rfl⟩
  have hlive : p.Live n := hp.owns.live_iff.mpr ⟨rfl, rfl⟩
  exact ⟨n, rfl, hlive, releaseOpt_once hlive⟩

theorem Slot.settled_iff {held : Bool} (hp : p.Slot held ptr) : p.Settled ↔ held = false := by
  rw [Pool.settled_iff]
  cases held with
  | false =>
      refine iff_of_true (hp.owns.congr fun n => ?_) rfl
      simp only [Bool.false_eq_true, false_and]
  | true =>
      refine iff_of_false (fun hnone => ?_) Bool.noConfusion
      rcases Option.ne_none_iff_exists'.mp (hp.nonnull rfl) with ⟨n, hn⟩
      exact hnone.live_iff.mp (hp.owns.live_iff.mpr ⟨rfl, hn⟩)

theorem empty_account : empty.Account [] false ptr where
  owns := empty_owns.congr fun _ => by
    simp only [List.not_mem_nil, Bool.false_eq_true, false_and, or_self]
  nonnull := fun h => Bool.noConfusion h
  apart := fun h => Bool.noConfusion h

theorem Account.unheld (hp : p.Account lost false ptr) : p.Account lost false ptr' where
  owns := hp.owns.congr fun _ => by simp only [Bool.false_eq_true, false_and]
  nonnull := fun h => Bool.noConfusion h
  apart := fun h => Bool.noConfusion h

theorem Account.make (hp : p.Account lost false ptr) :
    p.make.Account lost true (some p.made) where
  owns := hp.owns.make.congr fun n => by
    simp only [true_and, Bool.false_eq_true, false_and, or_false, Option.some.injEq,
      @eq_comm _ p.made]
    exact or_comm
  nonnull := fun _ => Option.some_ne_none _
  apart := by
    intro _ n hn hlost
    -- What was lost had been made before.
    have hlt := hp.owns.made n (.inl hlost)
    rw [Option.mem_some_iff] at hn
    exact absurd hn (Nat.ne_of_gt hlt)

theorem Account.release (hp : p.Account lost true ptr) :
    (p.releaseOpt ptr).Account lost false ptr' := by
  cases ptr with
  | none => exact absurd rfl (hp.nonnull rfl)
  | some n =>
      have happart : n ∉ lost := hp.apart rfl n rfl
      refine ⟨(hp.owns.release (.inr ⟨rfl, rfl⟩)).congr fun m => ?_, fun h => Bool.noConfusion h,
        fun h => Bool.noConfusion h⟩
      simp only [Bool.false_eq_true, false_and, or_false, true_and, Option.some.injEq]
      constructor
      · intro hm
        refine ⟨.inl hm, ?_⟩
        rintro rfl
        exact happart hm
      · rintro ⟨hm | rfl, hne⟩
        · exact hm
        · exact absurd rfl hne

/-- The same with instances lost before. -/
theorem Account.release_once (hp : p.Account lost true ptr) :
    ∃ n, ptr = some n ∧ p.Live n ∧ (p.releaseOpt ptr).released n = 1 := by
  rcases Option.ne_none_iff_exists'.mp (hp.nonnull rfl) with ⟨n, rfl⟩
  have hlive : p.Live n := hp.owns.live_iff.mpr (.inr ⟨rfl, rfl⟩)
  exact ⟨n, rfl, hlive, releaseOpt_once hlive⟩

/-- The variable is given up with its instance in it. -/
theorem Account.lose (hp : p.Account lost true (some n)) :
    p.Account (n :: lost) false ptr' where
  owns := hp.owns.congr fun m => by
    simp only [List.mem_cons, Bool.false_eq_true, false_and, or_false, true_and,
      Option.some.injEq, @eq_comm _ n]
    exact or_comm
  nonnull := fun h => Bool.noConfusion h
  apart := fun h => Bool.noConfusion h

theorem Account.settled_iff {held : Bool} (hp : p.Account lost held ptr) :
    p.Settled ↔ lost = [] ∧ held = false := by
  rw [Pool.settled_iff]
  constructor
  · intro hnone
    have hfree : ∀ n, ¬ (n ∈ lost ∨ (held = true ∧ ptr = some n)) := fun n hn =>
      hnone.live_iff.mp (hp.owns.live_iff.mpr hn)
    refine ⟨List.eq_nil_iff_forall_not_mem.mpr fun n hn => hfree n (.inl hn), ?_⟩
    cases held with
    | false => rfl
    | true =>
        rcases Option.ne_none_iff_exists'.mp (hp.nonnull rfl) with ⟨n, hn⟩
        exact absurd (.inr ⟨rfl, hn⟩) (hfree n)
  · rintro ⟨rfl, rfl⟩
    refine hp.owns.congr fun n => ?_
    simp only [List.not_mem_nil, Bool.false_eq_true, false_and, or_self]

end Pool

end Lib

end KernelModules
