import KernelModules.Lib.Table
import Mathlib.Data.List.Nodup

/-!
# Heaps

A heap keeps the contents of the blocks that are allocated, under addresses of
any type. An allocation may return any address where nothing is allocated, so
a block may come to lie where another one was freed.

A program keeps its blocks behind pointers, which are a table too. It is in
order with them if no two pointers are of the same block, every pointer is of
a block that is allocated, and the blocks behind no pointer, which nobody can
free any more, are those of a list (`Owns`). Such a program may forget that
there is a heap: what it reads behind its pointers is a table of its own,
which an allocation and a free change in one place only (`behind_keep`,
`behind_free`), wherever the blocks lie.

## Main definitions

* `Heap.Owns`: The pointers and the lost blocks are those of the heap.
* `Heap.behind`: The contents behind the pointers.

## Theorems

* `Heap.Owns.deref`: There is a block behind every pointer.
* `Heap.Owns.keep`, `Heap.Owns.lose`, `Heap.Owns.free`: An allocation whose
  address is kept or lost, and a free.
* `Heap.behind_keep`, `Heap.behind_lose`, `Heap.behind_free`: What they do to
  the contents.
-/

namespace KernelModules

namespace Lib

namespace Heap

variable {A K β : Type*}

/-- The blocks of the heap are those behind the pointers, each behind one, and
    those lost, each lost once. -/
structure Owns (heap : A → Option β) (ptr : K → Option A) (lost : List A) : Prop where
  live_iff : ∀ a, (heap a).isSome ↔ (∃ k, ptr k = some a) ∨ a ∈ lost
  own : ∀ j k a, ptr j = some a → ptr k = some a → j = k
  apart : ∀ k a, ptr k = some a → a ∉ lost
  nodup : lost.Nodup

/-- What is read behind the pointers. -/
def behind (heap : A → Option β) (ptr : K → Option A) (k : K) : Option β := (ptr k).bind heap

theorem owns_empty : Owns (fun _ : A => (none : Option β)) (fun _ : K => none) [] where
  live_iff := fun a => by
    simp only [Option.isSome_none, Bool.false_eq_true, reduceCtorEq, exists_false,
      List.not_mem_nil, or_self]
  own := fun j k a hj => by simp only [reduceCtorEq] at hj
  apart := fun k a hk => by simp only [reduceCtorEq] at hk
  nodup := List.nodup_nil

variable {heap : A → Option β} {ptr : K → Option A} {lost : List A} {a : A} {k : K} {b : β}

/-- There is a block behind every pointer. -/
theorem Owns.deref (hs : Owns heap ptr lost) (hk : ptr k = some a) : ∃ b, heap a = some b :=
  Option.isSome_iff_exists.mp ((hs.live_iff a).mpr (Or.inl ⟨k, hk⟩))

/-- No pointer is of an address that is free, and no lost block lies there. -/
theorem Owns.fresh (hs : Owns heap ptr lost) (ha : heap a = none) :
    (∀ k, ptr k ≠ some a) ∧ a ∉ lost := by
  have hdead : ¬ ((∃ k, ptr k = some a) ∨ a ∈ lost) := by
    rw [← hs.live_iff, ha]
    exact Bool.false_ne_true
  exact ⟨fun k hk => hdead (Or.inl ⟨k, hk⟩), fun hlost => hdead (Or.inr hlost)⟩

section Operations

variable [DecidableEq A]

/-- The addresses with a block, after an allocation. -/
theorem isSome_alloc (x : A) : (Function.update heap a (some b) x).isSome ↔
    x = a ∨ (heap x).isSome := by
  by_cases hx : x = a
  · rw [hx, Function.update_self]
    exact iff_of_true rfl (Or.inl rfl)
  · rw [Function.update_of_ne hx]
    exact (or_iff_right hx).symm

/-- The address of an allocation is lost. -/
theorem Owns.lose (hs : Owns heap ptr lost) (ha : heap a = none) :
    Owns (Function.update heap a (some b)) ptr (a :: lost) where
  live_iff := fun x => by
    rw [isSome_alloc, hs.live_iff, List.mem_cons]
    exact or_left_comm
  own := hs.own
  apart := fun j x hj => by
    rw [List.mem_cons, not_or]
    refine ⟨fun hx => (hs.fresh ha).1 j ?_, hs.apart j x hj⟩
    rw [hj, hx]
  nodup := List.nodup_cons.mpr ⟨(hs.fresh ha).2, hs.nodup⟩

/-- Nobody notices a block that is lost. -/
theorem behind_lose (hs : Owns heap ptr lost) (ha : heap a = none) :
    behind (Function.update heap a (some b)) ptr = behind heap ptr := by
  funext j
  cases hj : ptr j with
  | none => rw [behind, behind, hj, Option.bind_none, Option.bind_none]
  | some x =>
      have hx : x ≠ a := fun hx => (hs.fresh ha).1 j (by rw [hj, hx])
      rw [behind, behind, hj, Option.bind_some, Option.bind_some, Function.update_of_ne hx]

variable [DecidableEq K]

/-- The address of an allocation is kept in a pointer that was null. -/
theorem Owns.keep (hs : Owns heap ptr lost) (ha : heap a = none) (hk : ptr k = none) :
    Owns (Function.update heap a (some b)) (Function.update ptr k (some a)) lost where
  live_iff := fun x => by
    rw [isSome_alloc, hs.live_iff, Table.exists_update_some_iff hk, or_assoc]
  own := fun i j x hi hj => by
    rw [Table.update_some_iff] at hi hj
    rcases hi with ⟨rfl, rfl⟩ | ⟨hik, hi⟩ <;> rcases hj with ⟨rfl, hx⟩ | ⟨hjk, hj⟩
    · rfl
    · exact absurd hj ((hs.fresh ha).1 j)
    · rw [← hx] at hi
      exact absurd hi ((hs.fresh ha).1 i)
    · exact hs.own i j x hi hj
  apart := fun j x hj => by
    rw [Table.update_some_iff] at hj
    rcases hj with ⟨-, rfl⟩ | ⟨-, hj⟩
    · exact (hs.fresh ha).2
    · exact hs.apart j x hj
  nodup := hs.nodup

/-- A pointer is set, to a block with these contents. -/
theorem behind_keep (hs : Owns heap ptr lost) (ha : heap a = none) :
    behind (Function.update heap a (some b)) (Function.update ptr k (some a)) =
      Function.update (behind heap ptr) k (some b) := by
  funext j
  by_cases hj : j = k
  · rw [hj, behind, Function.update_self, Function.update_self, Option.bind_some,
      Function.update_self]
  · rw [behind, Function.update_of_ne hj, Function.update_of_ne hj]
    exact congrFun (behind_lose hs ha) j

/-- The block behind a pointer is freed and the pointer forgotten. -/
theorem Owns.free (hs : Owns heap ptr lost) (hk : ptr k = some a) :
    Owns (Function.update heap a none) (Function.update ptr k none) lost where
  live_iff := fun x => by
    by_cases hx : x = a
    · -- No other pointer is of this block, and it is not lost.
      rw [hx, Function.update_self]
      refine iff_of_false Bool.false_ne_true ?_
      rintro (⟨j, hj⟩ | hlost)
      · rw [Table.update_none_iff] at hj
        exact hj.1 (hs.own j k a hj.2 hk)
      · exact hs.apart k a hk hlost
    · rw [Function.update_of_ne hx, hs.live_iff]
      refine or_congr_left (exists_congr fun j => ?_)
      rw [Table.update_none_iff]
      refine (and_iff_right_of_imp fun hj hjk => hx ?_).symm
      rw [hjk, hk, Option.some.injEq] at hj
      exact hj.symm
  own := fun i j x hi hj =>
    hs.own i j x (Table.update_none_iff.mp hi).2 (Table.update_none_iff.mp hj).2
  apart := fun j x hj => hs.apart j x (Table.update_none_iff.mp hj).2
  nodup := hs.nodup

/-- The other pointers are of other blocks. -/
theorem behind_free (hs : Owns heap ptr lost) (hk : ptr k = some a) :
    behind (Function.update heap a none) (Function.update ptr k none) =
      Function.update (behind heap ptr) k none := by
  funext j
  by_cases hj : j = k
  · rw [hj, behind, Function.update_self, Function.update_self, Option.bind_none]
  · rw [behind, Function.update_of_ne hj, Function.update_of_ne hj, behind]
    cases hptr : ptr j with
    | none => rfl
    | some x =>
        have hx : x ≠ a := by
          rintro rfl
          exact hj (hs.own j k x hptr hk)
        rw [Option.bind_some, Option.bind_some, Function.update_of_ne hx]

end Operations

end Heap

end Lib

end KernelModules
