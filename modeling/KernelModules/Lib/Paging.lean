import Mathlib.Data.Nat.Init
import Mathlib.Logic.Function.Basic

/-!
# Paged Memory

A memory of frames, and windows that show some of its frames one after the
other, as page tables do. A byte of a window is a byte of one of its frames, at
the same offset. Windows that have no frame in common are separate memories,
and windows with the same frames are the same memory, whatever goes through
which of them.

## Main definitions

* `place`: Where a byte of a window is.
* `Separate`: Windows whose pages are different frames.
* `storeAll`: Bytes stored through a window.

## Theorems

* `frame_unique`: The frame and the offset of a place.
* `Separate.place_inj`: Bytes of separate windows are in different places.
* `storeAll_place`, `storeAll_of_ne`: What is in memory after bytes were stored.
-/

namespace KernelModules

namespace Lib

namespace Paging

variable {ι β : Type*} {size n : Nat}

/-- Where byte `o` of a window with these frames is. -/
def place (size : Nat) (frames : Nat → Nat) (o : Nat) : Nat := frames (o / size) * size + o % size

/-- The first `n` pages of these windows are all different frames. -/
def Separate (n : Nat) (frames : ι → Nat → Nat) : Prop :=
  ∀ w w' i i', i < n → i' < n → frames w i = frames w' i' → w = w' ∧ i = i'

/-- The first `k` bytes of a window get these values. -/
def storeAll (size : Nat) (frames : Nat → Nat) (value : Nat → β) (k : Nat) (mem : Nat → β) :
    Nat → β :=
  (List.range k).foldl (fun mem o => Function.update mem (place size frames o) (value o)) mem

/-- A place has one frame and one offset. -/
theorem frame_unique {f f' o o' : Nat} (ho : o < size) (ho' : o' < size)
    (h : f * size + o = f' * size + o') : f = f' ∧ o = o' := by
  have hpos : 0 < size := Nat.zero_lt_of_lt ho
  have hdiv := congrArg (· / size) h
  have hmod := congrArg (· % size) h
  simp only [Nat.mul_comm _ size, Nat.mul_add_div hpos, Nat.mul_add_mod, Nat.div_eq_of_lt ho,
    Nat.div_eq_of_lt ho', Nat.mod_eq_of_lt ho, Nat.mod_eq_of_lt ho', Nat.add_zero] at hdiv hmod
  exact ⟨hdiv, hmod⟩

/-- A byte by its page and the offset in it. -/
theorem place_page {frames : Nat → Nat} {i o : Nat} (ho : o < size) :
    place size frames (i * size + o) = frames i * size + o := by
  have hpos : 0 < size := Nat.zero_lt_of_lt ho
  rw [place, Nat.mul_comm i, Nat.mul_add_div hpos, Nat.mul_add_mod, Nat.div_eq_of_lt ho,
    Nat.mod_eq_of_lt ho, Nat.add_zero]

/-- Bytes of separate windows are in different places. -/
theorem Separate.place_inj {frames : ι → Nat → Nat} (hs : Separate n frames) {w w' : ι} {o o' : Nat}
    (ho : o < n * size) (ho' : o' < n * size)
    (h : place size (frames w) o = place size (frames w') o') : w = w' ∧ o = o' := by
  have hpos : 0 < size := by
    rcases Nat.eq_zero_or_pos size with rfl | hpos
    · exact absurd ho (Nat.not_lt_zero o)
    · exact hpos
  rcases frame_unique (Nat.mod_lt o hpos) (Nat.mod_lt o' hpos) h with ⟨hframe, hmod⟩
  rcases hs w w' _ _ (Nat.div_lt_of_lt_mul (by rwa [Nat.mul_comm]))
    (Nat.div_lt_of_lt_mul (by rwa [Nat.mul_comm])) hframe with ⟨rfl, hdiv⟩
  refine ⟨rfl, ?_⟩
  rw [← Nat.div_add_mod o size, ← Nat.div_add_mod o' size, hdiv, hmod]

/-- What is in no place of the window stays. -/
theorem storeAll_of_ne {frames : Nat → Nat} {value : Nat → β} {k p : Nat} (mem : Nat → β)
    (hp : ∀ o < k, place size frames o ≠ p) : storeAll size frames value k mem p = mem p := by
  induction k with
  | zero => rfl
  | succ k ih =>
      rw [storeAll, List.range_succ, List.foldl_append, List.foldl_cons, List.foldl_nil,
        Function.update_of_ne (hp k (Nat.lt_succ_self k)).symm]
      exact ih fun o ho => hp o (Nat.lt_succ_of_lt ho)

/-- And what was stored is there. -/
theorem storeAll_place {frames : Nat → Nat} {value : Nat → β} {k o : Nat} (mem : Nat → β)
    (hinj : ∀ o' < k, place size frames o' = place size frames o → o' = o) (ho : o < k) :
    storeAll size frames value k mem (place size frames o) = value o := by
  induction k with
  | zero => exact absurd ho (Nat.not_lt_zero o)
  | succ k ih =>
      rw [storeAll, List.range_succ, List.foldl_append, List.foldl_cons, List.foldl_nil]
      by_cases hok : o = k
      · rw [hok, Function.update_self]
      · rw [Function.update_of_ne fun h => hok (hinj k (Nat.lt_succ_self k) h.symm).symm]
        exact ih (fun o' ho' => hinj o' (Nat.lt_succ_of_lt ho')) (by omega)

end Paging

end Lib

end KernelModules
