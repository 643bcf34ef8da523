import Mathlib.Data.List.Basic
import Mathlib.Logic.Function.Basic

/-!
# Tables

A table keeps a value under some of its keys: a function to `Option`, changed
with `Function.update`. Files that are open, interfaces that are bound and
readers that are known are kept like this.

## Theorems

* `update_some_iff`, `update_none_iff`: What a table holds after an entry was
  made or removed.
* `update_eq_none_iff`: The keys that are free after an entry was made.
* `exists_update_some_iff`: The values held after an entry under a free key.
* `foldl_update`: What a loop over an array leaves in it.
-/

namespace KernelModules

namespace Lib

namespace Table

variable {K V : Type*} [DecidableEq K] {f : K → Option V} {k j : K} {a b : V}

theorem update_some_iff :
    Function.update f k (some a) j = some b ↔ (j = k ∧ a = b) ∨ (j ≠ k ∧ f j = some b) := by
  by_cases hj : j = k
  · rw [hj, Function.update_self, Option.some.injEq]
    simp only [true_and, ne_eq, not_true_eq_false, false_and, or_false]
  · rw [Function.update_of_ne hj]
    simp only [hj, false_and, ne_eq, not_false_eq_true, true_and, false_or]

theorem update_none_iff : Function.update f k none j = some b ↔ j ≠ k ∧ f j = some b := by
  by_cases hj : j = k
  · rw [hj, Function.update_self]
    exact iff_of_false (Option.some_ne_none b).symm fun h => h.1 rfl
  · rw [Function.update_of_ne hj]
    exact (and_iff_right hj).symm

theorem update_eq_none_iff : Function.update f k (some a) j = none ↔ j ≠ k ∧ f j = none := by
  by_cases hj : j = k
  · rw [hj, Function.update_self]
    exact iff_of_false (Option.some_ne_none a) fun h => h.1 rfl
  · rw [Function.update_of_ne hj]
    exact (and_iff_right hj).symm

/-- An entry under a key that was free adds its value to those held. -/
theorem exists_update_some_iff (hfree : f k = none) :
    (∃ j, Function.update f k (some a) j = some b) ↔ b = a ∨ ∃ j, f j = some b := by
  rw [Function.exists_update_iff f fun _ v => v = some b, Option.some.injEq, eq_comm]
  refine or_congr_right ⟨fun ⟨j, _, hj⟩ => ⟨j, hj⟩, fun ⟨j, hj⟩ => ⟨j, ?_, hj⟩⟩
  rintro rfl
  exact Option.some_ne_none b (hj.symm.trans hfree)

/-- To remove what is not there is to change nothing. -/
theorem update_none_self (hfree : f k = none) : Function.update f k none = f := by
  rw [← hfree]
  exact Function.update_eq_self k f

/-- A loop that assigns to the first entries of an array, one after the other. -/
theorem foldl_update {W : Type*} (g : Nat → W) (w : Nat → W) (n i : Nat) :
    (List.range n).foldl (fun w i => Function.update w i (g i)) w i =
      if i < n then g i else w i := by
  induction n with
  | zero => rfl
  | succ n ih =>
      rw [List.range_succ, List.foldl_append, List.foldl_cons, List.foldl_nil]
      by_cases hi : i = n
      · rw [hi, Function.update_self, if_pos (Nat.lt_succ_self n)]
      · rw [Function.update_of_ne hi, ih]
        refine if_congr ?_ rfl rfl
        omega

end Table

end Lib

end KernelModules
