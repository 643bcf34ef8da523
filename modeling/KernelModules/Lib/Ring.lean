import Mathlib.Algebra.Order.Group.Unbundled.Int
import Mathlib.Data.List.Basic
import Mathlib.Logic.Function.Basic
import Mathlib.Data.Nat.Cast.Order.Basic

/-!
# Circular Windows

Reading and writing a buffer of `n` slots in circular order. Positions are
integers in `[0, n)`, as in the programs that keep such a buffer by two `int`
indices, and a window is the list of slots met when walking up from a start
position.

Everything is stated with a single conditional subtraction rather than with
`%`. A walk never covers more than one turn, so it passes the end at most
once, and with the modulus a variable the conditional is what the linear
arithmetic procedures can decide.

`span` is the number of slots from one index up to another. An index pair
cannot tell an empty buffer from a full one, which is why a buffer managed
this way holds at most `n - 1` elements; the lemmas here ask for the bounds
that make the two cases distinct.

## Main definitions

* `wrap`: A position brought back into the buffer after at most one turn.
* `span`: The number of slots from one index up to another.
* `window`: The elements met walking up from a position.
* `store`: A list of elements stored walking up from a position.

## Theorems

* `wrap_nonneg`, `wrap_lt`: A wrapped position is a slot.
* `wrap_wrap`: Two walks make one.
* `span_lt`: Two slots are less than a turn apart.
* `span_wrap_left`: Moving the lower index up shortens the span.
* `span_wrap_right`: Moving the upper index up lengthens it.
* `window_succ`: A window is its first slot and the window from the next one.
* `window_add`: A window splits at any inner position.
* `window_store`: Storing behind a window appends to it.
-/

namespace KernelModules

namespace Lib

namespace Ring

variable {α : Type*}

/-- A position at most one turn above the buffer, brought back into it. -/
def wrap (n i : Int) : Int := if i < n then i else i - n

/-- The number of slots from index `a` up to index `b`. -/
def span (n a b : Int) : Nat := (if a ≤ b then b - a else b - a + n).toNat

/-- The `count` elements met walking up from `start`. -/
def window (n : Int) (buf : Int → α) (start : Int) (count : Nat) : List α :=
  (List.range count).map fun k : Nat => buf (wrap n (start + k))

/-- The buffer after storing the elements one by one, walking up from
    `start`. -/
def store (n : Int) (buf : Int → α) (start : Int) : List α → Int → α
  | [] => buf
  | x :: xs => store n (Function.update buf start x) (wrap n (start + 1)) xs

variable {n a b : Int}

theorem wrap_nonneg (ha : 0 ≤ a) : 0 ≤ wrap n a := by
  unfold wrap
  split <;> omega

theorem wrap_lt (ha : a < 2 * n) : wrap n a < n := by
  unfold wrap
  split <;> omega

@[simp] theorem wrap_of_lt (ha : a < n) : wrap n a = a := if_pos ha

theorem wrap_wrap {j k : Int} (hk : 0 ≤ k) (han : a < n)
    (hjk : j + k ≤ n) : wrap n (wrap n (a + j) + k) = wrap n (a + (j + k)) := by
  unfold wrap
  split <;> split <;> split <;> omega

theorem wrap_succ_add {m : Nat} (han : a < n) (hm : (m + 1 : Int) ≤ n) :
    wrap n (wrap n (a + 1) + m) = wrap n (a + (m + 1 : Nat)) := by
  rw [wrap_wrap (by omega) han (by omega), Int.natCast_add, Int.natCast_one, Int.add_comm 1]

/-- Stepping an index and resetting it at the end of the buffer is wrapping. -/
theorem wrap_succ (han : a < n) : (if a + 1 = n then 0 else a + 1) = wrap n (a + 1) := by
  unfold wrap
  split <;> split <;> omega

theorem span_lt (ha : 0 ≤ a) (han : a < n) (hbn : b < n) : span n a b < n := by
  unfold span
  split <;> omega

@[simp] theorem span_self : span n a a = 0 := by
  unfold span
  rw [if_pos (Int.le_refl a), Int.sub_self, Int.toNat_zero]

theorem span_eq_zero_iff (han : a < n) (hb : 0 ≤ b) :
    span n a b = 0 ↔ a = b := by
  unfold span
  split <;> omega

/-- The upper index is the span's length above the lower one. -/
theorem wrap_add_span (ha : 0 ≤ a) (han : a < n) (hb : 0 ≤ b) (hbn : b < n) :
    wrap n (a + span n a b) = b := by
  unfold wrap span
  split <;> split at * <;> omega

theorem span_wrap_left {m : Nat} (ha : 0 ≤ a) (han : a < n) (hb : 0 ≤ b) (hbn : b < n)
    (hm : m ≤ span n a b) : span n (wrap n (a + m)) b = span n a b - m := by
  unfold wrap
  unfold span at hm ⊢
  split at hm <;> split <;> split <;> omega

theorem span_wrap_right {m : Nat} (ha : 0 ≤ a) (han : a < n) (hb : 0 ≤ b)
    (hm : span n a b + m < n) : span n a (wrap n (b + m)) = span n a b + m := by
  unfold wrap
  unfold span at hm ⊢
  split at hm <;> split <;> split <;> omega

@[simp] theorem window_length (buf : Int → α) (start : Int) (count : Nat) :
    (window n buf start count).length = count := by
  simp only [window, List.length_map, List.length_range]

@[simp] theorem window_zero (buf : Int → α) (start : Int) : window n buf start 0 = [] := rfl

/-- A window splits at any inner position. -/
theorem window_add (buf : Int → α) {start : Int} {j k : Nat} (hsn : start < n)
    (hjk : (j + k : Int) ≤ n) :
    window n buf start (j + k) = window n buf start j ++ window n buf (wrap n (start + j)) k := by
  unfold window
  rw [List.range_add, List.map_append, List.map_map]
  congr 1
  refine List.map_congr_left (fun i hi => ?_)
  have hik : i < k := List.mem_range.mp hi
  simp only [Function.comp_apply, Int.natCast_add]
  rw [wrap_wrap (by omega) hsn (by omega)]

/-- A window is its first slot followed by the window from the next one. -/
theorem window_succ (buf : Int → α) {start : Int} {k : Nat} (hsn : start < n)
    (hk : (k + 1 : Int) ≤ n) :
    window n buf start (k + 1) = buf start :: window n buf (wrap n (start + 1)) k := by
  have hsplit := window_add buf (j := 1) (k := k) hsn (by omega)
  rw [Nat.add_comm 1 k] at hsplit
  rw [hsplit]
  simp only [window, List.range_one, List.map_cons, List.map_nil, Int.natCast_zero, Int.add_zero,
    wrap_of_lt hsn, Int.natCast_one, List.singleton_append]

theorem window_drop (buf : Int → α) {start : Int} {m count : Nat} (hsn : start < n)
    (hm : m ≤ count) (hc : (count : Int) ≤ n) :
    (window n buf start count).drop m = window n buf (wrap n (start + m)) (count - m) := by
  have hsplit := window_add buf (j := m) (k := count - m) hsn (by omega)
  rw [Nat.add_sub_cancel' hm] at hsplit
  rw [hsplit, List.drop_left' (window_length buf start m)]

/-- A window does not see a slot outside it. -/
theorem window_update (buf : Int → α) (start i : Int) (count : Nat) (x : α)
    (hi : ∀ k : Nat, k < count → wrap n (start + k) ≠ i) :
    window n (Function.update buf i x) start count = window n buf start count := by
  refine List.map_congr_left (fun k hk => ?_)
  exact Function.update_of_ne (hi k (List.mem_range.mp hk)) x buf

/-- Slots less than a turn above a start are distinct. -/
theorem wrap_add_ne {start : Int} {j k : Nat} (hjk : j < k) (hk : (k : Int) < n) :
    wrap n (start + j) ≠ wrap n (start + k) := by
  unfold wrap
  split <;> split <;> omega

/-- Storing behind a window appends to it. -/
theorem window_store (xs : List α) : ∀ (buf : Int → α) (start : Int) (count : Nat),
    0 ≤ start → start < n → (count + xs.length : Int) ≤ n →
      window n (store n buf (wrap n (start + count)) xs) start (count + xs.length)
        = window n buf start count ++ xs := by
  -- Each element stored joins the window, so the window and the buffer vary
  -- with the list.
  induction xs with
  | nil =>
      intro buf start count _ _ _
      simp only [store, List.length_nil, Nat.add_zero, List.append_nil]
  | cons x xs ih =>
      intro buf start count hs hsn hlen
      rw [List.length_cons] at hlen ⊢
      have hnext : wrap n (wrap n (start + count) + 1) = wrap n (start + (count + 1 : Nat)) := by
        rw [wrap_wrap (by omega) hsn (by omega)]
        push_cast
        rfl
      -- The element just stored extends the window by one, then the rest follow.
      have hone : window n (Function.update buf (wrap n (start + count)) x) start (count + 1)
          = window n buf start count ++ [x] := by
        rw [window_add _ hsn (by omega)]
        congr 1
        · -- The slot behind the window is none of its own: it is not a full turn.
          exact window_update buf start _ count x
            (fun k hk => wrap_add_ne hk (by omega))
        · simp only [window, List.range_one, List.map_cons, List.map_nil, Int.natCast_zero,
            Int.add_zero]
          rw [wrap_of_lt (wrap_lt (by omega)), Function.update_self]
      have hrec := ih (Function.update buf (wrap n (start + count)) x) start (count + 1) hs hsn
        (by push_cast at hlen ⊢; omega)
      rw [hone] at hrec
      rw [store, hnext, show count + (xs.length + 1) = count + 1 + xs.length by omega, hrec,
        List.append_assoc, List.singleton_append]

end Ring

end Lib

end KernelModules
