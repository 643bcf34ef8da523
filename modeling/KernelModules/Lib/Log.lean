import Mathlib.Algebra.BigOperators.Ring.List
import Mathlib.Algebra.Ring.Nat

/-!
# Circular Logs

Records of varying length in a memory that is used over and over. A writer
appends records at one end and a reader takes them at the other. A record
starts at its place modulo the length of the log and lies in one piece, so
the memory has to be longer than the log by as much as a record may go beyond
its end.

A place is how much room all the records before take, counted from the
beginning and never reduced. Two records that are less than a turn apart do
not touch each other (`apart`), although each may start at the front while the
other one goes beyond the end. So what was written stays until it is read, as
long as the unread records and the new one take no more than a turn
(`Kept.append`).

## Main definitions

* `write`, `read`: Cells written and read from an offset on.
* `place`: The place of a record.
* `Kept`: The records that were not read are in the memory.

## Theorems

* `read_write_self`, `read_write_of_apart`: What is read after a write.
* `place_append`, `place_succ`, `place_mono`, `place_dvd`: Places.
* `apart`: Records less than a turn apart.
* `Kept.append`, `Kept.advance`: The writer and the reader.
-/

namespace KernelModules

namespace Lib

namespace Log

variable {β ρ : Type*}

/-- The memory with these cells from an offset on. -/
def write (mem : Nat → β) (o : Nat) (bs : List β) (x : Nat) : β :=
  if o ≤ x then bs[x - o]?.getD (mem x) else mem x

/-- The `n` cells from an offset on. -/
def read (mem : Nat → β) (o n : Nat) : List β := (List.range n).map fun k => mem (o + k)

/-- How much room the first `k` records take. -/
def place (room : ρ → Nat) (rs : List ρ) (k : Nat) : Nat := ((rs.take k).map room).sum

/-- The records from the `n`-th on are in the memory, each at its place. -/
def Kept (len : Nat) (room : ρ → Nat) (image : ρ → List β) (mem : Nat → β) (rs : List ρ)
    (n : Nat) : Prop :=
  ∀ k r, n ≤ k → rs[k]? = some r →
    read mem (place room rs k % len) (image r).length = image r

section Memory

variable {mem : Nat → β} {o o' n : Nat} {bs : List β}

@[simp] theorem read_length (mem : Nat → β) (o n : Nat) : (read mem o n).length = n := by
  rw [read, List.length_map, List.length_range]

theorem read_getElem? {k : Nat} (hk : k < n) : (read mem o n)[k]? = some (mem (o + k)) := by
  rw [read, List.getElem?_map, List.getElem?_range hk, Option.map_some]

/-- What is read in one go is what is read in two. -/
theorem read_add (mem : Nat → β) (o m n : Nat) :
    read mem o (m + n) = read mem o m ++ read mem (o + m) n := by
  simp only [read, List.range_add, List.map_append, List.map_map, Function.comp_def, Nat.add_assoc]

theorem read_write_self (mem : Nat → β) (o : Nat) (bs : List β) :
    read (write mem o bs) o bs.length = bs := by
  refine List.ext_getElem? fun k => ?_
  by_cases hk : k < bs.length
  · rw [read_getElem? hk, write, if_pos (Nat.le_add_right o k), Nat.add_sub_cancel_left,
      List.getElem?_eq_getElem hk, Option.getD_some]
  · rw [List.getElem?_eq_none (by rw [read_length]; omega), List.getElem?_eq_none (by omega)]

theorem read_write_of_apart (h : o' + n ≤ o ∨ o + bs.length ≤ o') :
    read (write mem o bs) o' n = read mem o' n := by
  refine List.map_congr_left fun k hk => ?_
  rw [List.mem_range] at hk
  rw [write]
  by_cases hbehind : o ≤ o' + k
  · rw [if_pos hbehind, List.getElem?_eq_none (by omega), Option.getD_none]
  · rw [if_neg hbehind]

end Memory

section Places

variable {room : ρ → Nat} {rs : List ρ}

theorem place_succ {k : Nat} {r : ρ} (hk : rs[k]? = some r) :
    place room rs (k + 1) = place room rs k + room r := by
  rw [place, List.take_add_one, hk, Option.toList_some, List.map_append, List.sum_append,
    List.map_cons, List.map_nil, List.sum_singleton, place]

theorem place_mono {k k' : Nat} (hk : k ≤ k') : place room rs k ≤ place room rs k' := by
  obtain ⟨j, rfl⟩ := Nat.exists_eq_add_of_le hk
  rw [place, place, List.take_add, List.map_append, List.sum_append]
  exact Nat.le_add_right _ _

/-- Where every record takes whole words, places are at words. -/
theorem place_dvd {m : Nat} (hroom : ∀ r, m ∣ room r) (k : Nat) : m ∣ place room rs k := by
  refine List.dvd_sum fun x hx => ?_
  rcases List.mem_map.mp hx with ⟨r, _, rfl⟩
  exact hroom r

/-- The records that follow do not matter to a place. -/
theorem place_append (rs' : List ρ) {k : Nat} (hk : k ≤ rs.length) :
    place room (rs ++ rs') k = place room rs k := by
  rw [place, List.take_append_of_le_length hk, place]

end Places

/-- Two pieces of memory, each at its place modulo a length, are apart if the
    second one is behind the first and ends within a turn of its beginning. -/
theorem apart {len p m q n : Nat} (hlen : 0 < len) (hbehind : p + m ≤ q)
    (hturn : q + n ≤ p + len) : p % len + m ≤ q % len ∨ q % len + n ≤ p % len := by
  have hp := Nat.div_add_mod p len
  have hq := Nat.div_add_mod q len
  have hplt := Nat.mod_lt p hlen
  have hqlt := Nat.mod_lt q hlen
  -- The second place is in the same turn as the first, or in the next.
  have hle : p / len ≤ q / len := Nat.div_le_div_right (by omega)
  have hge : q / len ≤ p / len + 1 := by
    rw [← Nat.add_div_right p hlen]
    exact Nat.div_le_div_right (by omega)
  rcases Nat.eq_or_lt_of_le hle with hsame | hnext
  · rw [← hsame] at hq
    omega
  · have hturns : q / len = p / len + 1 := by omega
    rw [hturns, Nat.mul_succ] at hq
    omega

section Kept

variable {len : Nat} {room : ρ → Nat} {image : ρ → List β} {mem : Nat → β} {rs : List ρ} {n : Nat}

theorem kept_nil (mem : Nat → β) : Kept len room image mem [] n := by
  intro k r _ hk
  rw [List.getElem?_nil] at hk
  exact absurd hk (Option.some_ne_none r).symm

/-- A new record leaves the unread ones alone, if together they take no more
    than a turn. -/
theorem Kept.append (hkept : Kept len room image mem rs n) (hlen : 0 < len)
    (hroom : ∀ r, (image r).length ≤ room r) {r : ρ}
    (hspace : place room rs rs.length + room r ≤ place room rs n + len) :
    Kept len room image (write mem (place room rs rs.length % len) (image r)) (rs ++ [r]) n := by
  intro k r' hn hk
  by_cases hold : k < rs.length
  · rw [List.getElem?_append_left hold] at hk
    rw [place_append [r] (Nat.le_of_lt hold)]
    refine (read_write_of_apart ?_).trans (hkept k r' hn hk)
    -- The old record ends where the next one starts, at the latest.
    have hend : place room rs (k + 1) ≤ place room rs rs.length :=
      place_mono (Nat.succ_le_of_lt hold)
    have hstart : place room rs n ≤ place room rs k := place_mono hn
    have hold' := hroom r'
    have hnew := hroom r
    rw [place_succ hk] at hend
    exact apart hlen (by omega) (by omega)
  · -- It is the new record.
    rw [List.getElem?_append_right (Nat.le_of_not_lt hold)] at hk
    have hlast : k = rs.length := by
      have hlt := (List.getElem?_eq_some_iff.mp hk).1
      rw [List.length_singleton] at hlt
      omega
    subst hlast
    rw [Nat.sub_self, List.getElem?_cons_zero, Option.some.injEq] at hk
    subst hk
    rw [place_append [r] (Nat.le_refl _), read_write_self]

/-- A record that was read need not be kept. -/
theorem Kept.advance (hkept : Kept len room image mem rs n) :
    Kept len room image mem rs (n + 1) :=
  fun k r hn hk => hkept k r (Nat.le_of_succ_le hn) hk

end Kept

end Log

end Lib

end KernelModules
