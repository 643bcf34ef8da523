import Mathlib.Algebra.Ring.Nat
import Mathlib.Data.List.Forall2
import Mathlib.Data.Nat.Log

/-!
# Records of Fixed Width

Texts that are printed from a format of literal pieces and hexadecimal fields,
and read back from it. A field has a width and prints that many digits at
least, the way `%0wX` does; where every value fits its field, the text has the
length that the format gives, whatever the values.

That is what makes such a text robust. It can be scanned again, and gives back
the values (`scan_render`). And any two texts of one format have literals and
digits in the same places, so that a text put together from pieces of several
of them, each piece in its place, can be scanned as well (`Shaped.of_places`).

## Main definitions

* `hexDigits`, `printX`: The digits of a number, and what `%0wX` prints.
* `hexNumber`: The number that digits stand for.
* `Piece`, `render`, `scan`: Formats, printing and reading.
* `Valued`: As many values as fields, each fitting its own.
* `shape`, `Shaped`: Where the literals and the digits are.

## Theorems

* `hexNumber_hexDigits`, `printX_of_lt`: Fields read back.
* `scan_render`: Texts read back.
* `render_shaped`, `scan_of_shaped`: Printing gives a shape, and a shape can
  be read.
* `Shaped.of_places`: Texts of one format put together.
-/

namespace KernelModules

namespace Lib

namespace Record

/-- The digits in the order of their values. -/
def digits : List Char := "0123456789ABCDEF".toList

def hexDigit (n : Nat) : Char := digits.getD n '0'

def hexValue (c : Char) : Option Nat := digits.idxOf? c

/-- The last `w` digits of a number. -/
def hexDigits : (w v : Nat) → List Char
  | 0, _ => []
  | w + 1, v => hexDigits w (v / 16) ++ [hexDigit (v % 16)]

/-- `%0wX`: all the digits of a number, and zeros up to the width. -/
def printX (w v : Nat) : List Char := hexDigits (max w (Nat.log 16 v + 1)) v

/-- The number that digits stand for. -/
def hexNumber (cs : List Char) : Option Nat :=
  cs.foldlM (fun v c => (hexValue c).map fun d => 16 * v + d) 0

/-- A piece of a format. -/
inductive Piece where
  | text (s : List Char)
  | hex (w : Nat)

/-- A format printed with the values of its fields. -/
def render : List Piece → List Nat → List Char
  | [], _ => []
  | .text s :: ps, vs => s ++ render ps vs
  | .hex w :: ps, v :: vs => printX w v ++ render ps vs
  | .hex _ :: _, [] => []

/-- The values of the fields read back from a text. -/
def scan : List Piece → List Char → Option (List Nat)
  | [], cs => if cs = [] then some [] else none
  | .text s :: ps, cs => if cs.take s.length = s then scan ps (cs.drop s.length) else none
  | .hex w :: ps, cs =>
    if w ≤ cs.length then
      (hexNumber (cs.take w)).bind fun v => (scan ps (cs.drop w)).map fun vs => v :: vs
    else none

/-- There is a value for every field, and it fits. -/
def Valued : List Piece → List Nat → Prop
  | [], vs => vs = []
  | .text _ :: ps, vs => Valued ps vs
  | .hex w :: ps, v :: vs => (0 < w ∧ v < 16 ^ w) ∧ Valued ps vs
  | .hex _ :: _, [] => False

/-- The characters of a piece: a literal, or a digit that is left open. -/
def Piece.shape : Piece → List (Option Char)
  | .text s => s.map some
  | .hex w => List.replicate w none

def shape (ps : List Piece) : List (Option Char) := ps.flatMap Piece.shape

/-- A character is the literal, or a digit. -/
def Takes (c : Char) : Option Char → Prop
  | some a => c = a
  | none => (hexValue c).isSome

/-- A text has the literals and the digits of a format in their places. -/
def Shaped (ps : List Piece) (cs : List Char) : Prop := List.Forall₂ Takes cs (shape ps)

section Numbers

variable {w v : Nat}

theorem hexValue_hexDigit : ∀ n < 16, hexValue (hexDigit n) = some n := by decide

@[simp] theorem hexDigits_length (w v : Nat) : (hexDigits w v).length = w := by
  induction w generalizing v with
  | zero => rfl
  | succ w ih => rw [hexDigits, List.length_append, ih, List.length_singleton]

theorem hexDigits_digit (w v : Nat) : ∀ c ∈ hexDigits w v, (hexValue c).isSome := by
  induction w generalizing v with
  | zero => exact fun c hc => absurd hc List.not_mem_nil
  | succ w ih =>
      intro c hc
      rw [hexDigits, List.mem_append, List.mem_singleton] at hc
      rcases hc with hc | rfl
      · exact ih _ c hc
      · rw [hexValue_hexDigit _ (Nat.mod_lt v (by decide)), Option.isSome_some]

/-- A number that has no more digits is read back from them. -/
theorem hexNumber_hexDigits (hv : v < 16 ^ w) : hexNumber (hexDigits w v) = some v := by
  induction w generalizing v with
  | zero =>
      rw [Nat.pow_zero, Nat.lt_one_iff] at hv
      rw [hv]
      rfl
  | succ w ih =>
      rw [Nat.pow_succ] at hv
      have hhead := ih (v := v / 16) (Nat.div_lt_of_lt_mul (by omega))
      unfold hexNumber at hhead ⊢
      rw [hexDigits, List.foldlM_append, hhead]
      simp only [Option.bind_eq_bind, Option.bind_some, List.foldlM_cons, List.foldlM_nil,
        hexValue_hexDigit _ (Nat.mod_lt v (by decide : 16 > 0)), Option.map_some, Option.pure_def,
        Nat.div_add_mod]

/-- A value that fits its field prints as many digits as the field has. -/
theorem printX_of_lt (hw : 0 < w) (hv : v < 16 ^ w) : printX w v = hexDigits w v := by
  have hlog : Nat.log 16 v + 1 ≤ w := by
    by_cases hzero : v = 0
    · rw [hzero, Nat.log_zero_right]
      omega
    · exact Nat.log_lt_of_lt_pow hzero hv
  rw [printX, Nat.max_eq_left hlog]

/-- Digits stand for a number. -/
theorem hexNumber_isSome {cs : List Char} (h : ∀ c ∈ cs, (hexValue c).isSome) :
    (hexNumber cs).isSome := by
  unfold hexNumber
  generalize 0 = v
  -- The number read so far goes along.
  induction cs generalizing v with
  | nil => rfl
  | cons c cs ih =>
      rcases Option.isSome_iff_exists.mp (h c List.mem_cons_self) with ⟨d, hd⟩
      rw [List.foldlM_cons, hd]
      exact ih (fun c hc => h c (List.mem_cons_of_mem _ hc)) _

end Numbers

section Texts

variable {ps : List Piece} {vs : List Nat} {cs : List Char}

/-- What was printed is read back. -/
theorem scan_render (h : Valued ps vs) : scan ps (render ps vs) = some vs := by
  induction ps generalizing vs with
  | nil => rw [show vs = [] from h]; rfl
  | cons p ps ih =>
      cases p with
      | text s =>
          rw [render, scan, List.take_left, if_pos rfl, List.drop_left]
          exact ih h
      | hex w =>
          cases vs with
          | nil => exact h.elim
          | cons v vs =>
              rcases h with ⟨⟨hw, hv⟩, hrest⟩
              have hlen := hexDigits_length w v
              rw [render, scan, printX_of_lt hw hv, if_pos (by rw [List.length_append]; omega),
                List.take_left' hlen, List.drop_left' hlen, hexNumber_hexDigits hv, ih hrest]
              rfl

/-- A literal takes itself. -/
theorem takes_text_iff {s : List Char} : List.Forall₂ Takes cs (Piece.text s).shape ↔ cs = s := by
  rw [Piece.shape, List.forall₂_map_right_iff, ← List.forall₂_eq_eq_eq]
  exact Iff.rfl

/-- A field takes digits, as many as it has. -/
theorem takes_hex_iff {w : Nat} : List.Forall₂ Takes cs (Piece.hex w).shape ↔
    cs.length = w ∧ ∀ c ∈ cs, (hexValue c).isSome := by
  rw [Piece.shape]
  induction w generalizing cs with
  | zero =>
      rw [List.replicate_zero, List.forall₂_nil_right_iff, List.length_eq_zero_iff]
      exact ⟨fun h => ⟨h, fun c hc => by rw [h] at hc; exact absurd hc List.not_mem_nil⟩,
        fun h => h.1⟩
  | succ w ih =>
      rw [List.replicate_succ, List.forall₂_cons_right_iff]
      constructor
      · rintro ⟨c, cs, hc, hcs, rfl⟩
        rcases ih.mp hcs with ⟨hlen, hdigits⟩
        exact ⟨by rw [List.length_cons, hlen], List.forall_mem_cons.mpr ⟨hc, hdigits⟩⟩
      · rintro ⟨hlen, hdigits⟩
        cases cs with
        | nil => exact absurd hlen (Nat.succ_ne_zero w).symm
        | cons c cs =>
            rcases List.forall_mem_cons.mp hdigits with ⟨hc, hdigits⟩
            rw [List.length_cons, Nat.add_right_cancel_iff] at hlen
            exact ⟨c, cs, hc, ih.mpr ⟨hlen, hdigits⟩, rfl⟩

/-- Printing gives the shape of the format. -/
theorem render_shaped (h : Valued ps vs) : Shaped ps (render ps vs) := by
  induction ps generalizing vs with
  | nil => exact .nil
  | cons p ps ih =>
      rw [Shaped, shape, List.flatMap_cons]
      cases p with
      | text s =>
          rw [render]
          exact List.rel_append (takes_text_iff.mpr rfl) (ih h)
      | hex w =>
          cases vs with
          | nil => exact h.elim
          | cons v vs =>
              rcases h with ⟨⟨hw, hv⟩, hrest⟩
              rw [render, printX_of_lt hw hv]
              refine List.rel_append (takes_hex_iff.mpr ?_) (ih hrest)
              exact ⟨hexDigits_length w v, hexDigits_digit w v⟩

/-- Every text of the shape can be read. -/
theorem scan_of_shaped (h : Shaped ps cs) : (scan ps cs).isSome := by
  induction ps generalizing cs with
  | nil =>
      rw [List.forall₂_nil_right_iff.mp h]
      rfl
  | cons p ps ih =>
      rw [Shaped, shape, List.flatMap_cons] at h
      have hhead := List.forall₂_take_append cs _ _ h
      have hrest := ih (List.forall₂_drop_append cs _ _ h)
      cases p with
      | text s =>
          rw [takes_text_iff] at hhead
          rw [Piece.shape, List.length_map] at hhead hrest
          rw [scan, if_pos hhead]
          exact hrest
      | hex w =>
          rcases takes_hex_iff.mp hhead with ⟨hlen, hdigits⟩
          rw [Piece.shape, List.length_replicate] at hlen hdigits hrest
          rcases Option.isSome_iff_exists.mp (hexNumber_isSome hdigits) with ⟨v, hv⟩
          rcases Option.isSome_iff_exists.mp hrest with ⟨vs, hvs⟩
          rw [scan, if_pos (by rw [List.length_take] at hlen; omega), hv, Option.bind_some, hvs]
          rfl

theorem Shaped.length (h : Shaped ps cs) : cs.length = (shape ps).length :=
  List.Forall₂.length_eq h

/-- A text each of whose characters is in its place in some text of the format
    has the shape of the format. -/
theorem Shaped.of_places (hlen : cs.length = (shape ps).length)
    (hplaces : ∀ k < cs.length, ∃ cs', Shaped ps cs' ∧ cs[k]? = cs'[k]?) : Shaped ps cs := by
  refine List.forall₂_iff_get.mpr ⟨hlen, fun k hk hk' => ?_⟩
  rcases hplaces k hk with ⟨cs', hcs', hsame⟩
  have hlt : k < cs'.length := by rw [hcs'.length]; exact hk'
  rw [List.getElem?_eq_getElem hk, List.getElem?_eq_getElem hlt, Option.some.injEq] at hsame
  have htakes := (List.forall₂_iff_get.mp hcs').2 k hlt hk'
  simp only [List.get_eq_getElem] at htakes ⊢
  rw [hsame]
  exact htakes

end Texts

end Record

end Lib

end KernelModules
