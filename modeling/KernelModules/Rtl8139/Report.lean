import KernelModules.Lib.Record
import KernelModules.Lib.Run

/-!
# The Report of 8139regs.c

The module `8139regs` prints the registers of the card to `/proc/8139regs`.
`my_proc` prints all of them every time it is called, whatever part of the
file is asked for, and does not set `*eof`. The kernel calls it once for each
part of the file that a reader gets, and takes the part from behind the
position of the reader.

So a reader with a small buffer gets its report from several calls, between
which the registers change. What holds it together is that every field has a
fixed width: the reports of any two register contents have the same length and
the same fields in the same places. A report that was read in parts is one
report long, and every field in it can be read. Only its digits may come from
different calls.

## Main definitions

* `readb`, `readw`, `readl`: Registers of one, two and four bytes.
* `Item`, `myProcItems`, `myProc`: The calls of `sprintf`, and the report.
* `readRound`: What the kernel hands to the reader of one call.
* `InParts`: The law of reports that are read in parts.

## Theorems

* `valued`: Every register fits its field.
* `scan_myProc`: A report gives back the registers.
* `myProc_length`: The length of a report.
* `run_inParts`: The law, for any reads and any registers.
-/

namespace KernelModules

namespace Rtl8139

namespace Report

open Lib Record

/-- The registers of the card, by offset. -/
abbrev Registers := Nat → BitVec 8

def readb (io : Registers) (offset : Nat) : BitVec 8 := io offset

def readw (io : Registers) (offset : Nat) : BitVec 16 := io (offset + 1) ++ io offset

def readl (io : Registers) (offset : Nat) : BitVec 32 :=
  readw io (offset + 2) ++ readw io offset

/-- A piece of a format string, with the register it prints. -/
inductive Item where
  | text (s : String)
  | readb (offset : Nat)
  | readw (offset : Nat)
  | readl (offset : Nat)

def Item.piece : Item → Piece
  | .text s => .text s.toList
  | .readb _ => .hex 2
  | .readw _ => .hex 4
  | .readl _ => .hex 8

/-- The value that is printed, if any. -/
def Item.value (io : Registers) : Item → Option Nat
  | .text _ => none
  | .readb offset => some (Report.readb io offset).toNat
  | .readw offset => some (Report.readw io offset).toNat
  | .readl offset => some (Report.readl io offset).toNat

def legend : String := "RealTek-8139 Network Controller register-values"

/-- The title. `%13s` fills up a blank with twelve more. -/
def titleItems : List Item :=
  [.text "\n\n ", .text "             ", .text " ", .text legend, .text " \n"]

def controlItems : List Item :=
  [.text "\n      ",
    .text " CR=", .readb 0x37, .text "   ",
    .text " TCR=", .readl 0x40, .text "  ",
    .text " RCR=", .readl 0x44, .text "  ",
    .text "   MAC="]

def macItems : List Item :=
  (List.range 6).flatMap fun i => [.readb i, .text (if i < 5 then ":" else " ")]

def transmitItems : List Item :=
  [.text "\n", .text "\n      ",
    .text "  TSD0=", .readl 0x10, .text " ",
    .text "  TSD1=", .readl 0x14, .text " ",
    .text "  TSD2=", .readl 0x18, .text " ",
    .text "  TSD3=", .readl 0x1C, .text " ",
    .text "\n      ",
    .text " TSAD0=", .readl 0x20, .text " ",
    .text " TSAD1=", .readl 0x24, .text " ",
    .text " TSAD2=", .readl 0x28, .text " ",
    .text " TSAD3=", .readl 0x2C, .text " "]

def receiveItems : List Item :=
  [.text "\n", .text "\n      ",
    .text " RBSTART=", .readl 0x30, .text " ",
    .text " CAPR=", .readw 0x38, .text " ",
    .text " CABR=", .readw 0x3A, .text " ",
    .text "   ",
    .text " ERBCR=", .readw 0x34, .text " ",
    .text " ERSR=", .readb 0x36, .text " "]

def interruptItems : List Item :=
  [.text "\n", .text "\n      ",
    .text " IMR=", .readw 0x3C, .text "  ",
    .text " MULINT=", .readw 0x5C, .text " ",
    .text "   TSAD=", .readw 0x60, .text "   ",
    .text " REC=", .readb 0x72, .text " ",
    .text " DIS=", .readb 0x6C, .text " ",
    .text " FCSC=", .readb 0x6E, .text " ",
    .text "\n", .text "\n\n"]

/-- The calls of `sprintf` in their order. -/
def myProcItems : List Item :=
  titleItems ++ controlItems ++ macItems ++ transmitItems ++ receiveItems ++ interruptItems

/-- The format of the report, its fields in the order of the calls. -/
def format : List Piece := myProcItems.map Item.piece

def values (io : Registers) : List Nat := myProcItems.filterMap (Item.value io)

/-- `my_proc`: what it leaves in `buf`. It returns the length. -/
def myProc (io : Registers) : List Char := render format (values io)

/-- One round of the kernel's loop over a read of `count` bytes, for a reader
    that has the text `got` so far: what is behind its position in the report
    of this call, up to the count. -/
def readRound (io : Registers) (count : Nat) (got : List Char) : List Char :=
  ((myProc io).drop got.length).take count

/-- A round, with the registers as they are then. -/
abbrev Round := Registers × Nat

def step (l : Round) (got : List Char) : Option (List Char) := some (got ++ readRound l.1 l.2 got)

/-- How long every report is. -/
def reportLength : Nat := 427

def PAGE_SIZE : Nat := 4096

/-- How much was asked for in all. -/
def asked (h : History (List Char) Round) : Nat := (h.map fun p => p.2.2).sum

/-- The law of reports that are read in parts: every character is in its place
    in the report of one of the calls; there are as many as were asked for, up
    to a whole report; a whole one can be scanned, and gives the registers if
    they stood still. -/
structure InParts (h : History (List Char) Round) (got : List Char) : Prop where
  places : ∀ k < got.length, ∃ p ∈ h, got[k]? = (myProc p.2.1)[k]?
  length : got.length = min (asked h) reportLength
  reads : reportLength ≤ asked h → (scan format got).isSome
  steady : ∀ io, (∀ p ∈ h, p.2.1 = io) → reportLength ≤ asked h →
    scan format got = some (values io)

section Reports

variable (io : Registers)

/-- What a call prints fits its field. -/
theorem Item.value_valued (item : Item) {items : List Item}
    (h : Valued (items.map Item.piece) (items.filterMap (Item.value io))) :
    Valued ((item :: items).map Item.piece) ((item :: items).filterMap (Item.value io)) := by
  cases item with
  | text s => exact h
  | readb offset => exact ⟨⟨by decide, (Report.readb io offset).isLt⟩, h⟩
  | readw offset => exact ⟨⟨by decide, (Report.readw io offset).isLt⟩, h⟩
  | readl offset => exact ⟨⟨by decide, (Report.readl io offset).isLt⟩, h⟩

/-- Every register fits its field. -/
theorem valued : Valued format (values io) := by
  unfold format values
  induction myProcItems with
  | nil => rfl
  | cons item items ih => exact item.value_valued io ih

theorem shape_length : (shape format).length = reportLength := by
  decide +kernel

/-- Two reports of any registers have the same length. -/
theorem myProc_length : (myProc io).length = reportLength := by
  rw [← shape_length]
  exact (render_shaped (valued io)).length

/-- A report gives back the registers. -/
theorem scan_myProc : scan format (myProc io) = some (values io) := scan_render (valued io)

/-- The page that the kernel hands to `my_proc` takes the report, with the
    zero that `sprintf` puts behind it. -/
theorem myProc_fits : (myProc io).length + 1 ≤ PAGE_SIZE := by
  rw [myProc_length]
  decide

end Reports

section Parts

variable {h : History (List Char) Round} {got : List Char}

/-- A round hands on what is asked for, or what is left. -/
theorem readRound_length (io : Registers) (count : Nat) (got : List Char) :
    (readRound io count got).length = min count (reportLength - got.length) := by
  rw [readRound, List.length_take, List.length_drop, myProc_length]

/-- A round puts every character in its place in the report of its call. -/
theorem readRound_getElem? {io : Registers} {count : Nat} {got : List Char} {k : Nat}
    (hk : k < (got ++ readRound io count got).length) (hgot : got.length ≤ k) :
    (got ++ readRound io count got)[k]? = (myProc io)[k]? := by
  rw [List.length_append, readRound_length] at hk
  rw [List.getElem?_append_right hgot, readRound, List.getElem?_take_of_lt (by omega),
    List.getElem?_drop, Nat.add_sub_of_le hgot]

/-- A reader has what it asked for, up to a report. -/
theorem run_length (hr : Run step [] h got) : got.length = min (asked h) reportLength := by
  induction hr with
  | start => rfl
  | @next h got got' l _ hs ih =>
      rw [step, Option.some.injEq] at hs
      have hasked : asked ((got, l) :: h) = l.2 + asked h := List.sum_cons
      rw [← hs, List.length_append, readRound_length, ih, hasked]
      omega

/-- The characters that a reader has are each in its place in the report of
    one of the calls. -/
theorem run_places (hr : Run step [] h got) :
    ∀ k < got.length, ∃ p ∈ h, got[k]? = (myProc p.2.1)[k]? := by
  induction hr with
  | start => exact fun k hk => absurd hk (Nat.not_lt_zero k)
  | @next h got got' l _ hs ih =>
      rw [step, Option.some.injEq] at hs
      subst hs
      intro k hk
      by_cases hold : k < got.length
      · rcases ih k hold with ⟨p, hp, hsame⟩
        exact ⟨p, List.mem_cons_of_mem _ hp, by rw [List.getElem?_append_left hold, hsame]⟩
      · exact ⟨(got, l), List.mem_cons_self, readRound_getElem? hk (Nat.le_of_not_lt hold)⟩

end Parts

/-- A report that is read in parts, each from a call of its own with the
    registers as they are then. -/
theorem run_inParts {h : History (List Char) Round} {got : List Char}
    (hr : Run step [] h got) : InParts h got := by
  have hlen := run_length hr
  have hplaces := run_places hr
  refine ⟨hplaces, hlen, fun hasked => ?_, fun io hio hasked => ?_⟩
  · rw [Nat.min_eq_right hasked, ← shape_length] at hlen
    refine scan_of_shaped (Shaped.of_places hlen fun k hk => ?_)
    rcases hplaces k hk with ⟨p, _, hsame⟩
    exact ⟨myProc p.2.1, render_shaped (valued p.2.1), hsame⟩
  · rw [Nat.min_eq_right hasked, ← myProc_length io] at hlen
    have hsame : got = myProc io := by
      refine List.ext_getElem? fun k => ?_
      by_cases hk : k < got.length
      · rcases hplaces k hk with ⟨p, hp, hsame⟩
        rw [hsame, hio p hp]
      · rw [List.getElem?_eq_none (Nat.le_of_not_lt hk),
          List.getElem?_eq_none (hlen ▸ Nat.le_of_not_lt hk)]
    rw [hsame, scan_myProc]

/-- A reader that takes two hundred bytes at a time, while all the registers
    change between the calls. -/
theorem run_inParts_three : ∃ h got, Run step [] h got ∧ got.length = reportLength ∧
    InParts h got := by
  have hstart : Run step [] [] [] := .start
  have hr := ((hstart.next (fun _ => 0x00, 200) rfl).next (fun _ => 0x5A, 200) rfl).next
    (fun _ => 0xFF, 200) rfl
  exact ⟨_, _, hr, (run_inParts hr).length.trans rfl, run_inParts hr⟩

end Report

end Rtl8139

end KernelModules
