import KernelModules.Lib.Loop
import KernelModules.Simple.Driver

/-!
# A Standard Client of the Simple Driver

A process that writes a payload to the simple driver and reads it back with
the usual loops. The writer passes what is left of its payload and advances by
what `simple_write` returns, until all is accepted or an error is returned.
The reader asks for what is missing and advances by what `simple_read`
returns, until it has all or is told the end.

Both calls return 0 when they have done what they were asked to. To the writer
that is a write that took nothing, so it writes the same bytes again, and for
ever. To the reader it is the end of the file. The bytes are in the buffer
after the first call all the same.

## Main definitions

* `payloadMem`: The payload in the client's memory.
* `Writer`, `writerLoop`: The writer.
* `Reader`, `readerLoop`: The reader.
* `client`: The writer, and the reader after it.

## Theorems

* `writeRound_stays`: A round of the writer leaves it where it was.
* `writerLoop_endless`: The writer does not end.
* `readerLoop_empty`: The reader ends with nothing.
* `client_never`: No payload is read back.
-/

namespace KernelModules

namespace Simple

open Kernel Lib

/-- What is left of a payload, in the client's memory. -/
def payloadMem (p : List UInt8) : UserMem := fun k => p[k]?

/-- How much of its payload the writer takes for accepted, whether a call has
    failed, and the driver. -/
structure Writer where
  accepted : Nat
  failed : Bool
  dev : Dev

/-- One call of the writer, with the rest of its payload. -/
def writeRound (p : List UInt8) (w : Writer) : Writer :=
  let r := simpleWrite (payloadMem (p.drop w.accepted)) (p.length - w.accepted) w.dev
  if r.1 < 0 then { w with failed := true, dev := r.2 }
  else { w with accepted := w.accepted + r.1.toNat, dev := r.2 }

def writerLoop (fuel : Nat) (p : List UInt8) (d : Dev) : Option Writer :=
  whileLoop (fun w => decide (w.accepted < p.length) && !w.failed) (fun w => some (writeRound p w))
    fuel { accepted := 0, failed := false, dev := d }

/-- What the reader has received, whether it was told the end or an error, and
    the driver. -/
structure Reader where
  received : List UInt8
  ended : Bool
  dev : Dev

/-- One call of the reader for what is missing of `n` bytes. Its count says how
    many bytes of the buffer `u` are new. -/
def readRound (u : UserMem) (n : Nat) (r : Reader) : Reader :=
  let c := simpleRead u (n - r.received.length) r.dev
  if c.1 ≤ 0 then { r with ended := true, dev := c.2.2 }
  else { r with received := r.received ++ bytes c.2.1 0 c.1.toNat, dev := c.2.2 }

def readerLoop (fuel : Nat) (u : UserMem) (n : Nat) (d : Dev) : Option Reader :=
  whileLoop (fun r => decide (r.received.length < n) && !r.ended)
    (fun r => some (readRound u n r)) fuel { received := [], ended := false, dev := d }

/-- The writer with a payload, and then the reader for as many bytes. -/
def client (fuel : Nat) (u : UserMem) (p : List UInt8) (d : Dev) : Option Reader :=
  (writerLoop fuel p d).bind fun w => readerLoop fuel u p.length w.dev

section Loops

variable {p : List UInt8} {u : UserMem} {n : Nat}

theorem payloadMem_noFault (p : List UInt8) : NoFault (payloadMem p) p.length := by
  intro k hk
  rw [payloadMem, List.getElem?_eq_getElem hk, Option.isSome_some]

/-- The payload is stored, and the writer is told that nothing was. -/
theorem writeRound_stays {w : Writer} (haccepted : w.accepted = 0) :
    writeRound p w = { w with dev := w.dev.store (bytes (payloadMem p) 0 p.length) } := by
  unfold writeRound
  rw [haccepted, List.drop_zero, Nat.sub_zero, simpleWrite_of_noFault (payloadMem_noFault p)]
  simp only [Int.lt_irrefl, if_false, Int.toNat_zero, Nat.add_zero]

/-- The writer goes on for ever. -/
theorem writerLoop_endless (hp : 1 ≤ p.length) (d : Dev) (fuel : Nat) :
    writerLoop fuel p d = none := by
  -- Nothing is accepted and no call fails, so there is another round.
  refine whileLoop_endless (I := fun w => w.accepted = 0 ∧ w.failed = false) ?_ ?_ fuel ⟨rfl, rfl⟩
  · rintro w ⟨haccepted, hfailed⟩
    rw [haccepted, hfailed, Bool.and_eq_true, decide_eq_true_eq]
    exact ⟨hp, rfl⟩
  · rintro w w' ⟨haccepted, hfailed⟩ hbody
    rw [Option.some.injEq, writeRound_stays haccepted] at hbody
    rw [← hbody]
    exact ⟨haccepted, hfailed⟩

/-- A reader on its own ends after one call, and has received nothing. -/
theorem readerLoop_empty (hn : 1 ≤ n) (hu : NoFault u n) (d : Dev) {fuel : Nat} (hfuel : 2 ≤ fuel) :
    ∃ r, readerLoop fuel u n d = some r ∧ r.received = [] := by
  rcases Nat.exists_eq_add_of_le' hfuel with ⟨m, rfl⟩
  rcases simpleRead_of_noFault (d := d) hu with ⟨u', -, hread⟩
  have hround : readRound u n { received := [], ended := false, dev := d } =
      { received := [], ended := true, dev := d.touch n } := by
    unfold readRound
    simp only [List.length_nil, Nat.sub_zero, hread, Int.le_refl, if_true]
  -- The first call asks for all, and its zero ends the loop.
  have htest : (decide (([] : List UInt8).length < n) && !false) = true := by
    rw [Bool.and_eq_true, decide_eq_true_eq]
    exact ⟨hn, rfl⟩
  refine ⟨{ received := [], ended := true, dev := d.touch n }, ?_, rfl⟩
  show whileLoop _ _ (m + 1 + 1) _ = _
  rw [whileLoop, if_pos htest, Option.bind_some, hround, whileLoop, if_neg]
  simp only [Bool.not_true, Bool.and_false, Bool.false_eq_true, not_false_eq_true]

/-- No payload comes back to a client: it does not get to its end. -/
theorem client_never (hp : 1 ≤ p.length) (u : UserMem) (d : Dev) :
    ¬ ∃ fuel r, client fuel u p d = some r ∧ r.received = p := by
  rintro ⟨fuel, r, hclient, -⟩
  rw [client, writerLoop_endless hp d fuel, Option.bind_none] at hclient
  exact nomatch hclient

/-- A payload of three letters, and a reader with room for them. -/
theorem client_never_letters : ¬ ∃ fuel r,
    client fuel (fun _ => some 0) [97, 98, 99] (simpleInit fun _ => 1) = some r ∧
      r.received = [97, 98, 99] :=
  client_never (by decide) _ _

/-- The first letters that the repository's test program writes: they are in the
    buffer after one call, and the writer writes them for ever. -/
theorem client_alphabet :
    writeRound [97, 98, 99] { accepted := 0, failed := false, dev := simpleInit fun _ => 1 } =
        { accepted := 0, failed := false, dev := (simpleInit fun _ => 1).store [97, 98, 99] } ∧
      ∀ fuel, client fuel (fun _ => some 0) [97, 98, 99] (simpleInit fun _ => 1) = none := by
  refine ⟨writeRound_stays rfl, fun fuel => ?_⟩
  rw [client, writerLoop_endless (by decide), Option.bind_none]

end Loops

end Simple

end KernelModules
