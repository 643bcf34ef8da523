import KernelModules.Poll.Calls
import Mathlib.Data.List.TakeWhile

/-!
# The Client of test_pollRW.c

The loop of the poll device's test program, composed with the device: one
process that writes a string to the device and reads it back, a piece at a
time, asking `poll` before every round. Nobody else has the device open, so
each of its calls runs alone, as in `Poll.Calls`.

The client is careful about partial transfers and careless about the rest. It
asks `read` for all that is missing, into a buffer of 40 bytes; it does not
move `wbuf` when the last piece is written; and it writes on the strength of
an answer from before its own read. It works because of the ring: a read
empties it, so a write always finds it empty, and it never holds more than the
buffer takes.

The string is a list of bytes, with a NUL behind it in memory. The counts that
calls return never pass `N - 1`, so their conversion to an `int` is left out;
the one of `strlen` to `total_bytes` is kept.

## Main definitions

* `Main`: The variables of `main`, and what its reads delivered.
* `Status`: How far the loop is.
* `readPart`, `writePart`, `round`, `loop`: The loop.
* `Inv`: The invariant of the loop.

## Theorems

* `readPart_last`, `readPart_more`: A read empties the ring.
* `deviceWrite_empty`, `writePart_eq`: A write finds it empty.
* `round_inv`: One round keeps the invariant and gets closer to the end.
* `loop_finishes`: The loop finishes with the string read back.
* `client_delivers`: The client works for every string.
-/

namespace KernelModules

namespace Poll

namespace Client

open Kernel Lib Calls

def BUFSIZE : Nat := 40

/-- A `size_t` assigned to an `int`. -/
def toInt (n : Nat) : Int := (n : Int).bmod (2 ^ 32)

/-- An `int` passed or compared as a `size_t`. -/
def toSize (n : Int) : Nat := (n % 2 ^ 64).toNat

def strlen (s : List UInt8) : Nat := (s.takeWhile (· ≠ 0)).length

/-- A string in memory, with the byte that ends it. -/
def stringMem (s : List UInt8) : UserMem := fun k => (s ++ [0])[k]?

/-- `rbuf` after the `memset`. -/
def rbufMem : UserMem := fun k => if k < BUFSIZE then some 0 else none

/-- The device and the variables of `main`: what is to be read, the string
    `wbuf` points to, and the bytes each read has put into `rbuf`. -/
structure Main where
  dev : Dev
  totalBytes : Int
  wbuf : List UInt8
  reads : List (List UInt8)

/-- The loop is running, was left with all data read, was left by an error,
    or is stuck in a call or in `poll`. -/
inductive Status where
  | running (m : Main)
  | finished (m : Main)
  | failed
  | callWaits
  | pollWaits

def readPart (N : Nat) (m : Main) : Status :=
  match deviceRead N false (toSize m.totalBytes) m.dev rbufMem with
  | .waits => .callWaits
  | .done (ret, d, u) =>
    if ret < 0 then .failed
    else
      -- `if(ret < total_bytes)`, both of them ints.
      let m' := { m with dev := d, reads := m.reads ++ [bytes u 0 ret.toNat] }
      if ret < m.totalBytes then .running { m' with totalBytes := m.totalBytes - ret }
      else .finished m'

def writePart (N : Nat) (m : Main) : Status :=
  match deviceWrite N false (strlen m.wbuf) m.dev (stringMem m.wbuf) with
  | .waits => .callWaits
  | .done (ret, d) =>
    if ret < 0 then .failed
    -- Here `ret` is compared with a `size_t`, and so becomes one.
    else if toSize ret < strlen m.wbuf then
      .running { m with dev := d, wbuf := m.wbuf.drop ret.toNat }
    else .running { m with dev := d }

/-- One round of the `while` loop. Both parts use the events `poll` reported. -/
def round (N : Nat) (m : Main) : Status :=
  let revents := devicePoll m.dev
  if revents &&& POLLIN = 0 ∧ revents &&& POLLOUT = 0 then .pollWaits
  else
    -- The mask of the write is older than the read before it.
    match (if revents &&& POLLIN ≠ 0 then readPart N m else .running m) with
    | .running m' => if revents &&& POLLOUT ≠ 0 then writePart N m' else .running m'
    | r => r

/-- At most `n` rounds. -/
def loop (N : Nat) : (n : Nat) → Main → Status
  | 0, m => .running m
  | n + 1, m =>
    match round N m with
    | .running m' => loop N n m'
    | r => r

/-- `main` before its loop, with the string `s` to be written. -/
def Main.start (d : Dev) (s : List UInt8) : Main :=
  { dev := d, totalBytes := toInt (strlen s), wbuf := s, reads := [] }

/-- The string is what was read, what the ring holds and what is still to be
    written, in this order. What is still to be written is what `wbuf` points
    to, or nothing. -/
structure Inv (N : Nat) (s : List UInt8) (m : Main) (rest : List UInt8) : Prop where
  dev : m.dev.Ok N
  split : s = m.reads.flatten ++ (m.dev.contents N ++ rest)
  total : m.totalBytes = (m.dev.contents N ++ rest).length
  pending : m.dev.contents N ++ rest ≠ []
  wbuf : rest = m.wbuf ∨ rest = []
  reads : ∀ r ∈ m.reads, r.length ≤ N - 1

/-- What is left to be done: every byte not yet read counts twice, and an
    empty ring once. -/
def measure (N : Nat) (m : Main) (rest : List UInt8) : Nat :=
  2 * (m.dev.contents N ++ rest).length + (if m.dev.contents N = [] then 1 else 0)

theorem toInt_of_lt {n : Nat} (h : n < 2 ^ 31) : toInt n = n := by
  unfold toInt
  exact Int.bmod_eq_of_le (by omega) (by omega)

theorem toSize_natCast {n : Nat} (h : n < 2 ^ 64) : toSize (n : Int) = n := by
  unfold toSize
  omega

theorem strlen_of_notMem {s : List UInt8} (h : (0 : UInt8) ∉ s) : strlen s = s.length := by
  unfold strlen
  rw [List.takeWhile_eq_self_iff.mpr]
  intro b hb
  exact decide_eq_true fun hzero => h (hzero ▸ hb)

theorem bytes_stringMem (s : List UInt8) {n : Nat} (hn : n ≤ s.length) :
    bytes (stringMem s) 0 n = s.take n := by
  refine List.ext_getElem (by rw [bytes_length, List.length_take]; omega) fun k hk hk' => ?_
  rw [bytes_length] at hk
  have hks : k < (s ++ [0]).length := by
    rw [List.length_append]
    omega
  simp only [bytes, List.getElem_map, List.getElem_range, Nat.zero_add, getUser, stringMem,
    List.getElem?_eq_getElem hks, Option.getD_some, List.getElem_take]
  exact List.getElem_append_left (by omega)

theorem noFault_rbufMem {n : Nat} (h : n ≤ BUFSIZE) : NoFault rbufMem n := by
  intro k hk
  simp only [rbufMem, if_pos (show k < BUFSIZE by omega), Option.isSome_some]

section Parts

variable {N : Nat} {s rest : List UInt8} {m : Main}

theorem isBufferEmpty_eq_false {d : Dev} (hd : d.Ok N) (hne : d.contents N ≠ []) :
    isBufferEmpty d = false := by
  rw [← Bool.not_eq_true, ← hd.held_eq_zero_iff, ← contents_length, List.length_eq_zero_iff]
  exact hne

theorem isBufferEmpty_of_nil {d : Dev} (hd : d.Ok N) (hnil : d.contents N = []) :
    isBufferEmpty d = true := by
  rw [← hd.held_eq_zero_iff, ← contents_length, hnil, List.length_nil]

/-- What is missing fits the arguments of `read`. -/
theorem Inv.toSize_total (hm : Inv N s m rest) (hlen : s.length < 2 ^ 31) :
    toSize m.totalBytes = m.dev.held N + rest.length := by
  have hs := congrArg List.length hm.split
  rw [List.length_append] at hs
  rw [hm.total, toSize_natCast (by omega), List.length_append, contents_length]

/-- A read takes all the ring holds and puts it into `rbuf`. -/
theorem deviceRead_all (hN : N ≤ BUFSIZE + 1) (hm : Inv N s m rest) (hlen : s.length < 2 ^ 31)
    (hne : m.dev.contents N ≠ []) :
    ∃ d u, deviceRead N false (toSize m.totalBytes) m.dev rbufMem =
        .done ((m.dev.held N : Int), d, u) ∧
      bytes u 0 (m.dev.held N) = m.dev.contents N ∧ d.Ok N ∧ d.contents N = [] := by
  have hlt := hm.dev.held_lt
  have hmin : min (toSize m.totalBytes) (m.dev.held N) = m.dev.held N := by
    rw [hm.toSize_total hlen]
    omega
  refine ⟨(readTransfer N (toSize m.totalBytes) m.dev rbufMem).2.1,
    (readTransfer N (toSize m.totalBytes) m.dev rbufMem).2.2, ?_, ?_,
    readTransfer_ok hm.dev (toSize m.totalBytes) rbufMem, ?_⟩
  · rw [deviceRead, isBufferEmpty_eq_false hm.dev hne, if_neg Bool.false_ne_true,
      readTransfer_count hm.dev, hmin]
  · have hbytes := readTransfer_bytes hm.dev (toSize m.totalBytes) rbufMem
      (noFault_rbufMem (by omega))
    rw [hmin, List.take_of_length_le (by rw [contents_length])] at hbytes
    exact hbytes
  · rw [readTransfer_contents hm.dev, hmin, List.drop_eq_nil_of_le (by rw [contents_length])]

/-- With all written, a read gets what is missing and the loop is left. -/
theorem readPart_last (hN : N ≤ BUFSIZE + 1) (hm : Inv N s m []) (hlen : s.length < 2 ^ 31) :
    ∃ m', readPart N m = .finished m' ∧ m'.reads.flatten = s ∧
      ∀ r ∈ m'.reads, r.length ≤ N - 1 := by
  have hlt := hm.dev.held_lt
  have hne : m.dev.contents N ≠ [] := by
    have h := hm.pending
    rwa [List.append_nil] at h
  rcases deviceRead_all hN hm hlen hne with ⟨d, u, hread, hbytes, -, -⟩
  have htotal : m.totalBytes = (m.dev.held N : Int) := by
    rw [hm.total, List.append_nil, contents_length]
  refine ⟨{ m with dev := d, reads := m.reads ++ [m.dev.contents N] }, ?_, ?_, ?_⟩
  · simp only [readPart, hread]
    rw [if_neg (by omega), htotal, if_neg (by omega), Int.toNat_natCast, hbytes]
  · rw [List.flatten_append, List.flatten_singleton]
    have h := hm.split
    rw [List.append_nil] at h
    exact h.symm
  · intro r hr
    rcases List.mem_append.mp hr with hr | hr
    · exact hm.reads r hr
    · rw [List.mem_singleton.mp hr, contents_length]
      omega

/-- With something left to be written, a read empties the ring and the loop
    goes on. -/
theorem readPart_more (hN : N ≤ BUFSIZE + 1) (hm : Inv N s m rest) (hlen : s.length < 2 ^ 31)
    (hne : m.dev.contents N ≠ []) (hrest : rest ≠ []) :
    ∃ m', readPart N m = .running m' ∧ Inv N s m' rest ∧ m'.dev.contents N = [] := by
  have hlt := hm.dev.held_lt
  rcases deviceRead_all hN hm hlen hne with ⟨d, u, hread, hbytes, hd, hnil⟩
  have htotal : m.totalBytes = (m.dev.held N : Int) + (rest.length : Int) := by
    rw [hm.total, List.length_append, contents_length, Int.natCast_add]
  have hpos : 0 < rest.length := List.length_pos_iff.mpr hrest
  refine ⟨{ m with
    dev := d, totalBytes := m.totalBytes - m.dev.held N, reads := m.reads ++ [m.dev.contents N] },
    ?_, ⟨hd, ?_, ?_, ?_, hm.wbuf, ?_⟩, hnil⟩
  · simp only [readPart, hread]
    rw [if_neg (by omega), if_pos (by omega), Int.toNat_natCast, hbytes]
  · rw [List.flatten_append, List.flatten_singleton, hnil, List.nil_append, List.append_assoc]
    exact hm.split
  · simp only [hnil, List.nil_append]
    omega
  · rw [hnil, List.nil_append]
    exact hrest
  · intro r hr
    rcases List.mem_append.mp hr with hr | hr
    · exact hm.reads r hr
    · rw [List.mem_singleton.mp hr, contents_length]
      omega

/-- A write to the empty ring puts in as much as fits, which is something. -/
theorem deviceWrite_empty (hN : 2 ≤ N) {d : Dev} (hd : d.Ok N) (hnil : d.contents N = [])
    (hrest : rest ≠ []) :
    ∃ d', deviceWrite N false rest.length d (stringMem rest) =
        .done ((min rest.length (N - 1) : Nat), d') ∧
      d'.Ok N ∧ d'.contents N = rest.take (min rest.length (N - 1)) ∧ d'.contents N ≠ [] := by
  have hpos : 0 < rest.length := List.length_pos_iff.mpr hrest
  have hroom : d.room N = N - 1 := by
    rw [Dev.room, ← contents_length, hnil, List.length_nil, Nat.sub_zero]
  have hempty : d.ir = d.iw := (isBufferEmpty_iff d).mp (isBufferEmpty_of_nil hd hnil)
  have hfull : bufferFull d = false := by
    rw [← Bool.not_eq_true, bufferFull_iff]
    omega
  have hcontents : (writeTransfer N rest.length d (stringMem rest)).2.contents N =
      rest.take (min rest.length (N - 1)) := by
    rw [writeTransfer_contents hd, hnil, List.nil_append, hroom, bytes_stringMem rest (by omega)]
  refine ⟨(writeTransfer N rest.length d (stringMem rest)).2, ?_,
    writeTransfer_ok hd rest.length (stringMem rest), hcontents, ?_⟩
  · rw [deviceWrite_of_room hd hfull, hroom]
  · rw [hcontents, ← List.length_pos_iff, List.length_take]
    omega

/-- The part of the round that writes. Afterwards `wbuf` points to what is left,
    or all is written. -/
theorem writePart_eq (hN : 2 ≤ N) (hm : Inv N s m rest) (hnul : (0 : UInt8) ∉ s)
    (hlen : s.length < 2 ^ 31) (hnil : m.dev.contents N = []) :
    ∃ m' rest', writePart N m = .running m' ∧ Inv N s m' rest' ∧
      m'.dev.contents N ++ rest' = rest ∧ m'.dev.contents N ≠ [] := by
  -- The ring is empty, so something is left to be written.
  have hrest : rest ≠ [] := by
    have h := hm.pending
    rwa [hnil, List.nil_append] at h
  have hwbuf : m.wbuf = rest := (hm.wbuf.resolve_right hrest).symm
  have hsplit := hm.split
  rw [hnil, List.nil_append] at hsplit
  have hmem : (0 : UInt8) ∉ rest := fun h => hnul (by
    rw [hsplit]
    exact List.mem_append_right _ h)
  have hstrlen : strlen m.wbuf = rest.length := by
    rw [hwbuf, strlen_of_notMem hmem]
  have hslen : rest.length ≤ s.length := by
    rw [hsplit, List.length_append]
    omega
  rcases deviceWrite_empty hN hm.dev hnil hrest with ⟨d, hcall, hok, hcontents, hne⟩
  have hwrite : deviceWrite N false (strlen m.wbuf) m.dev (stringMem m.wbuf) =
      .done ((min rest.length (N - 1) : Nat), d) := by
    rw [hstrlen, hwbuf]
    exact hcall
  have hsize : toSize ((min rest.length (N - 1) : Nat) : Int) = min rest.length (N - 1) :=
    toSize_natCast (by omega)
  by_cases hfits : rest.length ≤ N - 1
  · -- The last piece: `wbuf` stays where it is.
    have hmin : min rest.length (N - 1) = rest.length := by omega
    rw [hmin, List.take_length] at hcontents
    refine ⟨{ m with dev := d }, [], ?_, ⟨hok, ?_, ?_, ?_, Or.inr rfl, hm.reads⟩, ?_, hne⟩
    · simp only [writePart, hwrite]
      rw [if_neg (by omega), hsize, hstrlen, if_neg (by omega)]
    · rw [hcontents, List.append_nil]
      exact hsplit
    · rw [hcontents, List.append_nil, hm.total, hnil, List.nil_append]
    · rw [List.append_nil]
      exact hne
    · rw [hcontents, List.append_nil]
  · -- A partial write: `wbuf` moves up behind what the ring took.
    have hmin : min rest.length (N - 1) = N - 1 := by omega
    rw [hmin] at hcontents hsize hwrite
    refine ⟨{ m with
      dev := d
      wbuf := m.wbuf.drop (N - 1) }, rest.drop (N - 1), ?_,
      ⟨hok, ?_, ?_, ?_, Or.inl (by rw [hwbuf]), hm.reads⟩, ?_, hne⟩
    · simp only [writePart, hwrite]
      rw [if_neg (by omega), hsize, hstrlen, if_pos (by omega), Int.toNat_natCast]
    · rw [hcontents, List.take_append_drop]
      exact hsplit
    · rw [hcontents, List.take_append_drop, hm.total, hnil, List.nil_append]
    · rw [hcontents, List.take_append_drop]
      exact hrest
    · rw [hcontents, List.take_append_drop]

/-- With the ring empty `poll` reports room only, and the round is a write. -/
theorem round_empty (hd : m.dev.Ok N) (hnil : m.dev.contents N = []) :
    round N m = writePart N m := by
  have hempty := isBufferEmpty_of_nil hd hnil
  have hin : devicePoll m.dev &&& POLLIN = 0 := by
    rw [← Decidable.not_not (p := devicePoll m.dev &&& POLLIN = 0), ← ne_eq, pollin_iff, hempty]
    exact Bool.noConfusion
  have hout : devicePoll m.dev &&& POLLOUT ≠ 0 := by
    rw [pollout_iff, ← Bool.not_eq_true, bufferFull_iff]
    rw [isBufferEmpty_iff] at hempty
    omega
  simp only [round, hin, hout, and_false, if_false, ne_eq, not_true_eq_false, not_false_eq_true,
    if_true]

/-- With bytes in the ring the round starts with a read, and may go on with a
    write on the word of a `poll` from before that read. -/
theorem round_held (hd : m.dev.Ok N) (hne : m.dev.contents N ≠ []) :
    round N m = match readPart N m with
      | .running m' =>
        if devicePoll m.dev &&& POLLOUT ≠ 0 then writePart N m' else .running m'
      | r => r := by
  have hin : devicePoll m.dev &&& POLLIN ≠ 0 :=
    (pollin_iff m.dev).mpr (isBufferEmpty_eq_false hd hne)
  simp only [round, hin, false_and, if_false, ne_eq, not_false_eq_true, if_true]

/-- A round finishes the loop with the string read back, or keeps the
    invariant and gets closer to the end. -/
theorem round_inv (hN : 2 ≤ N) (hbuf : N ≤ BUFSIZE + 1) (hnul : (0 : UInt8) ∉ s)
    (hlen : s.length < 2 ^ 31) (hm : Inv N s m rest) :
    (∃ m', round N m = .finished m' ∧ m'.reads.flatten = s ∧ ∀ r ∈ m'.reads, r.length ≤ N - 1) ∨
      ∃ m' rest', round N m = .running m' ∧ Inv N s m' rest' ∧
        measure N m' rest' < measure N m rest := by
  by_cases hnil : m.dev.contents N = []
  · -- A write alone: no byte is read yet, but the ring is not empty any more.
    rcases writePart_eq hN hm hnul hlen hnil with ⟨m', rest', hw, hm', happ, hne⟩
    refine Or.inr ⟨m', rest', by rw [round_empty hm.dev hnil, hw], hm', ?_⟩
    rw [measure, measure, happ, if_neg hne, if_pos hnil, hnil, List.nil_append]
    omega
  · by_cases hrest : rest = []
    · -- Nothing is left to be written, so the read is the last one.
      rw [hrest] at hm
      rcases readPart_last hbuf hm hlen with ⟨m', hr, hdone, hsmall⟩
      exact Or.inl ⟨m', by rw [round_held hm.dev hnil, hr], hdone, hsmall⟩
    · rcases readPart_more hbuf hm hlen hnil hrest with ⟨m', hr, hm', hnil'⟩
      have hround : round N m =
          if devicePoll m.dev &&& POLLOUT ≠ 0 then writePart N m' else .running m' := by
        rw [round_held hm.dev hnil, hr]
      have hpos : 0 < (m.dev.contents N).length := List.length_pos_iff.mpr hnil
      refine Or.inr ?_
      by_cases hout : devicePoll m.dev &&& POLLOUT ≠ 0
      · -- The answer is stale, but the read has made more room than it said.
        rcases writePart_eq hN hm' hnul hlen hnil' with ⟨m'', rest', hw, hm'', happ, hne⟩
        refine ⟨m'', rest', by rw [hround, if_pos hout, hw], hm'', ?_⟩
        rw [measure, measure, happ, if_neg hne, if_neg hnil, List.length_append]
        omega
      · refine ⟨m', rest, by rw [hround, if_neg hout], hm', ?_⟩
        rw [measure, measure, hnil', if_pos rfl, if_neg hnil, List.nil_append,
          List.length_append]
        omega

/-- With rounds enough for the measure the loop finishes. -/
theorem loop_finishes (hN : 2 ≤ N) (hbuf : N ≤ BUFSIZE + 1) (hnul : (0 : UInt8) ∉ s)
    (hlen : s.length < 2 ^ 31) (n : Nat) : ∀ (m : Main) (rest : List UInt8), Inv N s m rest →
      measure N m rest ≤ n →
      ∃ m', loop N n m = .finished m' ∧ m'.reads.flatten = s ∧
        ∀ r ∈ m'.reads, r.length ≤ N - 1 := by
  -- By induction on the rounds allowed, the measure staying below them.
  induction n with
  | zero =>
      -- The loop is not left before the measure is spent, and it never is zero
      -- while a byte is missing.
      intro m rest hm hle
      have hpos := List.length_pos_iff.mpr hm.pending
      unfold measure at hle
      omega
  | succ n ih =>
      intro m rest hm hle
      rcases round_inv hN hbuf hnul hlen hm with ⟨m', hr, hdone⟩ | ⟨m', rest', hr, hm', hlt⟩
      · exact ⟨m', by rw [loop, hr], hdone⟩
      · rcases ih m' rest' hm' (by omega) with ⟨m'', hloop, hdone⟩
        exact ⟨m'', by rw [loop, hr]; exact hloop, hdone⟩

/-- The loop has its invariant at the start, on an empty ring. -/
theorem start_inv {d : Dev} (hd : d.Ok N) (hempty : d.ir = d.iw) (hs : s ≠ [])
    (hnul : (0 : UInt8) ∉ s) (hlen : s.length < 2 ^ 31) : Inv N s (Main.start d s) s := by
  have hnil : d.contents N = [] := by
    rw [← List.length_eq_zero_iff, contents_length, hd.held_eq_zero_iff, isBufferEmpty_iff]
    exact hempty
  refine ⟨hd, ?_, ?_, ?_, Or.inl rfl, fun r hr => absurd hr (List.not_mem_nil)⟩
  · simp only [Main.start, hnil, List.flatten_nil, List.nil_append]
  · simp only [Main.start, hnil, List.nil_append]
    rw [strlen_of_notMem hnul, toInt_of_lt hlen]
  · simp only [Main.start, hnil, List.nil_append]
    exact hs

/-- The client works for every string: on an empty ring without another
    client its loop is left with all data read, no call waits and `poll` never
    does, and what was read is the string, in pieces that fit `rbuf`. -/
theorem client_delivers {d : Dev} (hN : 2 ≤ N) (hbuf : N ≤ BUFSIZE + 1) (hd : d.Ok N)
    (hempty : d.ir = d.iw) (hs : s ≠ []) (hnul : (0 : UInt8) ∉ s) (hlen : s.length < 2 ^ 31) :
    ∃ n m, n ≤ 2 * s.length + 1 ∧ loop N n (Main.start d s) = .finished m ∧
      m.reads.flatten = s ∧ ∀ r ∈ m.reads, r.length ≤ BUFSIZE := by
  have hinv := start_inv hd hempty hs hnul hlen
  rcases loop_finishes hN hbuf hnul hlen (measure N (Main.start d s) s) _ s hinv
    (Nat.le_refl _) with ⟨m, hloop, hdone, hsmall⟩
  refine ⟨_, m, ?_, hloop, hdone, ?_⟩
  · have hnil : (Main.start d s).dev.contents N = [] := by
      rw [← List.length_eq_zero_iff, contents_length, hinv.dev.held_eq_zero_iff,
        isBufferEmpty_iff]
      exact hempty
    rw [measure, if_pos hnil, hnil, List.nil_append]
  · intro r hr
    have := hsmall r hr
    omega

/-- A string as long as the one of the source, on a fresh ring of its size. -/
theorem client_delivers_source : ∃ n m, n ≤ 125 ∧
    loop 23 n (Main.start Dev.init ((List.range 62).map fun k => (k + 65).toUInt8)) = .finished m ∧
    m.reads.flatten = (List.range 62).map (fun k => (k + 65).toUInt8) ∧
    ∀ r ∈ m.reads, r.length ≤ BUFSIZE := by
  rcases client_delivers (N := 23) (s := (List.range 62).map fun k => (k + 65).toUInt8)
    (d := Dev.init) (by decide) (by decide) ⟨by decide, by decide, by decide, by decide⟩ rfl
    (by decide) (by decide) (by decide) with ⟨n, m, hn, hloop, hdone, hsmall⟩
  rw [List.length_map, List.length_range] at hn
  exact ⟨n, m, hn, hloop, hdone, hsmall⟩

end Parts

end Client

end Poll

end KernelModules
