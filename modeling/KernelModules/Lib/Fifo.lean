import KernelModules.Lib.Run

/-!
# Bounded FIFOs

What a bounded queue is, as a machine that only sees the blocks put in and
the blocks taken out. A put is open when the block fits, a get when the block
is the front of the queue, and a reset empties it.

The events of a run alone determine the queue. `accepted` collects what went
in since the last reset and `returned` what came out, and `conservation` says
that the queue holds exactly the difference, in order. An implementation that
emits these events and refines the machine inherits the law for all its runs.

The machine leaves open how much of a request is served. `answer` does not: a
put is served as far as the block fits, a get as far as the queue goes, and
every request has exactly one response. It is the sequential queue that
concurrent calls are compared with, and each of its runs is one of the machine.

## Main definitions

* `Event`: A reset, a block put in, or a block taken out.
* `step`: The queue machine of a given capacity.
* `accepted`, `returned`: What went in and came out since the last reset.
* `Request`, `serve`: A request, and how the queue serves it.
* `answer`: The queue that serves requests as far as it can.

## Theorems

* `step_reset`, `step_put`, `step_get`: What each event does to the queue.
* `run_length_le`: The capacity is never exceeded.
* `conservation`: What went in is what came out followed by the contents.
* `simulates_step`: Requests with their responses are events of the machine.
-/

namespace KernelModules

namespace Lib

namespace Fifo

variable {α : Type*}

/-- What the outside sees of a queue. -/
inductive Event (α : Type*) where
  | reset
  | put (block : List α)
  | get (block : List α)

/-- The queue of capacity `cap`: a block is put in whole or not at all, and
    what is taken out is the front. -/
def step [DecidableEq α] (cap : Nat) : Event α → List α → Option (List α)
  | .reset, _ => some []
  | .put block, q => if q.length + block.length ≤ cap then some (q ++ block) else none
  | .get block, q => if q.take block.length = block then some (q.drop block.length) else none

/-- Everything put in since the last reset, the events most recent first. -/
def accepted : List (Event α) → List α
  | [] => []
  | .reset :: _ => []
  | .put block :: es => accepted es ++ block
  | .get _ :: es => accepted es

/-- Everything taken out since the last reset. -/
def returned : List (Event α) → List α
  | [] => []
  | .reset :: _ => []
  | .put _ :: es => returned es
  | .get block :: es => returned es ++ block

/-- The events of a history of the queue machine. -/
def events (h : History (List α) (Event α)) : List (Event α) := h.map Prod.snd

variable [DecidableEq α] {cap : Nat} {h : History (List α) (Event α)} {q q' : List α}

theorem step_reset : step cap .reset q = some q' ↔ q' = [] := by
  simp only [step, Option.some.injEq, eq_comm]

theorem step_put {block : List α} : step cap (.put block) q = some q' ↔
    q.length + block.length ≤ cap ∧ q' = q ++ block := by
  rw [step, Option.ite_none_right_eq_some, Option.some.injEq, eq_comm (a := q')]

/-- A block that can be taken out is the front of the queue, and the rest is
    what remains. -/
theorem step_get {block : List α} : step cap (.get block) q = some q' ↔ q = block ++ q' := by
  simp only [step, Option.ite_none_right_eq_some, Option.some.injEq]
  constructor
  · rintro ⟨hfront, hrest⟩
    rw [← hrest]
    calc q = q.take block.length ++ q.drop block.length := (List.take_append_drop _ q).symm
      _ = block ++ q.drop block.length := by rw [hfront]
  · intro hq
    rw [hq]
    exact ⟨List.take_left, List.drop_left⟩

/-- The capacity is never exceeded. -/
theorem run_length_le (hr : Run (step cap) [] h q) : q.length ≤ cap := by
  refine hr.invariant (fun q => q.length ≤ cap) (Nat.zero_le cap) (fun q e q' hq hs => ?_)
  cases e with
  | reset =>
      rw [step_reset.mp hs]
      exact Nat.zero_le cap
  | put block =>
      rcases step_put.mp hs with ⟨hfit, hq'⟩
      rw [hq', List.length_append]
      exact hfit
  | get block =>
      rw [step_get.mp hs, List.length_append] at hq
      omega

/-- What went in since the last reset is what came out followed by what the
    queue still holds. -/
theorem conservation (hr : Run (step cap) [] h q) :
    accepted (events h) = returned (events h) ++ q := by
  refine hr.historyInvariant (fun h q => accepted (events h) = returned (events h) ++ q) rfl
    (fun h q e q' _ ih hs => ?_)
  cases e with
  | reset =>
      -- Both logs start over together with the queue.
      rw [step_reset.mp hs]
      rfl
  | put block =>
      simp only [events, List.map_cons, accepted, returned] at ih ⊢
      rw [ih, (step_put.mp hs).2, List.append_assoc]
  | get block =>
      -- The block taken out moves from the front of the queue to the output.
      simp only [events, List.map_cons, accepted, returned] at ih ⊢
      rw [ih, step_get.mp hs, List.append_assoc]

/-- What a client asks of a queue. -/
inductive Request (α : Type*) where
  | reset
  | put (block : List α)
  | get (n : Nat)

/-- How a queue of capacity `cap` serves a request: the block it moves, and
    the queue afterwards. It takes what fits of a block and gives what it has. -/
def serve (cap : Nat) : Request α → List α → List α × List α
  | .reset, _ => ([], [])
  | .put block, q => (block.take (cap - q.length), q ++ block.take (cap - q.length))
  | .get n, q => (q.take n, q.drop n)

/-- A request together with its response is open when the response is the one
    the queue gives. -/
def answer (cap : Nat) : Request α × List α → List α → Option (List α)
  | (r, block), q => if (serve cap r q).1 = block then some (serve cap r q).2 else none

/-- A request that has been served, as an event of the machine. -/
def served : Request α × List α → Event α
  | (.reset, _) => .reset
  | (.put _, block) => .put block
  | (.get _, block) => .get block

theorem answer_iff {r : Request α} {block : List α} :
    answer cap (r, block) q = some q' ↔ block = (serve cap r q).1 ∧ q' = (serve cap r q).2 := by
  rw [answer, Option.ite_none_right_eq_some, Option.some.injEq, eq_comm (a := block),
    eq_comm (a := q')]

/-- Serving keeps to the capacity. -/
theorem answer_length_le {h : History (List α) (Request α × List α)}
    (hr : Run (answer cap) [] h q) : q.length ≤ cap := by
  refine hr.invariant (fun q => q.length ≤ cap) (Nat.zero_le cap) (fun q l q' hq hs => ?_)
  rcases l with ⟨r, block⟩
  rcases answer_iff.mp hs with ⟨-, rfl⟩
  cases r with
  | reset => exact Nat.zero_le cap
  | put block =>
      simp only [serve, List.length_append, List.length_take]
      omega
  | get n =>
      simp only [serve, List.length_drop]
      omega

/-- Requests with their responses are events of the machine. -/
theorem simulates_step {h : History (List α) (Request α × List α)}
    (hr : Run (answer cap) [] h q) :
    ∃ h', Run (step cap) [] h' q ∧ events h' = h.map fun p => served p.2 := by
  have hsim : ∃ h', Run (step cap) [] h' q ∧
      h'.map Prod.snd = h.filterMap fun p => some (served p.2) := by
    refine hr.simulate id (fun p => some (served p.2)) (fun h q l q' hr hs => ?_)
    have hfit := answer_length_le hr
    rcases l with ⟨r, block⟩
    rcases answer_iff.mp hs with ⟨rfl, rfl⟩
    refine .inr ⟨_, rfl, ?_⟩
    cases r with
    | reset => exact step_reset.mpr rfl
    | put block =>
        refine step_put.mpr ⟨?_, rfl⟩
        simp only [serve, List.length_take, id_eq]
        omega
    | get n => exact step_get.mpr (List.take_append_drop n q).symm
  rcases hsim with ⟨h', hr', hev⟩
  exact ⟨h', hr', by rw [events, hev, List.filterMap_eq_map']⟩

end Fifo

end Lib

end KernelModules
