import KernelModules.Lib.Run

/-!
# Two Runs Side by Side

A law on what a system keeps to itself compares runs: two of them that take
the same labels from different states must show the same. Such a law is an
ordinary one about a system of pairs, both sides of which take a label
together.

`Run.twin` puts two runs together and `Run.map` takes them apart again, since
each side of a pair is a system that the pairs are mapped to. The same rule
serves any function between the states of two systems that steps respect.

## Main definitions

* `mapStates`: A history with its states mapped.
* `twinStep`: Both sides take a label.

## Theorems

* `Run.map`: A run of one system as the run of another that takes the same
  labels.
* `everyState_mapStates`, `everyStep_mapStates`: Laws on such a run.
* `twinStep_eq_some`: What a step of both sides is.
* `Run.twin`: Two runs with the same labels as one.
-/

namespace KernelModules

namespace Lib

variable {S S' L : Type*}

/-- The history with `f` applied to its states. -/
def mapStates (f : S → S') (h : History S L) : History S' L := h.map fun p => (f p.1, p.2)

@[simp] theorem mapStates_cons (f : S → S') (h : History S L) (s : S) (l : L) :
    mapStates f ((s, l) :: h) = (f s, l) :: mapStates f h := rfl

@[simp] theorem mapStates_labels (f : S → S') (h : History S L) :
    (mapStates f h).map Prod.snd = h.map Prod.snd := by
  rw [mapStates, List.map_map]
  rfl

/-- A step of the one system is a step of the other with the same label, and
    so is a run. -/
theorem Run.map {step : L → S → Option S} {step' : L → S' → Option S'} {init s : S}
    {h : History S L} (f : S → S')
    (hstep : ∀ l s s', step l s = some s' → step' l (f s) = some (f s'))
    (hr : Run step init h s) : Run step' (f init) (mapStates f h) (f s) := by
  induction hr with
  | start => exact .start
  | next l _ hs ih => exact .next l ih (hstep l _ _ hs)

theorem everyState_mapStates (f : S → S') (P : S' → Prop) (h : History S L) (s : S) :
    EveryState P (mapStates f h) (f s) ↔ EveryState (fun s => P (f s)) h s := by
  simp only [EveryState, mapStates, List.forall_mem_map]

theorem everyStep_mapStates (f : S → S') (C : History S' L → S' → L → Prop) (h : History S L) :
    EveryStep C (mapStates f h) ↔ EveryStep (fun h s l => C (mapStates f h) (f s) l) h := by
  induction h with
  | nil => exact Iff.rfl
  | cons p h ih =>
      rcases p with ⟨s, l⟩
      rw [mapStates_cons, everyStep_cons, everyStep_cons, ih]

/-- Both sides of a pair take the label. -/
def twinStep (step : L → S → Option S) (l : L) (p : S × S) : Option (S × S) :=
  (step l p.1).bind fun s => (step l p.2).map fun t => (s, t)

section Twin

variable {step : L → S → Option S} {a b s t : S} {h h' : History S L}

theorem twinStep_eq_some {l : L} {p q : S × S} :
    twinStep step l p = some q ↔ step l p.1 = some q.1 ∧ step l p.2 = some q.2 := by
  simp only [twinStep, Option.bind_eq_some_iff, Option.map_eq_some_iff]
  constructor
  · rintro ⟨s, hs, t, ht, rfl⟩
    exact ⟨hs, ht⟩
  · rintro ⟨hs, ht⟩
    exact ⟨q.1, hs, q.2, ht, rfl⟩

/-- Two runs with the same labels are the sides of one run of pairs. -/
theorem Run.twin (hr : Run step a h s) : ∀ {h' : History S L} {t : S}, Run step b h' t →
    h.map Prod.snd = h'.map Prod.snd →
      ∃ g, Run (twinStep step) (a, b) g (s, t) ∧ mapStates Prod.fst g = h := by
  -- The other run is taken apart along with the labels of the first.
  induction hr with
  | start =>
      intro h' t hr' hlabels
      cases hr' with
      | start => exact ⟨[], .start, rfl⟩
      | next l hr' hs' => exact nomatch hlabels
  | next l hr hs ih =>
      intro h' t hr' hlabels
      cases hr' with
      | start => exact nomatch hlabels
      | next l' hr' hs' =>
          rw [List.map_cons, List.map_cons, List.cons.injEq] at hlabels
          rcases hlabels with ⟨rfl, hlabels⟩
          rcases ih hr' hlabels with ⟨g, hg, hleft⟩
          refine ⟨_, .next _ hg (twinStep_eq_some.mpr ⟨hs, hs'⟩), ?_⟩
          rw [mapStates_cons, hleft]

end Twin

end Lib

end KernelModules
