import KernelModules.Lib.Run
import Mathlib.Algebra.BigOperators.Group.Finset.Basic
import Mathlib.Algebra.Order.BigOperators.Group.Finset
import Mathlib.Algebra.Group.Action.Defs
import Mathlib.Tactic.Ring

/-!
# Coming to Rest

A system whose environment stops giving it work should stop too. The labels
are divided into the system's own and those of the environment, and a state is
at rest when none of its own is open. A measure in `Nat` that each own step
lowers bounds the length of every run made of own steps, whoever schedules
them, and so every state can come to rest.

Participants that only advance have such a measure for themselves. Where one
of them can set the others back, it must pay: it spends a token that it does
not get again, and a token is worth what all of them together can be set back
by. `budget` is the measure that comes out, and `budget_lt` its only rule.

## Main definitions

* `AtRest`: No own label is open.
* `Lowers`: A measure that every own step from an invariant lowers.
* `budget`: Potentials, and tokens to set others back.

## Theorems

* `Lowers.length_le`: Runs of own steps are bounded.
* `Lowers.exists_rest`: Every state can come to rest.
* `budget_lt`: Who advances lowers the budget, also where it sets others back.
* `budget_le`: The budget of participants that are bounded one by one.
-/

namespace KernelModules

namespace Lib

section Systems

variable {S L : Type*}

/-- None of the system's own labels is open. -/
def AtRest (step : L → S → Option S) (own : L → Prop) (s : S) : Prop :=
  ∀ l, own l → step l s = none

/-- The system's own steps keep the invariant `I`, and lower the measure. -/
structure Lowers (step : L → S → Option S) (own : L → Prop) (I : S → Prop) (measure : S → Nat) :
    Prop where
  keeps : ∀ s l s', I s → own l → step l s = some s' → I s'
  lowers : ∀ s l s', I s → own l → step l s = some s' → measure s' < measure s

variable {step : L → S → Option S} {own : L → Prop} {I : S → Prop} {measure : S → Nat}
  {init s : S} {h : History S L}

/-- Every own step of a run is paid for out of the measure. -/
theorem Lowers.length_le (hl : Lowers step own I measure) (hI : I init) (hr : Run step init h s)
    (hown : EveryStep (fun _ _ l => own l) h) : I s ∧ h.length + measure s ≤ measure init := by
  induction hr with
  | start => exact ⟨hI, by simp only [List.length_nil, Nat.zero_add, Nat.le_refl]⟩
  | next l hr hs ih =>
      rcases ih hown.2 with ⟨hIs, hle⟩
      refine ⟨hl.keeps _ l _ hIs hown.1 hs, ?_⟩
      have hlt := hl.lowers _ l _ hIs hown.1 hs
      rw [List.length_cons]
      omega

/-- A run of own steps can be continued until the system is at rest. -/
theorem Lowers.extend_rest (hl : Lowers step own I measure) :
    ∀ (n : Nat) (h : History S L) (s : S), measure s ≤ n → I s → Run step init h s →
      EveryStep (fun _ _ l => own l) h →
        ∃ h' s', Run step init h' s' ∧ EveryStep (fun _ _ l => own l) h' ∧ I s' ∧
          AtRest step own s' := by
  intro n
  -- On a bound of the measure: a state that is not at rest has an own step,
  -- and with nothing left to pay there is none.
  induction n with
  | zero =>
      intro h s hn hI hr hown
      refine ⟨h, s, hr, hown, hI, fun l hol => ?_⟩
      cases hs : step l s with
      | none => rfl
      | some s' =>
          have hlt := hl.lowers s l s' hI hol hs
          omega
  | succ n ih =>
      intro h s hn hI hr hown
      by_cases hrest : AtRest step own s
      · exact ⟨h, s, hr, hown, hI, hrest⟩
      · simp only [AtRest, not_forall] at hrest
        rcases hrest with ⟨l, hol, hne⟩
        rcases Option.ne_none_iff_exists'.mp hne with ⟨s', hs⟩
        have hlt := hl.lowers s l s' hI hol hs
        exact ih _ s' (by omega) (hl.keeps s l s' hI hol hs) (.next l hr hs) ⟨hol, hown⟩

/-- Every state can come to rest by own steps alone. -/
theorem Lowers.exists_rest (hl : Lowers step own I measure) (hI : I init) :
    ∃ h s, Run step init h s ∧ EveryStep (fun _ _ l => own l) h ∧ I s ∧ AtRest step own s :=
  hl.extend_rest (measure init) [] init (Nat.le_refl _) hI .start (everyStep_nil _)

end Systems

section Budgets

variable {ι : Type*} [DecidableEq ι] {J J' : Finset ι} {p p' m m' : ι → Nat} {g : Nat} {t : ι}

/-- The potentials of the participants, and their tokens. A token is worth `g`
    for each participant. -/
def budget (J : Finset ι) (p m : ι → Nat) (g : Nat) : Nat :=
  ∑ u ∈ J, p u + g * J.card * ∑ u ∈ J, m u

/-- A participant that advances lowers the budget. For each token it spends,
    every other one may be set back by `g`. -/
theorem budget_lt (ht : t ∈ J) (hJ : J' ⊆ J) (hpt : p' t < p t) (hmt : m' t ≤ m t)
    (hp : ∀ u ∈ J, u ≠ t → p' u ≤ p u + g * (m t - m' t))
    (hm : ∀ u ∈ J, u ≠ t → m' u ≤ m u) : budget J' p' m' g < budget J p m g := by
  -- What the others are set back by, all together.
  have hpsum : ∑ u ∈ J, p' u < ∑ u ∈ J, p u + (J.card - 1) * (g * (m t - m' t)) := by
    have hothers : ∑ u ∈ J.erase t, p' u ≤
        ∑ u ∈ J.erase t, p u + (J.card - 1) * (g * (m t - m' t)) := by
      calc ∑ u ∈ J.erase t, p' u
          ≤ ∑ u ∈ J.erase t, (p u + g * (m t - m' t)) := by
            refine Finset.sum_le_sum fun u hu => ?_
            rcases Finset.mem_erase.mp hu with ⟨hut, hu⟩
            exact hp u hu hut
        _ = ∑ u ∈ J.erase t, p u + (J.card - 1) * (g * (m t - m' t)) := by
            rw [Finset.sum_add_distrib, Finset.sum_const, Finset.card_erase_of_mem ht,
              smul_eq_mul]
    rw [← Finset.sum_erase_add J p ht, ← Finset.sum_erase_add J p' ht]
    omega
  -- The tokens left, and those spent now.
  have hmsum : ∑ u ∈ J, m' u + (m t - m' t) ≤ ∑ u ∈ J, m u := by
    have hothers : ∑ u ∈ J.erase t, m' u ≤ ∑ u ∈ J.erase t, m u := by
      refine Finset.sum_le_sum fun u hu => ?_
      rcases Finset.mem_erase.mp hu with ⟨hut, hu⟩
      exact hm u hu hut
    rw [← Finset.sum_erase_add J m ht, ← Finset.sum_erase_add J m' ht]
    omega
  have hpaid : (J.card - 1) * (g * (m t - m' t)) ≤ g * J.card * (m t - m' t) := by
    calc (J.card - 1) * (g * (m t - m' t))
        ≤ J.card * (g * (m t - m' t)) := Nat.mul_le_mul_right _ (Nat.sub_le _ 1)
      _ = g * J.card * (m t - m' t) := by ring
  have hworth : g * J.card * ∑ u ∈ J, m' u + g * J.card * (m t - m' t) ≤
      g * J.card * ∑ u ∈ J, m u := by
    rw [← Nat.mul_add]
    exact Nat.mul_le_mul_left _ hmsum
  have hleft : g * J'.card * ∑ u ∈ J', m' u ≤ g * J.card * ∑ u ∈ J, m' u :=
    Nat.mul_le_mul (Nat.mul_le_mul_left g (Finset.card_le_card hJ)) (Finset.sum_le_sum_of_subset hJ)
  have hfewer : ∑ u ∈ J', p' u ≤ ∑ u ∈ J, p' u := Finset.sum_le_sum_of_subset hJ
  unfold budget
  omega

omit [DecidableEq ι] in
/-- The budget of participants whose potentials and tokens are bounded. -/
theorem budget_le {a b : Nat} (hp : ∀ u ∈ J, p u ≤ a) (hm : ∀ u ∈ J, m u ≤ b) :
    budget J p m g ≤ J.card * a + g * J.card * (J.card * b) := by
  have hpsum : ∑ u ∈ J, p u ≤ J.card * a := by
    simpa only [smul_eq_mul] using Finset.sum_le_card_nsmul J p a hp
  have hmsum : ∑ u ∈ J, m u ≤ J.card * b := by
    simpa only [smul_eq_mul] using Finset.sum_le_card_nsmul J m b hm
  exact Nat.add_le_add hpsum (Nat.mul_le_mul_left _ hmsum)

end Budgets

end Lib

end KernelModules
