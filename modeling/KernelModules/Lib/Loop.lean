import Mathlib.Data.Option.Basic

/-!
# While Loops

A loop whose rounds nobody counts runs on fuel: `none` says that the fuel was
used up before the test failed. The body may use up fuel of its own, as one
with a loop inside does.

That a loop ends is shown with a measure, and that it does not with an
invariant under which the test never fails.

## Main definitions

* `whileLoop`: The loop.
* `doWhile`: The loop that tests behind its body.

## Theorems

* `whileLoop_total`: A loop ends when a measure decreases, with its invariant.
* `whileLoop_endless`: A loop whose test never fails does not end.
* `doWhile_total`: A loop of the second kind ends when a measure decreases.
-/

namespace KernelModules

namespace Lib

variable {S : Type*}

/-- `while (cond) body`. -/
def whileLoop (cond : S → Bool) (body : S → Option S) : (fuel : Nat) → S → Option S
  | 0, _ => none
  | fuel + 1, s => if cond s then (body s).bind (whileLoop cond body fuel) else some s

/-- `do body while (test)`, with a test that may change the state. -/
def doWhile (body : S → Option S) (test : S → Bool × S) : (fuel : Nat) → S → Option S
  | 0, _ => none
  | fuel + 1, s => (body s).bind fun s =>
    if (test s).1 then doWhile body test fuel (test s).2 else some (test s).2

section Rules

variable {cond : S → Bool} {body : S → Option S} {fuel : Nat} {s r : S}

theorem whileLoop_of_false (hs : cond s = false) : whileLoop cond body (fuel + 1) s = some s := by
  rw [whileLoop, hs]
  rfl

theorem whileLoop_of_true {s' : S} (hs : cond s = true) (hbody : body s = some s') :
    whileLoop cond body (fuel + 1) s = whileLoop cond body fuel s' := by
  rw [whileLoop, if_pos hs, hbody]
  rfl

/-- A loop whose rounds keep an invariant and decrease a measure ends, the
    invariant holding and the test failing. -/
theorem whileLoop_total {I : S → Prop} {measure : S → Nat}
    (hbody : ∀ s, I s → cond s = true → ∃ s', body s = some s' ∧ I s' ∧ measure s' < measure s) :
    ∀ {fuel : Nat} {s : S}, I s → measure s < fuel →
      ∃ r, whileLoop cond body fuel s = some r ∧ I r ∧ cond r = false := by
  intro fuel
  induction fuel with
  | zero => intro s _ hfuel; exact absurd hfuel (Nat.not_lt_zero _)
  | succ fuel ih =>
      -- The measure falls with the fuel, so a round is left for what remains.
      intro s hI hfuel
      cases hs : cond s with
      | false => exact ⟨s, whileLoop_of_false hs, hI, hs⟩
      | true =>
          rcases hbody s hI hs with ⟨s', hs', hI', hdecr⟩
          rw [whileLoop_of_true hs hs']
          exact ih hI' (by omega)

/-- A loop does not end when an invariant keeps its test from failing. -/
theorem whileLoop_endless {I : S → Prop} (htest : ∀ s, I s → cond s = true)
    (hbody : ∀ s s', I s → body s = some s' → I s') :
    ∀ (fuel : Nat) {s : S}, I s → whileLoop cond body fuel s = none := by
  -- The invariant holds after a round as before it, so the state varies with
  -- the fuel.
  intro fuel
  induction fuel with
  | zero => intro s _; rfl
  | succ fuel ih =>
      intro s hI
      rw [whileLoop, if_pos (htest s hI), Option.bind_eq_none_iff]
      intro s' hs'
      exact ih (hbody s s' hI hs')

/-- A loop ends with what its last test leaves, if its rounds keep an invariant
    and decrease a measure until then. -/
theorem doWhile_total {test : S → Bool × S} {I Q : S → Prop} (measure : S → Nat)
    (hround : ∀ s, I s → ∃ s', body s = some s' ∧
      if (test s').1 then I (test s').2 ∧ measure (test s').2 < measure s else Q (test s').2) :
    ∀ {fuel : Nat} {s : S}, I s → measure s < fuel →
      ∃ r, doWhile body test fuel s = some r ∧ Q r := by
  intro fuel
  induction fuel with
  | zero => intro s _ hfuel; exact absurd hfuel (Nat.not_lt_zero _)
  | succ fuel ih =>
      intro s hI hfuel
      rcases hround s hI with ⟨s', hs', hnext⟩
      rw [doWhile, hs', Option.bind_some]
      by_cases htest : (test s').1 = true
      · rw [if_pos htest] at hnext ⊢
        exact ih hnext.1 (by omega)
      · rw [if_neg htest] at hnext ⊢
        exact ⟨_, rfl, hnext⟩

end Rules

end Lib

end KernelModules
