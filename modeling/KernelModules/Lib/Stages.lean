import KernelModules.Lib.Pool
import KernelModules.Lib.Run

/-!
# Loading in Stages

Modules whose init function makes one call after the other, each of which may
fail, and whose exit function gives back what they have got. The undoing is
written out at each return, so it may release too little, and the exit function
may as well. Where a failure is not looked at although it matters, the load
goes on to an oops and never returns.

A module is a table here: what each call acquires and what is done when it
fails, and what the exit function releases. The kernel loads and unloads it any
number of times. Every instance of a resource is then with the module, or has
been released exactly once, or is one of those that nobody releases any more
(`run_books`): what a failing load has acquired and not undone, and what the
exit function does not know of.

## Main definitions

* `OnError`, `Stage`, `Module`: The table.
* `State`, `load`, `Step`, `step`: Loads and unloads.
* `acquired`, `returned`, `oopses`: How a load goes.
* `left`: What a load leaves when it returns an error.
* `Strands`, `stranded`: The instances that nobody releases, by the history.
* `Module.Ok`: No resource is named twice.

## Theorems

* `load_eq`: A load in closed form.
* `step_books`, `run_books`: Who holds what, in any run.
* `stranded_nodup`, `stranded_length`: The instances are counted by the steps.
* `run_present`, `run_absent`: A loaded module has what it does not go without,
  and nothing that its calls are not for.
-/

namespace KernelModules

namespace Lib

namespace Stages

/-- What is done when a call fails: the load oopses, or the failure is not looked
    at, or some resources are released and a value is returned, the error itself
    for `none`. -/
inductive OnError (ρ : Type*) where
  | oops
  | ignored
  | returns (undo : List ρ) (value : Option Int)

structure Stage (ρ : Type*) where
  resource : ρ
  onError : OnError ρ

structure Module (ρ : Type*) where
  init : List (Stage ρ)
  exit : List ρ

/-- What has been given out of each resource, what the module's variables point
    to, and whether it is loaded. -/
structure State (ρ : Type*) where
  pools : ρ → Pool
  vars : ρ → Option Nat
  loaded : Bool

variable {ρ : Type*}

def State.init : State ρ := { pools := fun _ => .empty, vars := fun _ => none, loaded := false }

/-- A fresh image of the module. -/
def State.fresh (s : State ρ) : State ρ := { s with vars := fun _ => none }

/-- A load, with the error code of each call, 0 where it succeeds; an unload. -/
inductive Step (ρ : Type*) where
  | load (code : ρ → Nat)
  | unload

/-- The resources that a load acquires. -/
def acquired (code : ρ → Nat) : List (Stage ρ) → List ρ
  | [] => []
  | g :: gs =>
    if code g.resource = 0 then g.resource :: acquired code gs
    else match g.onError with
      | .oops | .ignored => acquired code gs
      | .returns _ _ => []

/-- A load gets to a call whose failure it does not survive. -/
def oopses (code : ρ → Nat) : List (Stage ρ) → Bool
  | [] => false
  | g :: gs =>
    if code g.resource = 0 then oopses code gs
    else match g.onError with
      | .oops => true
      | .ignored => oopses code gs
      | .returns _ _ => false

/-- The return that a load takes: what it releases there, and the value. -/
def returned (code : ρ → Nat) : List (Stage ρ) → List ρ × Int
  | [] => ([], 0)
  | g :: gs =>
    if code g.resource = 0 then returned code gs
    else match g.onError with
      | .oops | .ignored => returned code gs
      | .returns undo value => (undo, value.getD (-code g.resource))

/-- An early return has a negative value, and nothing is released twice. -/
def OnError.Ok : OnError ρ → Prop
  | .oops | .ignored => True
  | .returns undo value => undo.Nodup ∧ ∀ v ∈ value, v < 0

instance [DecidableEq ρ] : (e : OnError ρ) → Decidable e.Ok
  | .oops | .ignored => .isTrue trivial
  | .returns undo value => inferInstanceAs (Decidable (undo.Nodup ∧ ∀ v ∈ value, v < 0))

/-- No resource is named twice. -/
structure Module.Ok (m : Module ρ) : Prop where
  init : (m.init.map Stage.resource).Nodup
  undo : ∀ g ∈ m.init, g.onError.Ok
  exit : m.exit.Nodup

section Semantics

variable [DecidableEq ρ]

def State.acquire (s : State ρ) (r : ρ) : State ρ :=
  { s with
    pools := Function.update s.pools r (s.pools r).make
    vars := Function.update s.vars r (some (s.pools r).made) }

def State.release (s : State ρ) (r : ρ) : State ρ :=
  { s with pools := Function.update s.pools r ((s.pools r).releaseOpt (s.vars r)) }

def State.acquireAll (s : State ρ) (rs : List ρ) : State ρ := rs.foldl State.acquire s

def State.releaseAll (s : State ρ) (rs : List ρ) : State ρ := rs.foldl State.release s

/-- The init function: the value it returns, and the state. -/
def load (code : ρ → Nat) : List (Stage ρ) → State ρ → Int × State ρ
  | [], s => (0, s)
  | g :: gs, s =>
    if code g.resource = 0 then load code gs (s.acquire g.resource)
    else match g.onError with
      | .oops | .ignored => load code gs s
      | .returns undo value => (value.getD (-code g.resource), s.releaseAll undo)

/-- The module is loaded unless its init function returns a negative value. No
    step is made of a load that does not return. -/
def step (m : Module ρ) : Step ρ → State ρ → Option (State ρ)
  | .load code, s =>
    if s.loaded ∨ oopses code m.init then none
    else
      let r := load code m.init s.fresh
      some { r.2 with loaded := decide (0 ≤ r.1) }
  | .unload, s => if s.loaded then some { s.releaseAll m.exit with loaded := false } else none

/-- What a load leaves when it returns an error. -/
def left (m : Module ρ) (code : ρ → Nat) : List ρ :=
  if 0 ≤ (returned code m.init).2 then []
  else (acquired code m.init).filter fun r => r ∉ (returned code m.init).1

/-- The instance of a resource that a step leaves to nobody. -/
def strands (m : Module ρ) (r : ρ) : State ρ × Step ρ → Option Nat
  | (s, .load code) => if r ∈ left m code then some (s.pools r).made else none
  | (s, .unload) => if r ∈ m.exit then none else s.vars r

/-- All of them, in a run. -/
def stranded (m : Module ρ) (h : History (State ρ) (Step ρ)) (r : ρ) : List Nat :=
  h.filterMap (strands m r)

/-- Who holds what: a loaded module what its variables point to, nobody what is
    stranded, and all else has been released. -/
def Books (m : Module ρ) (h : History (State ρ) (Step ρ)) (s : State ρ) : Prop :=
  ∀ r, (s.pools r).Account (stranded m h r) (s.loaded && (s.vars r).isSome) (s.vars r)

end Semantics

section Closed

variable [DecidableEq ρ] {code : ρ → Nat} {s s' : State ρ} {r : ρ} {rs : List ρ}

/-- A load acquires, and releases at its return. -/
theorem load_eq (gs : List (Stage ρ)) : ∀ s : State ρ, load code gs s =
    ((returned code gs).2, (s.acquireAll (acquired code gs)).releaseAll (returned code gs).1) := by
  induction gs with
  | nil => intro s; rfl
  | cons g gs ih =>
      intro s
      by_cases hcode : code g.resource = 0
      · rw [load, acquired, returned, if_pos hcode, if_pos hcode, if_pos hcode, ih]
        rfl
      · rw [load, acquired, returned, if_neg hcode, if_neg hcode, if_neg hcode]
        cases g.onError with
        | oops => exact ih s
        | ignored => exact ih s
        | returns undo value => rfl

/-- What is not acquired stays as it is. -/
theorem acquireAll_of_notMem (rs : List ρ) (hr : r ∉ rs) : ∀ s : State ρ,
    (s.acquireAll rs).pools r = s.pools r ∧ (s.acquireAll rs).vars r = s.vars r := by
  induction rs with
  | nil => intro s; exact ⟨rfl, rfl⟩
  | cons r' rs ih =>
      intro s
      rw [List.mem_cons, not_or] at hr
      rcases ih hr.2 (s.acquire r') with ⟨hpools, hvars⟩
      refine ⟨hpools.trans ?_, hvars.trans ?_⟩
      · exact Function.update_of_ne hr.1 _ _
      · exact Function.update_of_ne hr.1 _ _

theorem acquireAll_of_mem (rs : List ρ) (hnodup : rs.Nodup) (hr : r ∈ rs) : ∀ s : State ρ,
    (s.acquireAll rs).pools r = (s.pools r).make ∧
      (s.acquireAll rs).vars r = some (s.pools r).made := by
  induction rs with
  | nil => exact absurd hr List.not_mem_nil
  | cons r' rs ih =>
      intro s
      rw [List.nodup_cons] at hnodup
      by_cases heq : r = r'
      · -- It is acquired now, and not again.
        subst heq
        rcases acquireAll_of_notMem rs hnodup.1 (s.acquire r) with ⟨hpools, hvars⟩
        refine ⟨hpools.trans ?_, hvars.trans ?_⟩
        · exact Function.update_self _ _ _
        · exact Function.update_self _ _ _
      · rcases ih hnodup.2 (List.mem_of_ne_of_mem heq hr) (s.acquire r') with ⟨hpools, hvars⟩
        have hkept : (s.acquire r').pools r = s.pools r := Function.update_of_ne heq _ _
        rw [hkept] at hpools hvars
        exact ⟨hpools, hvars⟩

theorem releaseAll_vars (rs : List ρ) : ∀ s : State ρ,
    (s.releaseAll rs).vars = s.vars ∧ (s.releaseAll rs).loaded = s.loaded := by
  induction rs with
  | nil => intro s; exact ⟨rfl, rfl⟩
  | cons r rs ih => intro s; exact ih _

theorem releaseAll_of_notMem (rs : List ρ) (hr : r ∉ rs) : ∀ s : State ρ,
    (s.releaseAll rs).pools r = s.pools r := by
  induction rs with
  | nil => intro s; rfl
  | cons r' rs ih =>
      intro s
      rw [List.mem_cons, not_or] at hr
      exact (ih hr.2 _).trans (Function.update_of_ne hr.1 _ _)

/-- What is released once is released once. -/
theorem releaseAll_of_mem (rs : List ρ) (hnodup : rs.Nodup) (hr : r ∈ rs) : ∀ s : State ρ,
    (s.releaseAll rs).pools r = (s.pools r).releaseOpt (s.vars r) := by
  induction rs with
  | nil => exact absurd hr List.not_mem_nil
  | cons r' rs ih =>
      intro s
      rw [List.nodup_cons] at hnodup
      by_cases heq : r = r'
      · subst heq
        exact (releaseAll_of_notMem rs hnodup.1 _).trans (Function.update_self _ _ _)
      · have hkept : (s.release r').pools r = s.pools r := Function.update_of_ne heq _ _
        rw [← hkept]
        exact ih hnodup.2 (List.mem_of_ne_of_mem heq hr) (s.release r')

omit [DecidableEq ρ] in
/-- A load acquires what its calls are for, in their order. -/
theorem acquired_sublist (gs : List (Stage ρ)) :
    (acquired code gs).Sublist (gs.map Stage.resource) := by
  induction gs with
  | nil => exact .slnil
  | cons g gs ih =>
      rw [acquired, List.map_cons]
      split
      · exact ih.cons_cons _
      · cases g.onError with
        | oops => exact ih.cons _
        | ignored => exact ih.cons _
        | returns undo value => exact List.nil_sublist _

omit [DecidableEq ρ] in
theorem acquired_nodup {gs : List (Stage ρ)} (h : (gs.map Stage.resource).Nodup) :
    (acquired code gs).Nodup :=
  (acquired_sublist gs).nodup h

omit [DecidableEq ρ] in
/-- A load goes to its end, or returns an error and releases nothing twice. -/
theorem returned_cases (code : ρ → Nat) {gs : List (Stage ρ)}
    (h : ∀ g ∈ gs, g.onError.Ok) :
    returned code gs = ([], 0) ∨ (returned code gs).1.Nodup ∧ (returned code gs).2 < 0 := by
  induction gs with
  | nil => exact .inl rfl
  | cons g gs ih =>
      have ih := ih fun g' hg' => h g' (List.mem_cons_of_mem g hg')
      have hg := h g List.mem_cons_self
      rw [returned]
      by_cases hcode : code g.resource = 0
      · rw [if_pos hcode]
        exact ih
      · rw [if_neg hcode]
        cases herror : g.onError with
        | oops => exact ih
        | ignored => exact ih
        | returns undo value =>
            rw [herror] at hg
            refine .inr ⟨hg.1, ?_⟩
            cases value with
            | none =>
                simp only [Option.getD_none]
                omega
            | some v => exact hg.2 v rfl

end Closed

section Steps

variable [DecidableEq ρ] {m : Module ρ} {s s' : State ρ} {l : Step ρ}
  {h : History (State ρ) (Step ρ)} {r : ρ}

theorem init_books : Books m [] State.init := fun _ => Pool.empty_account

theorem stranded_cons_some {p : State ρ × Step ρ} {n : Nat} (hn : strands m r p = some n) :
    stranded m (p :: h) r = n :: stranded m h r := by
  rw [stranded, List.filterMap_cons_some hn, stranded]

theorem stranded_cons_none {p : State ρ × Step ρ} (hn : strands m r p = none) :
    stranded m (p :: h) r = stranded m h r := by
  rw [stranded, List.filterMap_cons_none hn, stranded]

/-- The books of a resource after a load that goes to its end. -/
theorem load_done (hm : m.Ok) {code : ρ → Nat}
    (hr : (s.pools r).Account (stranded m h r) false none)
    (hdone : returned code m.init = ([], 0)) :
    (((load code m.init s.fresh).2).pools r).Account (stranded m ((s, .load code) :: h) r)
      (((load code m.init s.fresh).2).vars r).isSome (((load code m.init s.fresh).2).vars r) := by
  have hnone : strands m r (s, .load code) = none := by
    rw [strands, left, hdone, if_pos (Int.le_refl 0), if_neg List.not_mem_nil]
  rw [stranded_cons_none hnone, load_eq, hdone]
  by_cases hmem : r ∈ acquired code m.init
  · rcases acquireAll_of_mem _ (acquired_nodup hm.init) hmem s.fresh with ⟨hpools, hvars⟩
    simp only [State.releaseAll, List.foldl_nil, hpools, hvars, Option.isSome_some]
    exact hr.make
  · rcases acquireAll_of_notMem _ hmem s.fresh with ⟨hpools, hvars⟩
    simp only [State.releaseAll, List.foldl_nil, hpools, hvars]
    exact hr

/-- And after one that returns an error. -/
theorem load_fails (hm : m.Ok) {code : ρ → Nat}
    (hr : (s.pools r).Account (stranded m h r) false none)
    (hnodup : (returned code m.init).1.Nodup) (hneg : (returned code m.init).2 < 0) :
    (((load code m.init s.fresh).2).pools r).Account (stranded m ((s, .load code) :: h) r) false
      (((load code m.init s.fresh).2).vars r) := by
  have hleft : r ∈ left m code ↔
      r ∈ acquired code m.init ∧ r ∉ (returned code m.init).1 := by
    rw [left, if_neg (Int.not_le.mpr hneg), List.mem_filter, decide_eq_true_eq]
  rw [load_eq]
  by_cases hmem : r ∈ acquired code m.init
  · rcases acquireAll_of_mem _ (acquired_nodup hm.init) hmem s.fresh with ⟨hpools, hvars⟩
    by_cases hundo : r ∈ (returned code m.init).1
    · have hnone : strands m r (s, .load code) = none := by
        rw [strands, if_neg fun hl => (hleft.mp hl).2 hundo]
      rw [stranded_cons_none hnone, releaseAll_of_mem _ hnodup hundo, hpools, hvars]
      exact hr.make.release
    · -- Nobody releases what is not undone.
      have hsome : strands m r (s, .load code) = some (s.pools r).made := by
        rw [strands, if_pos (hleft.mpr ⟨hmem, hundo⟩)]
      rw [stranded_cons_some hsome, releaseAll_of_notMem _ hundo, hpools]
      exact hr.make.lose
  · rcases acquireAll_of_notMem _ hmem s.fresh with ⟨hpools, hvars⟩
    have hnone : strands m r (s, .load code) = none := by
      rw [strands, if_neg fun hl => hmem (hleft.mp hl).1]
    rw [stranded_cons_none hnone]
    by_cases hundo : r ∈ (returned code m.init).1
    · rw [releaseAll_of_mem _ hnodup hundo, hpools, hvars]
      exact hr.unheld
    · rw [releaseAll_of_notMem _ hundo, hpools]
      exact hr.unheld

/-- The books of a resource after an unload. -/
theorem unload_books (hm : m.Ok)
    (hr : (s.pools r).Account (stranded m h r) (s.vars r).isSome (s.vars r)) :
    ((s.releaseAll m.exit).pools r).Account (stranded m ((s, .unload) :: h) r) false
      ((s.releaseAll m.exit).vars r) := by
  rw [(releaseAll_vars m.exit s).1]
  by_cases hexit : r ∈ m.exit
  · have hnone : strands m r (s, .unload) = none := by rw [strands, if_pos hexit]
    rw [stranded_cons_none hnone, releaseAll_of_mem _ hm.exit hexit]
    cases hvar : s.vars r with
    | none =>
        rw [hvar] at hr
        exact hr
    | some n =>
        rw [hvar] at hr
        exact hr.release
  · rw [releaseAll_of_notMem _ hexit]
    have hvar : strands m r (s, .unload) = s.vars r := by rw [strands, if_neg hexit]
    cases hn : s.vars r with
    | none =>
        rw [hn] at hr
        rw [stranded_cons_none (hvar.trans hn)]
        exact hr
    | some n =>
        rw [hn] at hr
        rw [stranded_cons_some (hvar.trans hn)]
        exact hr.lose

/-- Every step keeps the books. -/
theorem step_books (hm : m.Ok) (hb : Books m h s) (hstep : step m l s = some s') :
    Books m ((s, l) :: h) s' := by
  intro r
  have hr := hb r
  cases l with
  | load code =>
      rw [step, Option.ite_none_left_eq_some, Option.some.injEq] at hstep
      rcases hstep with ⟨hopen, rfl⟩
      have hloaded : s.loaded = false := Bool.eq_false_iff.mpr fun h => hopen (.inl h)
      rw [hloaded, Bool.false_and] at hr
      have hvalue : (load code m.init s.fresh).1 = (returned code m.init).2 := by rw [load_eq]
      rcases returned_cases code hm.undo with hdone | ⟨hnodup, hneg⟩
      · have hbooks := load_done hm hr.unheld hdone
        rw [hdone] at hvalue
        simp only [hvalue, Int.le_refl, decide_true, Bool.true_and]
        exact hbooks
      · have hbooks := load_fails hm hr.unheld hnodup hneg
        simp only [hvalue, Int.not_le.mpr hneg, decide_false, Bool.false_and]
        exact hbooks
  | unload =>
      rw [step, Option.ite_none_right_eq_some, Option.some.injEq] at hstep
      rcases hstep with ⟨hloaded, rfl⟩
      rw [hloaded, Bool.true_and] at hr
      exact unload_books hm hr

theorem run_books (hm : m.Ok) (hr : Run (step m) State.init h s) : Books m h s :=
  hr.historyInvariant (Books m) init_books fun _ _ _ _ _ hb hstep => step_books hm hb hstep

/-- No instance is left to nobody twice. -/
theorem stranded_nodup (hm : m.Ok) (hr : Run (step m) State.init h s) :
    (stranded m h r).Nodup := by
  refine hr.historyInvariant (fun h _ => (stranded m h r).Nodup) List.nodup_nil ?_
  intro h s l s' hr hnodup hstep
  have hb := run_books hm hr r
  cases hn : strands m r (s, l) with
  | none =>
      rw [stranded_cons_none hn]
      exact hnodup
  | some n =>
      rw [stranded_cons_some hn]
      refine List.nodup_cons.mpr ⟨fun hmem => ?_, hnodup⟩
      cases l with
      | load code =>
          -- The instance was not made before this step.
          simp only [strands, Option.ite_none_right_eq_some, Option.some.injEq] at hn
          have hlt := hb.owns.made n (.inl hmem)
          rw [← hn.2] at hlt
          exact absurd hlt (Nat.lt_irrefl _)
      | unload =>
          rw [step, Option.ite_none_right_eq_some] at hstep
          simp only [strands, Option.ite_none_left_eq_some] at hn
          rw [hstep.1, hn.2] at hb
          exact hb.apart rfl n rfl hmem

/-- There are as many as steps that leave one. -/
theorem stranded_length (m : Module ρ) (h : History (State ρ) (Step ρ)) (r : ρ) :
    (stranded m h r).length = h.countP fun p => (strands m r p).isSome :=
  List.length_filterMap_eq_countP

omit [DecidableEq ρ] in
/-- What a load does not go without is there at its end. -/
theorem mem_acquired {code : ρ → Nat} {gs : List (Stage ρ)} (h : ∀ g ∈ gs, g.onError.Ok)
    (hreturns : oopses code gs = false) (hdone : 0 ≤ (returned code gs).2) {g : Stage ρ}
    (hg : g ∈ gs) (herror : g.onError ≠ .ignored) : g.resource ∈ acquired code gs := by
  induction gs with
  | nil => exact absurd hg List.not_mem_nil
  | cons g' gs ih =>
      have htail := ih fun g hg => h g (List.mem_cons_of_mem g' hg)
      rw [acquired]
      rw [oopses] at hreturns
      rw [returned] at hdone
      by_cases hcode : code g'.resource = 0
      · rw [if_pos hcode] at hreturns hdone ⊢
        rcases List.mem_cons.mp hg with rfl | hg
        · exact List.mem_cons_self
        · exact List.mem_cons_of_mem _ (htail hreturns hdone hg)
      · rw [if_neg hcode] at hreturns hdone ⊢
        cases herror' : g'.onError with
        | oops =>
            rw [herror'] at hreturns
            exact absurd hreturns Bool.noConfusion
        | ignored =>
            rw [herror'] at hreturns hdone
            rcases List.mem_cons.mp hg with rfl | hg
            · exact absurd herror' herror
            · exact htail hreturns hdone hg
        | returns undo value =>
            -- The load has returned an error here.
            have hok := h g' List.mem_cons_self
            rw [herror'] at hdone hok
            cases value with
            | none =>
                simp only [Option.getD_none] at hdone
                omega
            | some v => exact absurd (hok.2 v rfl) (Int.not_lt.mpr hdone)

/-- A loaded module has what it does not go without. -/
theorem run_present (hm : m.Ok) (hr : Run (step m) State.init h s) (hloaded : s.loaded = true)
    {g : Stage ρ} (hg : g ∈ m.init) (herror : g.onError ≠ .ignored) :
    s.vars g.resource ≠ none := by
  refine hr.invariant (fun s => s.loaded = true → s.vars g.resource ≠ none)
    (fun h => Bool.noConfusion h) ?_ hloaded
  intro s l s' _ hstep hloaded'
  cases l with
  | load code =>
      rw [step, Option.ite_none_left_eq_some, Option.some.injEq] at hstep
      rcases hstep with ⟨hopen, rfl⟩
      have hreturns : oopses code m.init = false := Bool.eq_false_iff.mpr fun h => hopen (.inr h)
      simp only [load_eq, decide_eq_true_eq] at hloaded'
      have hmem := mem_acquired hm.undo hreturns hloaded' hg herror
      rcases acquireAll_of_mem _ (acquired_nodup hm.init) hmem s.fresh with ⟨_, hvars⟩
      simp only [load_eq, (releaseAll_vars _ _).1, hvars]
      exact Option.some_ne_none _
  | unload =>
      rw [step, Option.ite_none_right_eq_some, Option.some.injEq] at hstep
      rcases hstep with ⟨_, rfl⟩
      exact absurd hloaded' Bool.false_ne_true

/-- And its variables point to nothing else. -/
theorem run_absent (hr : Run (step m) State.init h s) (habsent : r ∉ m.init.map Stage.resource) :
    s.vars r = none := by
  refine hr.invariant (fun s => s.vars r = none) rfl ?_
  intro s l s' hnone hstep
  cases l with
  | load code =>
      rw [step, Option.ite_none_left_eq_some, Option.some.injEq] at hstep
      rcases hstep with ⟨_, rfl⟩
      have hmem : r ∉ acquired code m.init := fun hmem =>
        habsent ((acquired_sublist m.init).subset hmem)
      simp only [load_eq, (releaseAll_vars _ _).1, (acquireAll_of_notMem _ hmem s.fresh).2]
      rfl
  | unload =>
      rw [step, Option.ite_none_right_eq_some, Option.some.injEq] at hstep
      rcases hstep with ⟨_, rfl⟩
      simp only [(releaseAll_vars _ _).1, hnone]

end Steps

end Stages

end Lib

end KernelModules
