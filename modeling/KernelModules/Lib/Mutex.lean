import Mathlib.Logic.Function.Basic

/-!
# Locks

A lock that one task at a time can hold, with the tasks that run under it. The
program of a task has a section that is guarded by the lock: a task takes the
lock where it enters the section, and gives it back where it leaves.

`Guarded` says that the lock is held by the task that is in the section, if
any. A step of a program changes one task, so there are three cases: the task
stays in the section or out of it, it enters, or it leaves.

## Main definitions

* `Guarded`: The holder of a lock is the task in its section.

## Theorems

* `Guarded.unique`: Two tasks in the section are one.
* `Guarded.bind_eq`, `Guarded.bind_update`: The task that holds the lock.
* `Guarded.stay`, `Guarded.take`, `Guarded.free`: The cases of a step.
* `Guarded.start`, `Guarded.drop`: Tasks that begin and end.
-/

namespace KernelModules

namespace Lib

variable {ι C : Type*}

/-- The task that is in the section holds the lock, and no other task does. -/
structure Guarded (In : C → Prop) (lock : Option ι) (tasks : ι → Option C) : Prop where
  holds : ∀ t c, tasks t = some c → In c → lock = some t
  inside : ∀ t, lock = some t → ∃ c, tasks t = some c ∧ In c

namespace Guarded

variable {In : C → Prop} {lock : Option ι} {tasks : ι → Option C} {t u : ι} {c c' : C}
  {x : Option C}

theorem none_iff (hg : Guarded In lock tasks) :
    lock = none ↔ ∀ t c, tasks t = some c → ¬ In c := by
  constructor
  · intro hfree t c hc hin
    rw [hg.holds t c hc hin] at hfree
    exact absurd hfree (Option.some_ne_none t)
  · intro hout
    cases hlock : lock with
    | none => rfl
    | some t =>
        rcases hg.inside t hlock with ⟨c, hc, hin⟩
        exact absurd hin (hout t c hc)

/-- Two tasks in the section are one. -/
theorem unique (hg : Guarded In lock tasks) (hc : tasks t = some c) (hin : In c)
    (hc' : tasks u = some c') (hin' : In c') : t = u := by
  have hheld := hg.holds t c hc hin
  rw [hg.holds u c' hc' hin', Option.some.injEq] at hheld
  exact hheld.symm

/-- The holder of the lock is the task in the section. -/
theorem bind_eq (hg : Guarded In lock tasks) (hc : tasks t = some c) (hin : In c) :
    lock.bind tasks = some c := by
  rw [hg.holds t c hc hin, Option.bind_some, hc]

/-- And it is in the section. -/
theorem of_bind_eq (hg : Guarded In lock tasks) (h : lock.bind tasks = some c) :
    ∃ t, tasks t = some c ∧ In c := by
  rcases Option.bind_eq_some_iff.mp h with ⟨t, hlock, hc⟩
  rcases hg.inside t hlock with ⟨c', hc', hin⟩
  rw [hc, Option.some.injEq] at hc'
  exact ⟨t, hc, hc' ▸ hin⟩

variable [DecidableEq ι]

/-- What becomes of another task does not matter to the holder. -/
theorem bind_update (hg : Guarded In lock tasks) (hout : ∀ c, tasks t = some c → ¬ In c) :
    lock.bind (Function.update tasks t x) = lock.bind tasks := by
  cases hlock : lock with
  | none => rfl
  | some u =>
      rcases hg.inside u hlock with ⟨c, hc, hin⟩
      have hne : u ≠ t := by
        rintro rfl
        exact hout c hc hin
      rw [Option.bind_some, Option.bind_some, Function.update_of_ne hne]

/-- A task goes on in the section, or outside of it. -/
theorem keep (hg : Guarded In lock tasks)
    (hx : (∃ c, x = some c ∧ In c) ↔ ∃ c, tasks t = some c ∧ In c) :
    Guarded In lock (Function.update tasks t x) where
  holds := by
    intro u c hc hin
    by_cases hut : u = t
    · rw [hut, Function.update_self] at hc
      rcases hx.mp ⟨c, hc, hin⟩ with ⟨c', hc', hin'⟩
      rw [hut]
      exact hg.holds t c' hc' hin'
    · rw [Function.update_of_ne hut] at hc
      exact hg.holds u c hc hin
  inside := by
    intro u hu
    by_cases hut : u = t
    · rw [hut, Function.update_self]
      exact hx.mpr (hg.inside t (hut ▸ hu))
    · rw [Function.update_of_ne hut]
      exact hg.inside u hu

theorem stay (hg : Guarded In lock tasks) (hc : tasks t = some c) (hin : In c' ↔ In c) :
    Guarded In lock (Function.update tasks t (some c')) :=
  hg.keep (by simp only [hc, Option.some.injEq, exists_eq_left', hin])

/-- A task that is not in the section ends. -/
theorem drop (hg : Guarded In lock tasks) (hc : tasks t = some c) (hout : ¬ In c) :
    Guarded In lock (Function.update tasks t none) :=
  hg.keep (by simp only [hc, reduceCtorEq, false_and, exists_false, Option.some.injEq,
    exists_eq_left', hout])

/-- A task begins outside of the section. -/
theorem start (hg : Guarded In lock tasks) (hnone : tasks t = none) (hout : ¬ In c) :
    Guarded In lock (Function.update tasks t (some c)) :=
  hg.keep (by simp only [hnone, reduceCtorEq, false_and, exists_false, Option.some.injEq,
    exists_eq_left', hout])

/-- A task enters the section. -/
theorem take (hg : Guarded In lock tasks) (hfree : lock = none) (hin : In c) :
    Guarded In (some t) (Function.update tasks t (some c)) where
  holds := by
    intro u c' hc' hin'
    by_cases hut : u = t
    · rw [hut]
    · rw [Function.update_of_ne hut] at hc'
      exact absurd hin' (hg.none_iff.mp hfree u c' hc')
  inside := by
    intro u hu
    rw [Option.some.injEq] at hu
    exact ⟨c, by rw [hu, Function.update_self], hin⟩

/-- A task leaves the section. -/
theorem free (hg : Guarded In lock tasks) (hc : tasks t = some c) (hin : In c)
    (hx : ∀ c', x = some c' → ¬ In c') : Guarded In none (Function.update tasks t x) where
  holds := by
    intro u c' hc' hin'
    by_cases hut : u = t
    · rw [hut, Function.update_self] at hc'
      exact absurd hin' (hx c' hc')
    · rw [Function.update_of_ne hut] at hc'
      exact absurd (hg.unique hc' hin' hc hin) hut
  inside := fun u hu => absurd hu (Option.some_ne_none u).symm

end Guarded

end Lib

end KernelModules
