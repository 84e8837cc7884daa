import Mathlib.Logic.Basic

/-!
# Mutual exclusion

A mutex that is free or owned by one thread, and a program in which the place of
each thread says whether it is between its lock and its unlock.  `Discipline`
ties the two together.  A step of one thread keeps it if the step acquires the free
mutex, releases it behind its lock, or does neither.
-/

namespace WhiteSmo
namespace Mutex

variable {T : Type}

/-- The owner of the mutex is the thread that is between its lock and its unlock. -/
def Discipline (mutex : Option T) (holds : T → Bool) : Prop :=
  ∀ t, mutex = some t ↔ holds t = true

/-- What one step of `t` does to the mutex and to the place of `t`. -/
inductive Moves (t : T) : Option T → Bool → Option T → Bool → Prop
  | acquire : Moves t none false (some t) true
  | release {mutex : Option T} : Moves t mutex true none false
  | keep {mutex : Option T} {held : Bool} : Moves t mutex held mutex held

section

variable {mutex mutex' : Option T} {holds holds' : T → Bool} {t u : T}

theorem Discipline.moves (h : Discipline mutex holds)
    (hmoves : Moves t mutex (holds t) mutex' (holds' t))
    (hothers : ∀ u, u ≠ t → holds' u = holds u) : Discipline mutex' holds' := by
  intro u
  generalize hheld : holds t = held at hmoves
  generalize hheld' : holds' t = held' at hmoves
  by_cases hu : u = t
  · subst hu
    cases hmoves with
    | acquire => simp [hheld']
    | release => simp [hheld']
    | keep =>
      rw [hheld', ← hheld]
      exact h u
  · have hne : some t ≠ some u := fun heq => hu (Option.some.inj heq).symm
    rw [hothers u hu, ← h u]
    cases hmoves with
    | acquire => simp [hne]
    | release =>
      have howner : mutex = some t := (h t).mpr hheld
      simp [howner, hne]
    | keep => exact Iff.rfl

/-- At most one thread is between its lock and its unlock. -/
theorem Discipline.exclusive (h : Discipline mutex holds) (ht : holds t = true)
    (hu : holds u = true) : t = u :=
  Option.some.inj (((h t).mpr ht).symm.trans ((h u).mpr hu))

end

end Mutex
end WhiteSmo
