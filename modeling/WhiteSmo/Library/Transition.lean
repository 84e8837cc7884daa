import Mathlib.Data.Option.Basic

/-!
# Runs of a transition system

A system is a partial step function: `none` means that the action is not possible
in the state.  `Meets` says that each step of a run is taken in a state where a
condition on the state and the action holds, `Occurs` that one step is.  `collect` is
what the steps of a run show to somebody who looks on.
-/

namespace WhiteSmo
namespace Transition

variable {S A : Type} (step : S → A → Option S)

/-- The state after all actions, if each was possible. -/
def run : S → List A → Option S
  | s, [] => some s
  | s, a :: actions => (step s a).bind fun s' => run s' actions

/-- The steps of a run meet a condition on the state before them. -/
def Meets (C : S → A → Prop) : S → List A → Prop
  | _, [] => True
  | s, a :: actions =>
    C s a ∧
      match step s a with
      | none => True
      | some s' => Meets C s' actions

/-- Some step of a run is taken in a state where a condition holds. -/
def Occurs (P : S → A → Prop) (s : S) (actions : List A) : Prop :=
  ∃ before a after t, actions = before ++ a :: after ∧ run step s before = some t ∧ P t a

/-- What the steps of a run show, one after another. -/
def collect {O : Type} (shows : S → A → List O) : S → List A → List O
  | _, [] => []
  | s, a :: actions =>
    shows s a ++
      match step s a with
      | none => []
      | some s' => collect shows s' actions

instance decidableMeets (C : S → A → Prop) [∀ s a, Decidable (C s a)] :
    ∀ s actions, Decidable (Meets step C s actions)
  | _, [] => instDecidableTrue
  | s, a :: actions =>
    have : Decidable (match step s a with
        | none => True
        | some s' => Meets step C s' actions) :=
      match step s a with
      | none => instDecidableTrue
      | some s' => decidableMeets C s' actions
    inferInstanceAs (Decidable (_ ∧ _))

section

variable {step} {C : S → A → Prop} {I : S → Prop}

theorem run_cons {s s' : S} {a : A} {actions : List A} :
    run step s (a :: actions) = some s' ↔
      ∃ t, step s a = some t ∧ run step t actions = some s' :=
  Option.bind_eq_some_iff

theorem run_append (s : S) (first second : List A) :
    run step s (first ++ second) = (run step s first).bind fun t => run step t second := by
  induction first generalizing s with
  | nil => rfl
  | cons a first ih =>
    simp only [List.cons_append, run, Option.bind_assoc]
    exact congrArg (Option.bind (step s a)) (funext fun t => ih t)

/-- What holds at the start and is kept by every step that meets the condition holds
at the end of a run whose steps meet it. -/
theorem run_invariant_of_meets
    (hstep : ∀ s a s', C s a → step s a = some s' → I s → I s')
    {s s' : S} {actions : List A} (hrun : run step s actions = some s')
    (hmeets : Meets step C s actions) (hs : I s) : I s' := by
  induction actions generalizing s with
  | nil =>
    cases hrun
    exact hs
  | cons a actions ih =>
    obtain ⟨t, ht, hrest⟩ := run_cons.mp hrun
    obtain ⟨hfirst, hothers⟩ := hmeets
    rw [ht] at hothers
    exact ih hrest hothers (hstep s a t hfirst ht hs)

theorem meets_of_forall {actions : List A} (h : ∀ a ∈ actions, ∀ s, C s a) (s : S) :
    Meets step C s actions := by
  induction actions generalizing s with
  | nil => trivial
  | cons a actions ih =>
    refine ⟨h a List.mem_cons_self s, ?_⟩
    cases step s a with
    | none => trivial
    | some t => exact ih (fun b hb => h b (List.mem_cons_of_mem a hb)) t

theorem Meets.and {D : S → A → Prop} {s : S} {actions : List A} (hC : Meets step C s actions)
    (hD : Meets step D s actions) : Meets step (fun s a => C s a ∧ D s a) s actions := by
  induction actions generalizing s with
  | nil => trivial
  | cons a actions ih =>
    obtain ⟨hfirst, hC⟩ := hC
    obtain ⟨hfirst', hD⟩ := hD
    refine ⟨⟨hfirst, hfirst'⟩, ?_⟩
    cases ht : step s a with
    | none => trivial
    | some t =>
      rw [ht] at hC hD
      exact ih hC hD

/-- What holds at the start and is kept by every step holds at the end of a run. -/
theorem run_invariant (hstep : ∀ s a s', step s a = some s' → I s → I s')
    {s s' : S} {actions : List A} (hrun : run step s actions = some s') (hs : I s) : I s' :=
  run_invariant_of_meets (C := fun _ _ => True) (fun s a s' _ h => hstep s a s' h) hrun
    (meets_of_forall (fun _ _ _ => trivial) s) hs

theorem occurs_of_not_meets {P : S → A → Prop} {s : S} {actions : List A}
    (h : ¬ Meets step (fun s a => ¬ P s a) s actions) : Occurs step P s actions := by
  induction actions generalizing s with
  | nil => exact absurd trivial h
  | cons a actions ih =>
    by_cases hP : P s a
    · exact ⟨[], a, actions, s, rfl, rfl, hP⟩
    · cases ht : step s a with
      | none =>
        refine absurd ⟨hP, ?_⟩ h
        rw [ht]
        trivial
      | some t =>
        have hrest : ¬ Meets step (fun s a => ¬ P s a) t actions := by
          intro hrest
          refine h ⟨hP, ?_⟩
          rw [ht]
          exact hrest
        obtain ⟨before, b, after, u, rfl, hrun, hb⟩ := ih hrest
        exact ⟨a :: before, b, after, u, rfl, run_cons.mpr ⟨t, ht, hrun⟩, hb⟩

/-- What only a step of a certain kind can end holds at the end of a run, or the run has
such a step. -/
theorem run_invariant_or_occurs {P : S → A → Prop}
    (hstep : ∀ s a s', step s a = some s' → I s → I s' ∨ P s a)
    {s s' : S} {actions : List A} (hrun : run step s actions = some s') (hs : I s) :
    I s' ∨ Occurs step P s actions := by
  by_cases hmeets : Meets step (fun s a => ¬ P s a) s actions
  · refine Or.inl (run_invariant_of_meets (fun s a s' hP h hI => ?_) hrun hmeets hs)
    exact (hstep s a s' h hI).resolve_right hP
  · exact Or.inr (occurs_of_not_meets hmeets)

/-- An invariant of the state and of what the steps up to it have shown. -/
theorem run_collect {O : Type} {shows : S → A → List O} {J : S → List O → Prop}
    (hstep : ∀ s a s' shown, step s a = some s' → J s shown → J s' (shown ++ shows s a))
    {s s' : S} {actions : List A} (hrun : run step s actions = some s') (hs : J s []) :
    J s' (collect step shows s actions) := by
  have hgeneral : ∀ shown, J s shown → J s' (shown ++ collect step shows s actions) := by
    clear hs
    induction actions generalizing s with
    | nil =>
      intro shown hJ
      cases hrun
      rwa [collect, List.append_nil]
    | cons a actions ih =>
      intro shown hJ
      obtain ⟨t, ht, hrest⟩ := run_cons.mp hrun
      rw [collect, ht, ← List.append_assoc]
      exact ih hrest _ (hstep s a t shown ht hJ)
  exact hgeneral [] hs

/-- All that a run shows has a property exactly when each step shows such things only. -/
theorem forall_mem_collect_iff {O : Type} {shows : S → A → List O} {P : O → Prop} {s : S}
    {actions : List A} : (∀ o ∈ collect step shows s actions, P o) ↔
      Meets step (fun s a => ∀ o ∈ shows s a, P o) s actions := by
  induction actions generalizing s with
  | nil => exact iff_of_true (fun _ hnil => absurd hnil List.not_mem_nil) trivial
  | cons a actions ih =>
    rw [collect, List.forall_mem_append, Meets]
    refine and_congr_right fun _ => ?_
    cases step s a with
    | none => exact iff_of_true (fun _ hnil => absurd hnil List.not_mem_nil) trivial
    | some t => exact ih

/-- In runs whose steps meet `D`, a set of states that no step leaves, and that a step
enters exactly when it misses `C`, is avoided exactly if all steps meet `C`. -/
theorem run_avoids_iff_meets {B : S → Prop} {D : S → A → Prop}
    (hstep : ∀ s a s', step s a = some s' → I s → I s')
    (hstays : ∀ s a s', D s a → step s a = some s' → I s → B s → B s')
    (henters : ∀ s a s', D s a → step s a = some s' → I s → ¬ B s → (B s' ↔ ¬ C s a))
    {s s' : S} {actions : List A} (hrun : run step s actions = some s')
    (hD : Meets step D s actions) (hs : I s) (hgood : ¬ B s) :
    ¬ B s' ↔ Meets step C s actions := by
  induction actions generalizing s with
  | nil =>
    cases hrun
    exact iff_of_true hgood trivial
  | cons a actions ih =>
    obtain ⟨t, ht, hrest⟩ := run_cons.mp hrun
    obtain ⟨hfirst, hothers⟩ := hD
    rw [ht] at hothers
    have hmeets : Meets step C s (a :: actions) ↔ C s a ∧ Meets step C t actions := by
      rw [Meets, ht]
    rw [hmeets]
    by_cases hC : C s a
    · have ht' : ¬ B t := fun hbad => (henters s a t hfirst ht hs hgood).mp hbad hC
      rw [ih hrest hothers (hstep s a t ht hs) ht']
      exact (and_iff_right hC).symm
    · have ht' : B t := (henters s a t hfirst ht hs hgood).mpr hC
      have hend : I s' ∧ B s' := by
        refine run_invariant_of_meets (I := fun s => I s ∧ B s) (fun u b v hDu hb hu => ?_)
          hrest hothers ⟨hstep s a t ht hs, ht'⟩
        exact ⟨hstep u b v hb hu.1, hstays u b v hDu hb hu.1 hu.2⟩
      exact iff_of_false (not_not_intro hend.2) fun h => hC h.1

/-- Two conditions that say the same where an invariant holds, which is kept by the steps
that meet them, are met by the same runs. -/
theorem meets_congr {D : S → A → Prop}
    (hiff : ∀ s a s', step s a = some s' → I s → (C s a ↔ D s a))
    (hstep : ∀ s a s', step s a = some s' → I s → C s a → I s')
    {s s' : S} {actions : List A} (hrun : run step s actions = some s') (hs : I s) :
    Meets step C s actions ↔ Meets step D s actions := by
  induction actions generalizing s with
  | nil => exact Iff.rfl
  | cons a actions ih =>
    obtain ⟨t, ht, hrest⟩ := run_cons.mp hrun
    rw [Meets, Meets, ht, ← hiff s a t ht hs]
    exact and_congr_right fun hC => ih hrest (hstep s a t ht hs hC)

end

end Transition
end WhiteSmo
