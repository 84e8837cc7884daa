import Mathlib.Data.Set.Insert
import Mathlib.Logic.Function.Basic

/-!
# Descriptors and who may close them

A descriptor number is handed out when it is not open and can be handed out again
once it has been closed.  A ledger says who may still close what.  If every
descriptor that is closed is one that the closing party may still close, and it
gives that up with the close, then no descriptor is closed twice between two
openings.
-/

namespace WhiteSmo
namespace Descriptors

variable {Owner Fd : Type} [DecidableEq Fd]

inductive Use (Fd : Type)
  | opening (fd : Fd)
  | closing (fd : Fd)

/-- How often `fd` has been closed since it was opened last. -/
def closes (fd : Fd) (uses : List (Use Fd)) : Nat :=
  uses.foldl
    (fun n use =>
      match use with
      | .opening fd' => if fd' = fd then 0 else n
      | .closing fd' => if fd' = fd then n + 1 else n) 0

structure Ledger (Owner Fd : Type) where
  owned : Set (Owner × Fd)
  opened : Fd → Bool
  uses : List (Use Fd)

namespace Ledger

/-- What is owned is open and has one owner; what is open has not been closed. -/
structure Sound (l : Ledger Owner Fd) : Prop where
  opened : ∀ o fd, (o, fd) ∈ l.owned → l.opened fd = true
  own : ∀ o o' fd, (o, fd) ∈ l.owned → (o', fd) ∈ l.owned → o = o'
  once : ∀ fd, closes fd l.uses ≤ 1
  none : ∀ fd, l.opened fd = true → closes fd l.uses = 0

/-- What one step may do.  Ownership can always be given up. -/
inductive Moves (l l' : Ledger Owner Fd) : Prop
  | keep (howned : l'.owned ⊆ l.owned) (hopened : l'.opened = l.opened) (huses : l'.uses = l.uses)
  | opening (o : Owner) (fd : Fd) (hfree : l.opened fd = false)
      (howned : l'.owned ⊆ insert (o, fd) l.owned)
      (hopened : l'.opened = Function.update l.opened fd true)
      (huses : l'.uses = l.uses ++ [.opening fd])
  | closing (o : Owner) (fd : Fd) (hmine : (o, fd) ∈ l.owned)
      (howned : l'.owned ⊆ l.owned \ {(o, fd)})
      (hopened : l'.opened = Function.update l.opened fd false)
      (huses : l'.uses = l.uses ++ [.closing fd])

end Ledger

theorem closes_opening (fd fd' : Fd) (uses : List (Use Fd)) :
    closes fd (uses ++ [.opening fd']) = if fd' = fd then 0 else closes fd uses := by
  rw [closes, List.foldl_append]
  rfl

theorem closes_closing (fd fd' : Fd) (uses : List (Use Fd)) :
    closes fd (uses ++ [.closing fd']) =
      if fd' = fd then closes fd uses + 1 else closes fd uses := by
  rw [closes, List.foldl_append]
  rfl

theorem Ledger.Sound.moves {l l' : Ledger Owner Fd} (h : l.Sound) (hmoves : l.Moves l') :
    l'.Sound := by
  cases hmoves with
  | keep howned hopened huses =>
    refine ⟨fun o fd hmem => ?_, fun o o' fd hmem hmem' => ?_, fun fd => ?_, fun fd hopen => ?_⟩
    · rw [hopened]
      exact h.opened o fd (howned hmem)
    · exact h.own o o' fd (howned hmem) (howned hmem')
    · rw [huses]
      exact h.once fd
    · rw [hopened] at hopen
      rw [huses]
      exact h.none fd hopen
  | opening owner fd hfree howned hopened huses =>
    -- nobody owned the descriptor, since it was not open
    have hold : ∀ o, (o, fd) ∉ l.owned := by
      intro o hmem
      have hopen := h.opened o fd hmem
      rw [hfree] at hopen
      cases hopen
    have hcases : ∀ o fd', (o, fd') ∈ l'.owned →
        (o = owner ∧ fd' = fd) ∨ (fd' ≠ fd ∧ (o, fd') ∈ l.owned) := by
      intro o fd' hmem
      rcases howned hmem with heq | hmem
      · exact Or.inl (Prod.mk.inj heq)
      · exact Or.inr ⟨fun heq => hold o (heq ▸ hmem), hmem⟩
    refine ⟨fun o fd' hmem => ?_, fun o o' fd' hmem hmem' => ?_, fun fd' => ?_,
      fun fd' hopen => ?_⟩
    · rw [hopened]
      rcases hcases o fd' hmem with ⟨-, rfl⟩ | ⟨hne, hmem⟩
      · rw [Function.update_self]
      · rw [Function.update_of_ne hne]
        exact h.opened o fd' hmem
    · rcases hcases o fd' hmem with ⟨rfl, rfl⟩ | ⟨hne, hmem⟩
      · rcases hcases o' fd' hmem' with ⟨rfl, -⟩ | ⟨hne, -⟩
        · rfl
        · exact absurd rfl hne
      · rcases hcases o' fd' hmem' with ⟨-, heq⟩ | ⟨-, hmem'⟩
        · exact absurd heq hne
        · exact h.own o o' fd' hmem hmem'
    · rw [huses, closes_opening]
      split
      · exact Nat.zero_le 1
      · exact h.once fd'
    · rw [huses, closes_opening]
      by_cases heq : fd = fd'
      · rw [if_pos heq]
      · rw [hopened, Function.update_of_ne (Ne.symm heq)] at hopen
        rw [if_neg heq]
        exact h.none fd' hopen
  | closing owner fd hmine howned hopened huses =>
    -- the only owner of the descriptor gives it up
    have hcases : ∀ o fd', (o, fd') ∈ l'.owned → fd' ≠ fd ∧ (o, fd') ∈ l.owned := by
      intro o fd' hmem
      obtain ⟨hmem, hother⟩ := howned hmem
      refine ⟨fun heq => hother ?_, hmem⟩
      subst heq
      rw [h.own o owner fd' hmem hmine]
      rfl
    refine ⟨fun o fd' hmem => ?_, fun o o' fd' hmem hmem' => ?_, fun fd' => ?_,
      fun fd' hopen => ?_⟩
    · obtain ⟨hne, hmem⟩ := hcases o fd' hmem
      rw [hopened, Function.update_of_ne hne]
      exact h.opened o fd' hmem
    · exact h.own o o' fd' (hcases o fd' hmem).2 (hcases o' fd' hmem').2
    · rw [huses, closes_closing]
      by_cases heq : fd = fd'
      · subst heq
        rw [if_pos rfl, h.none fd (h.opened owner fd hmine)]
      · rw [if_neg heq]
        exact h.once fd'
    · rw [huses, closes_closing]
      by_cases heq : fd = fd'
      · subst heq
        rw [hopened, Function.update_self] at hopen
        cases hopen
      · rw [hopened, Function.update_of_ne (Ne.symm heq)] at hopen
        rw [if_neg heq]
        exact h.none fd' hopen

end Descriptors
end WhiteSmo
