import Mathlib.Data.List.Basic

/-!
# Fields of a message

A field says how a value is written in front of what follows, and how it is read back
from there.  Reading undoes writing for the legal values, whatever follows.  A message is
a sequence of fields, and what holds of a field then holds of the sequence: it is read
back, and two messages are equal only when their values are.
-/

namespace WhiteSmo

structure Field (α β : Type) where
  put : β → List α
  get : List α → Option (β × List α)
  Legal : β → Prop
  get_put : ∀ {value : β} (rest : List α),
    Legal value → get (put value ++ rest) = some (value, rest)

namespace Field

variable {α β γ : Type}

theorem get_put_nil (field : Field α β) {value : β} (h : field.Legal value) :
    field.get (field.put value) = some (value, []) := by
  rw [← field.get_put [] h, List.append_nil]

/-- A legal value cannot be taken for another one. -/
theorem put_injective (field : Field α β) {value value' : β} (h : field.Legal value)
    (h' : field.Legal value') (heq : field.put value = field.put value') : value = value' := by
  have hget := field.get_put_nil h
  rw [heq, field.get_put_nil h'] at hget
  exact (congrArg Prod.fst (Option.some.inj hget)).symm

/-! ## Single fields -/

/-- One element. -/
def one : Field α α where
  put x := [x]
  get
    | [] => none
    | x :: rest => some (x, rest)
  Legal _ := True
  get_put _ _ := rfl

/-- `n` elements. -/
def fixed (n : Nat) : Field α (List α) where
  put value := value
  get input := if n ≤ input.length then some (input.take n, input.drop n) else none
  Legal value := value.length = n
  get_put := by
    intro value rest hlen
    subst hlen
    rw [if_pos (by rw [List.length_append]; omega), List.take_left, List.drop_left]

def getTerminated [DecidableEq α] (d : α) : List α → Option (List α × List α)
  | [] => none
  | x :: rest =>
    if x = d then some ([], rest) else (getTerminated d rest).map fun r => (x :: r.1, r.2)

theorem getTerminated_append [DecidableEq α] {d : α} {value : List α} (h : d ∉ value)
    (rest : List α) : getTerminated d (value ++ d :: rest) = some (value, rest) := by
  induction value with
  | nil => exact if_pos rfl
  | cons x value ih =>
    obtain ⟨hx, hvalue⟩ := not_or.mp (List.mem_cons.not.mp h)
    rw [List.cons_append, getTerminated, if_neg (Ne.symm hx), ih hvalue]
    rfl

/-- Everything up to the first `d`. -/
def terminated [DecidableEq α] (d : α) : Field α (List α) where
  put value := value ++ [d]
  get := getTerminated d
  Legal value := d ∉ value
  get_put := by
    intro value rest h
    rw [List.append_assoc]
    exact getTerminated_append h rest

/-! ## Combinations -/

/-- One field behind the other. -/
def seq (first : Field α β) (second : Field α γ) : Field α (β × γ) where
  put value := first.put value.1 ++ second.put value.2
  get input :=
    (first.get input).bind fun r => (second.get r.2).map fun r' => ((r.1, r'.1), r'.2)
  Legal value := first.Legal value.1 ∧ second.Legal value.2
  get_put := by
    intro value rest h
    rw [List.append_assoc, first.get_put _ h.1, Option.bind_some, second.get_put _ h.2]
    rfl

/-- The values of `field` under other names. -/
def image (field : Field α β) (f : β → γ) (g : γ → β) (P : γ → Prop)
    (hP : ∀ value, P value → field.Legal (g value) ∧ f (g value) = value) : Field α γ where
  put value := field.put (g value)
  get input := (field.get input).map fun r => (f r.1, r.2)
  Legal := P
  get_put := by
    intro value rest h
    obtain ⟨hlegal, hinv⟩ := hP value h
    rw [field.get_put rest hlegal, Option.map_some, hinv]

end Field
end WhiteSmo
