import Mathlib.Data.List.Basic

/-!
# Delimited and zero-filled sequences

`getlines` splits at a delimiter the way repeated `std::getline` calls do: every
delimiter closes a piece, and what is left at the end is a piece only when it is
not empty.  `fill` extends a sequence to a fixed length with a padding value.
-/

namespace WhiteSmo
namespace Delimited

variable {α : Type} [DecidableEq α]

/-- The pieces still to come when `piece` has been read since the last
delimiter. -/
def getlinesFrom (d : α) : List α → List α → List (List α)
  | piece, [] => if piece = [] then [] else [piece]
  | piece, x :: rest =>
    if x = d then piece :: getlinesFrom d [] rest else getlinesFrom d (piece ++ [x]) rest

def getlines (d : α) (input : List α) : List (List α) := getlinesFrom d [] input

theorem getlinesFrom_append {d : α} {u : List α} (hu : d ∉ u) (piece rest : List α) :
    getlinesFrom d piece (u ++ rest) = getlinesFrom d (piece ++ u) rest := by
  induction u generalizing piece with
  | nil => simp
  | cons x u ih =>
    obtain ⟨hx, hu⟩ := not_or.mp (List.mem_cons.not.mp hu)
    rw [List.cons_append, getlinesFrom, if_neg (Ne.symm hx), ih hu, List.append_assoc]
    rfl

/-- A piece without delimiters is read up to the delimiter behind it. -/
theorem getlines_piece {d : α} {u : List α} (hu : d ∉ u) (rest : List α) :
    getlines d (u ++ d :: rest) = u :: getlines d rest := by
  rw [getlines, getlinesFrom_append hu, getlinesFrom, if_pos rfl, List.nil_append]
  rfl

theorem getlines_replicate (d : α) (n : Nat) :
    getlines d (List.replicate n d) = List.replicate n [] := by
  induction n with
  | zero => rfl
  | succ n ih =>
    rw [List.replicate_succ, List.replicate_succ, ← ih]
    exact getlines_piece (List.not_mem_nil) (List.replicate n d)

theorem not_mem_of_mem_getlinesFrom {d : α} :
    ∀ {input piece p : List α}, d ∉ piece → p ∈ getlinesFrom d piece input → d ∉ p := by
  intro input
  induction input with
  | nil =>
    intro piece p hpiece hp
    by_cases hnil : piece = []
    · simp [getlinesFrom, hnil] at hp
    · rw [getlinesFrom, if_neg hnil, List.mem_singleton] at hp
      rwa [hp]
  | cons x rest ih =>
    intro piece p hpiece hp
    by_cases hx : x = d
    · rw [getlinesFrom, if_pos hx, List.mem_cons] at hp
      rcases hp with rfl | hp
      · exact hpiece
      · exact ih (List.not_mem_nil) hp
    · rw [getlinesFrom, if_neg hx] at hp
      exact ih (by simp [hpiece, Ne.symm hx]) hp

theorem not_mem_of_mem_getlines {d : α} {input p : List α} (hp : p ∈ getlines d input) : d ∉ p :=
  not_mem_of_mem_getlinesFrom (List.not_mem_nil) hp

theorem getlinesFrom_ne_nil_iff {d : α} (piece input : List α) :
    getlinesFrom d piece input ≠ [] ↔ piece ≠ [] ∨ input ≠ [] := by
  induction input generalizing piece with
  | nil => by_cases hnil : piece = [] <;> simp [getlinesFrom, hnil]
  | cons x rest ih =>
    by_cases hx : x = d
    · simp [getlinesFrom, hx]
    · rw [getlinesFrom, if_neg hx, ih]
      simp

theorem two_le_length_getlinesFrom_iff {d : α} (piece input : List α) :
    2 ≤ (getlinesFrom d piece input).length ↔ d ∈ input.dropLast := by
  induction input generalizing piece with
  | nil => by_cases hnil : piece = [] <;> simp [getlinesFrom, hnil]
  | cons x rest ih =>
    by_cases hx : x = d
    · -- The piece that `x` closes is the first; any element behind it makes a second.
      have hmore : 2 ≤ (piece :: getlinesFrom d [] rest).length ↔ rest ≠ [] := by
        have hne := getlinesFrom_ne_nil_iff (d := d) [] rest
        rw [← List.length_pos_iff] at hne
        rw [List.length_cons]
        constructor
        · intro h
          simpa using hne.mp (by omega)
        · intro h
          have := hne.mpr (Or.inr h)
          omega
      rw [getlinesFrom, if_pos hx, hmore]
      cases rest with
      | nil => simp
      | cons y rest => simp [hx]
    · rw [getlinesFrom, if_neg hx, ih]
      cases rest with
      | nil => simp
      | cons y rest => simp [Ne.symm hx]

/-- There are two pieces when a delimiter has something behind it. -/
theorem two_le_length_getlines_iff {d : α} (input : List α) :
    2 ≤ (getlines d input).length ↔ d ∈ input.dropLast :=
  two_le_length_getlinesFrom_iff [] input

/-- `input` extended to `n` elements. -/
def fill (n : Nat) (x : α) (input : List α) : List α :=
  input ++ List.replicate (n - input.length) x

omit [DecidableEq α] in
theorem fill_length {n : Nat} {x : α} {input : List α} (h : input.length ≤ n) :
    (fill n x input).length = n := by
  simp only [fill, List.length_append, List.length_replicate]
  omega

omit [DecidableEq α] in
theorem fill_drop (n k : Nat) (x : α) (input : List α) :
    (fill n x input).drop k = fill (n - k) x (input.drop k) := by
  rw [fill, fill, List.drop_append, List.length_drop, List.drop_replicate]
  congr 2
  omega

omit [DecidableEq α] in
theorem fill_take {n k : Nat} (h : k ≤ n) (x : α) (input : List α) :
    (fill n x input).take k = fill k x (input.take k) := by
  rw [fill, fill, List.take_append, List.length_take, List.take_replicate]
  congr 2
  omega

omit [DecidableEq α] in
theorem fill_append_replicate {n k : Nat} {x : α} {input : List α} (h : input.length + k ≤ n) :
    fill n x (input ++ List.replicate k x) = fill n x input := by
  rw [fill, fill, List.append_assoc, List.replicate_append_replicate, List.length_append,
    List.length_replicate]
  congr 2
  omega

omit [DecidableEq α] in
/-- A sequence is the beginning of its filling, so two that are filled to the same one
differ in padding only. -/
theorem fill_eq_fill_iff {n : Nat} {x : α} {a b : List α} (ha : a.length ≤ n)
    (hb : b.length ≤ n) : fill n x a = fill n x b ↔
      ∃ k, a = b ++ List.replicate k x ∨ b = a ++ List.replicate k x := by
  have hlonger : ∀ {a b : List α}, a.length ≤ n → b.length ≤ a.length →
      fill n x a = fill n x b → a = b ++ List.replicate (a.length - b.length) x := by
    intro a b ha hle heq
    have htake := congrArg (List.take a.length) heq
    rw [fill_take ha, fill_take ha, List.take_length, List.take_of_length_le hle] at htake
    simpa [fill] using htake
  constructor
  · intro heq
    rcases Nat.le_total b.length a.length with hle | hle
    · exact ⟨_, Or.inl (hlonger ha hle heq)⟩
    · exact ⟨_, Or.inr (hlonger hb hle heq.symm)⟩
  · rintro ⟨k, rfl | rfl⟩
    · rw [List.length_append, List.length_replicate] at ha
      exact fill_append_replicate ha
    · rw [List.length_append, List.length_replicate] at hb
      exact (fill_append_replicate hb).symm

omit [DecidableEq α] in
theorem mem_fill_iff {n : Nat} {x : α} {input : List α} :
    x ∈ fill n x input ↔ input.length < n ∨ x ∈ input := by
  rw [fill, List.mem_append, List.mem_replicate, or_comm, Nat.sub_ne_zero_iff_lt]
  simp

end Delimited
end WhiteSmo
