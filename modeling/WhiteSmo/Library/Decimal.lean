import Mathlib.Algebra.Group.Nat.Defs
import Mathlib.Algebra.Order.Group.Int
import Mathlib.Data.List.TakeWhile

/-!
# Decimal numbers in texts

`strtol` reads the number at the front of a text: blanks, a sign, digits, and nothing
behind them.  `digits` writes a number, and `strtol` reads back what `digits` wrote.
-/

namespace WhiteSmo
namespace Decimal

/-- `isspace` -/
def isSpace (b : UInt8) : Bool := b = 32 || (9 ≤ b && b ≤ 13)

def isDigit (b : UInt8) : Bool := 48 ≤ b && b ≤ 57

def value (digits : List UInt8) : Nat := digits.foldl (fun n b => 10 * n + (b.toNat - 48)) 0

/-- The number at the front of a text, 0 when there is none. -/
def number (text : List UInt8) : Int :=
  let rest := text.dropWhile isSpace
  if rest.head? = some 45 then -value ((rest.drop 1).takeWhile isDigit)
  else if rest.head? = some 43 then value ((rest.drop 1).takeWhile isDigit)
  else value (rest.takeWhile isDigit)

/-- `strtol` in base ten.  A number that a `long` of 64 bits does not hold is replaced by
the nearest one. -/
def strtol (text : List UInt8) : Int := max (-2 ^ 63) (min (number text) (2 ^ 63 - 1))

/-- A number the way `std::to_string` writes it. -/
def digits (n : Nat) : List UInt8 := (Nat.toDigits 10 n).map fun c => UInt8.ofNat c.toNat

theorem isDigit_iff {b : UInt8} : isDigit b = true ↔ 48 ≤ b.toNat ∧ b.toNat ≤ 57 := by
  rw [isDigit, Bool.and_eq_true, decide_eq_true_eq, decide_eq_true_eq, UInt8.le_iff_toNat_le,
    UInt8.le_iff_toNat_le]
  rfl

theorem isSpace_iff {b : UInt8} :
    isSpace b = true ↔ b.toNat = 32 ∨ (9 ≤ b.toNat ∧ b.toNat ≤ 13) := by
  rw [isSpace, Bool.or_eq_true, Bool.and_eq_true, decide_eq_true_eq, decide_eq_true_eq,
    decide_eq_true_eq, UInt8.le_iff_toNat_le, UInt8.le_iff_toNat_le, ← UInt8.toNat_inj]
  rfl

theorem toNat_digit {n : Nat} (h : n < 10) : (UInt8.ofNat n.digitChar.toNat).toNat = n + 48 := by
  have hchar := Nat.toNat_digitChar_of_lt_ten h
  rw [UInt8.toNat_ofNat', hchar]
  omega

theorem isDigit_digit {n : Nat} (h : n < 10) : isDigit (UInt8.ofNat n.digitChar.toNat) = true := by
  rw [isDigit_iff, toNat_digit h]
  omega

theorem value_append_singleton (text : List UInt8) (b : UInt8) :
    value (text ++ [b]) = 10 * value text + (b.toNat - 48) := by
  rw [value, List.foldl_append]
  rfl

theorem digits_of_lt {n : Nat} (h : n < 10) : digits n = [UInt8.ofNat n.digitChar.toNat] := by
  rw [digits, Nat.toDigits_of_lt_base h]
  rfl

theorem digits_of_le {n : Nat} (h : 10 ≤ n) :
    digits n = digits (n / 10) ++ [UInt8.ofNat (n % 10).digitChar.toNat] := by
  rw [digits, Nat.toDigits_of_base_le (by decide) h, List.map_append]
  rfl

theorem isDigit_of_mem_digits (n : Nat) : ∀ b ∈ digits n, isDigit b = true := by
  induction n using Nat.strongRecOn with
  | ind n ih =>
    intro b hb
    rcases Nat.lt_or_ge n 10 with hlt | hge
    · rw [digits_of_lt hlt, List.mem_singleton] at hb
      rw [hb]
      exact isDigit_digit hlt
    · rw [digits_of_le hge, List.mem_append, List.mem_singleton] at hb
      rcases hb with hb | rfl
      · exact ih (n / 10) (by omega) b hb
      · exact isDigit_digit (by omega)

theorem value_digits (n : Nat) : value (digits n) = n := by
  induction n using Nat.strongRecOn with
  | ind n ih =>
    rcases Nat.lt_or_ge n 10 with hlt | hge
    · rw [digits_of_lt hlt]
      show 10 * 0 + ((UInt8.ofNat n.digitChar.toNat).toNat - 48) = n
      rw [toNat_digit hlt]
      omega
    · rw [digits_of_le hge, value_append_singleton, ih (n / 10) (by omega),
        toNat_digit (by omega)]
      omega

/-- Digits have neither a blank nor a sign in front. -/
theorem number_of_isDigit {text : List UInt8} (h : ∀ b ∈ text, isDigit b = true) :
    number text = value text := by
  cases text with
  | nil => rfl
  | cons b rest =>
    have hdigit := isDigit_iff.mp (h b List.mem_cons_self)
    have hspace : ¬ isSpace b = true := by
      rw [isSpace_iff]
      omega
    have hsign : ∀ c : UInt8, c.toNat < 48 → (b :: rest).head? ≠ some c := by
      intro c hc heq
      rw [List.head?_cons, Option.some_inj] at heq
      subst heq
      omega
    rw [number, List.dropWhile_cons_of_neg hspace, if_neg (hsign 45 (by decide)),
      if_neg (hsign 43 (by decide)), List.takeWhile_eq_self_iff.mpr h]

theorem strtol_digits {n : Nat} (h : n < 2 ^ 63) : strtol (digits n) = n := by
  rw [strtol, number_of_isDigit (isDigit_of_mem_digits n), value_digits]
  omega

end Decimal
end WhiteSmo
