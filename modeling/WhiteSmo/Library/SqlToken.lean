import Mathlib.Data.List.Basic

/-!
# SQL tokens

The tokenizer of SQLite as an automaton on bytes: white space and comments are
dropped, a quoted token runs to the next single occurrence of its delimiter, and
two adjacent delimiters inside it stand for one.  Operators of two characters
come out as two symbols.

`quoted` reads the contents of one quoted token.  `quoted_eq_iff` says which
strings survive being put between two delimiters as they are: those without a
delimiter.
-/

namespace WhiteSmo
namespace SqlToken

inductive Token
  /-- Keywords, bare names and numbers. -/
  | word (text : List UInt8)
  | quoted (delimiter : UInt8) (text : List UInt8)
  | bracketed (text : List UInt8)
  | symbol (b : UInt8)
  deriving DecidableEq

def isSpace (b : UInt8) : Bool := b = 32 || (9 ≤ b && b ≤ 10) || (12 ≤ b && b ≤ 13)

/-- The characters of names and numbers, among them all bytes from 128 on. -/
def isWord (b : UInt8) : Bool :=
  (48 ≤ b && b ≤ 57) || (65 ≤ b && b ≤ 90) || (97 ≤ b && b ≤ 122) || b = 95 || b = 36 || 128 ≤ b

/-- `"`, `'` and the grave accent. -/
def isDelimiter (b : UInt8) : Bool := b = 34 || b = 39 || b = 96

/-- What has been read of the current token. -/
inductive Mode
  | start
  | word (text : List UInt8)
  | quote (delimiter : UInt8) (text : List UInt8)
  /-- Behind a delimiter that closes the token unless another one follows. -/
  | quoteEnd (delimiter : UInt8) (text : List UInt8)
  | bracket (text : List UInt8)
  | minus
  | lineComment
  | slash
  | commentOpen
  | comment
  | commentStar
  deriving DecidableEq

/-- The first byte of a token. -/
def first (b : UInt8) : List Token × Mode :=
  if isSpace b then ([], .start)
  else if isWord b then ([], .word [b])
  else if isDelimiter b then ([], .quote b [])
  else if b = 91 then ([], .bracket [])
  else if b = 45 then ([], .minus)
  else if b = 47 then ([], .slash)
  else ([.symbol b], .start)

/-- A finished token, and the first byte of the next one. -/
def andFirst (token : Token) (b : UInt8) : List Token × Mode := (token :: (first b).1, (first b).2)

def step : Mode → UInt8 → List Token × Mode
  | .start, b => first b
  | .word text, b => if isWord b then ([], .word (text ++ [b])) else andFirst (.word text) b
  | .quote d text, b => if b = d then ([], .quoteEnd d text) else ([], .quote d (text ++ [b]))
  | .quoteEnd d text, b =>
    if b = d then ([], .quote d (text ++ [b])) else andFirst (.quoted d text) b
  | .bracket text, b => if b = 93 then ([.bracketed text], .start) else ([], .bracket (text ++ [b]))
  | .minus, b => if b = 45 then ([], .lineComment) else andFirst (.symbol 45) b
  | .lineComment, b => if b = 10 then ([], .start) else ([], .lineComment)
  | .slash, b => if b = 42 then ([], .commentOpen) else andFirst (.symbol 47) b
  | .commentOpen, b => if b = 42 then ([], .commentStar) else ([], .comment)
  | .comment, b => if b = 42 then ([], .commentStar) else ([], .comment)
  | .commentStar, b =>
    if b = 47 then ([], .start) else if b = 42 then ([], .commentStar) else ([], .comment)

/-- The end of the text.  A quoted token that is still open is an error. -/
def finish : Mode → Option (List Token)
  | .start | .lineComment | .comment | .commentStar => some []
  | .word text => some [.word text]
  | .quote _ _ | .bracket _ => none
  | .quoteEnd d text => some [.quoted d text]
  | .minus => some [.symbol 45]
  | .slash => some [.symbol 47]
  | .commentOpen => some [.symbol 47, .symbol 42]

def tokensFrom : Mode → List UInt8 → Option (List Token)
  | mode, [] => finish mode
  | mode, b :: rest => (tokensFrom (step mode b).2 rest).map ((step mode b).1 ++ ·)

def tokens (text : List UInt8) : Option (List Token) := tokensFrom .start text

/-- Reading `text` without ending there. -/
def run : Mode → List UInt8 → List Token × Mode
  | mode, [] => ([], mode)
  | mode, b :: rest => ((step mode b).1 ++ (run (step mode b).2 rest).1, (run (step mode b).2 rest).2)

theorem tokensFrom_append (mode : Mode) (u v : List UInt8) :
    tokensFrom mode (u ++ v) = (tokensFrom (run mode u).2 v).map ((run mode u).1 ++ ·) := by
  induction u generalizing mode with
  | nil => simp [run]
  | cons b u ih =>
    rw [List.cons_append, tokensFrom, ih, run, Option.map_map]
    congr 1
    funext ts
    exact (List.append_assoc _ _ ts).symm

/-! ## One quoted token -/

/-- The contents of a quoted token that has been opened, and the text behind it. -/
def quoted (d : UInt8) : List UInt8 → Option (List UInt8 × List UInt8)
  | [] => none
  | b :: rest =>
    if b ≠ d then (quoted d rest).map fun r => (b :: r.1, r.2)
    else
      match rest with
      | [] => some ([], [])
      | c :: rest => if c = d then (quoted d rest).map fun r => (d :: r.1, r.2) else some ([], c :: rest)

section

variable {d : UInt8}

theorem quoted_cons_of_ne {b : UInt8} (h : b ≠ d) (rest : List UInt8) :
    quoted d (b :: rest) = (quoted d rest).map fun r => (b :: r.1, r.2) := by
  rw [quoted.eq_def]
  exact if_pos h

theorem quoted_pair (rest : List UInt8) :
    quoted d (d :: d :: rest) = (quoted d rest).map fun r => (d :: r.1, r.2) := by
  simp [quoted]

theorem quoted_close {rest : List UInt8} (h : rest.head? ≠ some d) :
    quoted d (d :: rest) = some ([], rest) := by
  cases rest with
  | nil => simp [quoted]
  | cons c rest =>
    have hc : c ≠ d := fun heq => h (by rw [heq]; rfl)
    simp [quoted, hc]

/-- The automaton inside a quoted token reads what `quoted` reads. -/
theorem tokensFrom_quote (text input : List UInt8) :
    tokensFrom (.quote d text) input =
      (quoted d input).bind fun r =>
        (tokensFrom .start r.2).map (.quoted d (text ++ r.1) :: ·) := by
  induction input using quoted.induct (d := d) generalizing text with
  | case1 => rfl
  | case2 b rest hb ih =>
    rw [quoted_cons_of_ne hb]
    simp only [tokensFrom, step, if_neg hb, ih, Option.bind_map]
    simp only [List.append_assoc, List.singleton_append, List.nil_append, Option.map_id_fun', id]
    rfl
  | case3 b hb =>
    have hd : d = b := (not_not.mp hb).symm
    subst hd
    simp [tokensFrom, step, quoted, finish]
  | case4 b hb rest ih =>
    have hd : d = b := (not_not.mp hb).symm
    subst hd
    rw [quoted_pair]
    simp only [tokensFrom, step, if_true, ih, Option.bind_map]
    simp only [List.append_assoc, List.singleton_append, List.nil_append, Option.map_id_fun', id]
    rfl
  | case5 b hb c rest hc =>
    have hd : d = b := (not_not.mp hb).symm
    subst hd
    rw [quoted_close (by simpa using hc)]
    simp only [tokensFrom, step, if_true, if_neg hc, andFirst, Option.map_map, Option.bind_some]
    simp [Function.comp_def]

/-- Contents that are delimiters only leave an unread delimiter in front. -/
theorem head?_of_quoted_replicate {k : Nat} {input rest : List UInt8}
    (h : quoted d input = some (List.replicate k d, rest)) : input.head? = some d := by
  cases input with
  | nil => cases h
  | cons b input =>
    by_cases hb : b = d
    · rw [hb]
      rfl
    · rw [quoted_cons_of_ne hb, Option.map_eq_some_iff] at h
      obtain ⟨r, -, hr⟩ := h
      cases k with
      | zero => cases hr
      | succ k =>
        rw [List.replicate_succ, Prod.mk.injEq, List.cons.injEq] at hr
        exact absurd hr.1.1 hb

/-- What stands between two delimiters is read as itself, also behind further
delimiters, only if it contains none. -/
theorem not_mem_of_quoted_replicate {rest r : List UInt8} (hrest : rest.head? ≠ some d)
    {s : List UInt8} {k : Nat}
    (h : quoted d (s ++ d :: rest) = some (List.replicate k d ++ s, r)) : k = 0 ∧ d ∉ s := by
  induction s using quoted.induct (d := d) generalizing k with
  | case1 =>
    rw [List.nil_append, quoted_close hrest, Option.some.injEq, Prod.mk.injEq] at h
    have hk : k = 0 := by simpa using congrArg List.length h.1.symm
    exact ⟨hk, List.not_mem_nil⟩
  | case2 x s hx ih =>
    rw [List.cons_append, quoted_cons_of_ne hx, Option.map_eq_some_iff] at h
    obtain ⟨r', hr', heq⟩ := h
    obtain ⟨hcontents, hr⟩ := Prod.mk.inj heq
    cases k with
    | succ k =>
      rw [List.replicate_succ, List.cons_append] at hcontents
      exact absurd (List.cons.inj hcontents).1 hx
    | zero =>
      rw [List.replicate_zero, List.nil_append] at hcontents
      have hs := (ih (k := 0) (by
        rw [hr', ← hr, List.replicate_zero, List.nil_append, ← (List.cons.inj hcontents).2])).2
      exact ⟨rfl, fun hmem => (List.mem_cons.mp hmem).elim (Ne.symm hx) hs⟩
  | case3 x hx =>
    have hd : d = x := (not_not.mp hx).symm
    subst hd
    rw [List.cons_append, List.nil_append, quoted_pair, Option.map_eq_some_iff] at h
    obtain ⟨r', hr', heq⟩ := h
    have hcontents := (Prod.mk.inj heq).1
    rw [← List.replicate_succ', List.replicate_succ] at hcontents
    have hrun : quoted d rest = some (List.replicate k d, r'.2) := by
      rw [hr', ← (List.cons.inj hcontents).2]
    exact absurd (head?_of_quoted_replicate hrun) hrest
  | case4 x hx s ih =>
    have hd : d = x := (not_not.mp hx).symm
    subst hd
    rw [List.cons_append, List.cons_append, quoted_pair, Option.map_eq_some_iff] at h
    obtain ⟨r', hr', heq⟩ := h
    obtain ⟨hcontents, hr⟩ := Prod.mk.inj heq
    rw [List.append_cons, ← List.replicate_succ', List.replicate_succ,
      List.cons_append] at hcontents
    have htail : r'.1 = List.replicate (k + 1) d ++ s := by
      rw [(List.cons.inj hcontents).2, List.append_cons, ← List.replicate_succ']
    exact absurd (ih (k := k + 1) (by rw [hr', ← hr, ← htail])).1 (Nat.succ_ne_zero k)
  | case5 x hx c s hc =>
    have hd : d = x := (not_not.mp hx).symm
    subst hd
    rw [List.cons_append, List.cons_append, quoted_close (by simpa using hc), Option.some.injEq,
      Prod.mk.injEq] at h
    simpa using congrArg List.length h.1

theorem quoted_of_not_mem {s rest : List UInt8} (hs : d ∉ s) (hrest : rest.head? ≠ some d) :
    quoted d (s ++ d :: rest) = some (s, rest) := by
  induction s with
  | nil => exact quoted_close hrest
  | cons x s ih =>
    obtain ⟨hx, hs⟩ := not_or.mp (List.mem_cons.not.mp hs)
    rw [List.cons_append, quoted_cons_of_ne (Ne.symm hx), ih hs]
    rfl

/-- A string put between two delimiters is read back exactly when it contains
none. -/
theorem quoted_eq_iff {s rest : List UInt8} (hrest : rest.head? ≠ some d) :
    (∃ r, quoted d (s ++ d :: rest) = some (s, r)) ↔ d ∉ s := by
  constructor
  · intro h
    obtain ⟨r, hr⟩ := h
    exact (not_mem_of_quoted_replicate hrest (k := 0) (by simpa using hr)).2
  · intro hs
    exact ⟨rest, quoted_of_not_mem hs hrest⟩

/-- A text that opens a quoted token, puts a string in it and closes it reads as
having that string there exactly when the string contains no delimiter. -/
theorem tokensFrom_enclosed_iff {mode : Mode} {u s rest : List UInt8} {ts more : List Token}
    (hrun : run mode u = (ts, .quote d [])) (hrest : rest.head? ≠ some d) :
    tokensFrom mode (u ++ (s ++ d :: rest)) = some (ts ++ .quoted d s :: more) ↔
      d ∉ s ∧ tokensFrom .start rest = some more := by
  rw [tokensFrom_append, hrun, tokensFrom_quote]
  constructor
  · intro h
    obtain ⟨_, hbind, happ⟩ := Option.map_eq_some_iff.mp h
    obtain ⟨r, hr, hmap⟩ := Option.bind_eq_some_iff.mp hbind
    obtain ⟨more', hmore, rfl⟩ := Option.map_eq_some_iff.mp hmap
    obtain ⟨htoken, rfl⟩ := List.cons.inj (List.append_cancel_left happ)
    have hs : r.1 = s := (Token.quoted.inj htoken).2
    have hmem : d ∉ s := (quoted_eq_iff hrest).mp ⟨r.2, by rw [hr, ← hs]⟩
    rw [quoted_of_not_mem hmem hrest, Option.some.injEq] at hr
    subst hr
    exact ⟨hmem, hmore⟩
  · intro h
    obtain ⟨hmem, hmore⟩ := h
    rw [quoted_of_not_mem hmem hrest, Option.bind_some, hmore]
    rfl

end

end SqlToken
end WhiteSmo
