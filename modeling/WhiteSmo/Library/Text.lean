import Mathlib.Data.List.DropRight
import Mathlib.Data.List.TakeWhile

/-!
# Trimming and replacing

What two loops over a text do: `trim` cuts a class of letters off at both ends, and
`replace` puts another text for every occurrence of one, from left to right.  A pair
of letters is replaced as an escape sequence: the first protects the second.
-/

namespace Text

variable {α : Type*}

/-! ## Trimming -/

section

variable (p : α → Bool)

/-- First the end, then the start. -/
def trim (s : List α) : List α := (s.rdropWhile p).dropWhile p

/-- Neither end is cut off. -/
def Trimmed (s : List α) : Prop := (∀ a ∈ s.head?, p a = false) ∧ ∀ a ∈ s.getLast?, p a = false

variable {p} {s t : List α}

theorem rdropWhile_append_of_all (h : ∀ a ∈ t, p a = true) :
    (s ++ t).rdropWhile p = s.rdropWhile p := by
  induction t using List.reverseRecOn with
  | nil => rw [List.append_nil]
  | append_singleton t a ih =>
    rw [← List.append_assoc, List.rdropWhile_concat_pos _ _ _ (h a (by simp))]
    exact ih fun b hb => h b (List.mem_append_left _ hb)

theorem dropWhile_append_of_all (h : ∀ a ∈ t, p a = true) :
    (t ++ s).dropWhile p = s.dropWhile p := by
  induction t with
  | nil => rfl
  | cons a t ih =>
    rw [List.cons_append, List.dropWhile_cons_of_pos (h a List.mem_cons_self)]
    exact ih fun b hb => h b (List.mem_cons_of_mem a hb)

theorem trim_of_trimmed (h : Trimmed p s) : trim p s = s := by
  have hend : s.rdropWhile p = s := by
    rw [List.rdropWhile_eq_self_iff]
    intro hne
    rw [h.2 _ (List.getLast?_eq_some_getLast hne)]
    exact Bool.false_ne_true
  rw [trim, hend]
  cases s with
  | nil => rfl
  | cons a s =>
    have ha : p a = false := h.1 a rfl
    rw [List.dropWhile_cons_of_neg (by rw [ha]; exact Bool.false_ne_true)]

theorem trim_trimmed (s : List α) : Trimmed p (trim p s) := by
  constructor
  · intro a ha
    have hhead := List.head?_dropWhile_not p (s.rdropWhile p)
    rw [show (s.rdropWhile p).dropWhile p = trim p s from rfl, Option.mem_def.mp ha] at hhead
    simpa using hhead
  · intro a ha
    have hsuffix : trim p s <:+ s.rdropWhile p := List.dropWhile_suffix p
    obtain ⟨lead, hlead⟩ := hsuffix
    have hne : trim p s ≠ [] := by
      intro hnil
      rw [hnil] at ha
      cases ha
    have hne' : s.rdropWhile p ≠ [] := by
      rw [← hlead]
      exact List.append_ne_nil_of_right_ne_nil _ hne
    have hlast := List.rdropWhile_last_not p s hne'
    have heq : (s.rdropWhile p).getLast hne' = a := by
      have hsome : (s.rdropWhile p).getLast? = some a := by
        rw [← hlead, List.getLast?_append_of_ne_nil _ hne]
        exact ha
      rw [List.getLast?_eq_some_getLast hne'] at hsome
      exact Option.some.inj hsome
    rw [heq] at hlast
    exact Bool.eq_false_iff.mpr hlast

@[simp]
theorem trim_trim (s : List α) : trim p (trim p s) = trim p s :=
  trim_of_trimmed (trim_trimmed s)

theorem trimmed_iff : Trimmed p s ↔ trim p s = s :=
  ⟨trim_of_trimmed, fun h => h ▸ trim_trimmed s⟩

@[simp]
theorem trim_nil : trim p [] = [] := rfl

theorem trim_append_right (h : ∀ a ∈ t, p a = true) : trim p (s ++ t) = trim p s := by
  rw [trim, rdropWhile_append_of_all h, trim]

theorem trim_eq_nil_iff : trim p s = [] ↔ ∀ a ∈ s, p a = true := by
  rw [trim, List.dropWhile_eq_nil_iff]
  constructor
  · intro h
    have hall : s.rdropWhile p = [] := by
      rw [List.eq_nil_iff_forall_not_mem]
      by_contra hne
      push Not at hne
      obtain ⟨a, ha⟩ := hne
      have hne := List.ne_nil_of_mem ha
      exact List.rdropWhile_last_not p s hne (h _ (List.getLast_mem hne))
    exact List.rdropWhile_eq_nil_iff.mp hall
  · intro h a ha
    exact h a ((List.rdropWhile_prefix p s).subset ha)

/-- What is cut off. -/
theorem exists_append_trim (p : α → Bool) (s : List α) : ∃ lead trail,
    s = lead ++ (trim p s ++ trail) ∧ (∀ a ∈ lead, p a = true) ∧ ∀ a ∈ trail, p a = true := by
  refine ⟨(s.rdropWhile p).takeWhile p, s.rtakeWhile p, ?_, ?_, ?_⟩
  · rw [← List.append_assoc, trim, List.takeWhile_append_dropWhile,
      List.rdropWhile_append_rtakeWhile]
  · intro a ha
    exact List.mem_takeWhile_imp ha
  · intro a ha
    exact List.mem_rtakeWhile_imp ha

theorem trim_append_left (h : ∀ a ∈ t, p a = true) : trim p (t ++ s) = trim p s := by
  by_cases hall : ∀ a ∈ s, p a = true
  · rw [trim_eq_nil_iff.mpr hall, trim_eq_nil_iff]
    intro a ha
    exact (List.mem_append.mp ha).elim (h a) (hall a)
  · have hne : s.rdropWhile p ≠ [] := fun hnil => hall (List.rdropWhile_eq_nil_iff.mp hnil)
    have hend : (t ++ s).rdropWhile p = t ++ s.rdropWhile p := by
      conv_lhs => rw [← List.rdropWhile_append_rtakeWhile (p := p) (l := s)]
      rw [← List.append_assoc, rdropWhile_append_of_all fun a ha => List.mem_rtakeWhile_imp ha,
        List.rdropWhile_eq_self_iff]
      intro hne'
      rw [List.getLast_append_of_right_ne_nil _ _ hne]
      exact List.rdropWhile_last_not p s hne
    rw [trim, hend, dropWhile_append_of_all h, trim]

theorem trim_rdropWhile (s : List α) : trim p (s.rdropWhile p) = trim p s := by
  rw [trim, List.rdropWhile_idempotent, trim]

/-- A letter that is not cut off protects what stands in front of it. -/
theorem trim_append_cons {a : α} (hhead : ∀ b ∈ s.head?, p b = false) (ha : p a = false)
    (t : List α) : trim p (s ++ a :: t) = s ++ a :: t.rdropWhile p := by
  have hend : (s ++ a :: t).rdropWhile p = s ++ a :: t.rdropWhile p := by
    conv_lhs => rw [← List.rdropWhile_append_rtakeWhile (p := p) (l := t)]
    rw [← List.cons_append, ← List.append_assoc,
      rdropWhile_append_of_all fun b hb => List.mem_rtakeWhile_imp hb, List.rdropWhile_eq_self_iff]
    intro hne
    rw [List.getLast_append_of_right_ne_nil _ _ (List.cons_ne_nil a _)]
    by_cases hnil : t.rdropWhile p = []
    · simp [hnil, ha]
    · rw [List.getLast_cons hnil]
      exact List.rdropWhile_last_not p t hnil
  rw [trim, hend]
  cases s with
  | nil => rw [List.nil_append, List.dropWhile_cons_of_neg (by rw [ha]; exact Bool.false_ne_true)]
  | cons b s =>
    have hb : p b = false := hhead b rfl
    rw [List.cons_append, List.dropWhile_cons_of_neg (by rw [hb]; exact Bool.false_ne_true)]

theorem mem_of_mem_trim {a : α} (h : a ∈ trim p s) : a ∈ s :=
  (List.rdropWhile_prefix p s).subset ((List.dropWhile_suffix p).subset h)

theorem trim_map {f : α → α} (hf : ∀ a, p (f a) = p a) (s : List α) :
    trim p (s.map f) = (trim p s).map f := by
  have hcomp : p ∘ f = p := funext hf
  rw [trim, trim, List.rdropWhile, List.rdropWhile, ← List.map_reverse, List.dropWhile_map, hcomp,
    ← List.map_reverse, List.dropWhile_map, hcomp]

end

/-! ## Replacing -/

section

variable [DecidableEq α]

/-- Behind a replaced occurrence its other letters are passed over. -/
def replaceFrom (a b : List α) : Nat → List α → List α
  | _, [] => []
  | skip + 1, _ :: s => replaceFrom a b skip s
  | 0, c :: s =>
    if a.isPrefixOf (c :: s) then b ++ replaceFrom a b (a.length - 1) s
    else c :: replaceFrom a b 0 s

/-- Every occurrence of `a`, from left to right; what is put in is not searched. -/
def replace (a b s : List α) : List α := if a = [] then s else replaceFrom a b 0 s

variable {x y z c : α} {a b s t : List α}

@[simp]
theorem replace_nil (a b : List α) : replace a b [] = [] := by
  rw [replace, replaceFrom, ite_self]

theorem replace_single (x : α) (b s : List α) :
    replace [x] b s = s.flatMap fun c => if c = x then b else [c] := by
  rw [replace, if_neg (List.cons_ne_nil x [])]
  induction s with
  | nil => rfl
  | cons c s ih =>
    rw [replaceFrom, List.flatMap_cons, ← ih]
    by_cases hc : c = x
    · simp [List.isPrefixOf, hc]
    · simp [List.isPrefixOf, hc, Ne.symm hc]

/-- The letter `c` in front of `s` is the first of the pair. -/
def Opens (x y c : α) (s : List α) : Prop := c = x ∧ s.head? = some y

theorem replace_pair (x y : α) (b s : List α) :
    replace [x, y] b (x :: y :: s) = b ++ replace [x, y] b s := by
  simp [replace, replaceFrom, List.isPrefixOf]

theorem replace_of_not_opens (h : ¬ Opens x y c s) :
    replace [x, y] b (c :: s) = c :: replace [x, y] b s := by
  have hprefix : [x, y].isPrefixOf (c :: s) = false := by
    cases s with
    | nil => simp [List.isPrefixOf]
    | cons d s =>
      rw [Bool.eq_false_iff]
      intro htrue
      simp only [List.isPrefixOf, Bool.and_true, Bool.and_eq_true, beq_iff_eq] at htrue
      exact h ⟨htrue.1.symm, congrArg some htrue.2.symm⟩
  simp [replace, replaceFrom, hprefix]

omit [DecidableEq α] in
/-- The search for a pair: it is found, or the next letter is passed over. -/
theorem pair_induction (x y : α) {P : List α → Prop} (nil : P [])
    (pair : ∀ s, P s → P (x :: y :: s)) (skip : ∀ c s, ¬ Opens x y c s → P s → P (c :: s))
    (s : List α) : P s := by
  suffices h : P s ∧ ∀ c, P (c :: s) from h.1
  induction s with
  | nil => exact ⟨nil, fun c => skip c [] (fun h => by cases h.2) nil⟩
  | cons d s ih =>
    refine ⟨ih.2 d, fun c => ?_⟩
    by_cases hopens : Opens x y c (d :: s)
    · obtain ⟨rfl, hd⟩ := hopens
      cases hd
      exact pair s ih.1
    · exact skip c (d :: s) hopens (ih.2 d)

omit [DecidableEq α] in
theorem opens_append (h : ¬ (s = [] ∧ Opens x y c t)) :
    Opens x y c (s ++ t) ↔ Opens x y c s := by
  cases s with
  | nil =>
    constructor
    · intro hopens
      exact absurd ⟨rfl, hopens⟩ h
    · intro hopens
      cases hopens.2
  | cons d s => rfl

/-- A pair is not searched across two texts that do not make one. -/
theorem replace_append (hxy : x ≠ y) (b : List α)
    (h : ¬ (s.getLast? = some x ∧ t.head? = some y)) :
    replace [x, y] b (s ++ t) = replace [x, y] b s ++ replace [x, y] b t := by
  induction s using pair_induction x y with
  | nil => simp
  | pair s ih =>
    have hlast : ¬ (s.getLast? = some x ∧ t.head? = some y) := by
      intro hboth
      refine h ⟨?_, hboth.2⟩
      rw [List.getLast?_cons, List.getLast?_cons, hboth.1]
      rfl
    rw [List.cons_append, List.cons_append, replace_pair, replace_pair, ih hlast,
      List.append_assoc]
  | skip c s hskip ih =>
    have hopens : ¬ Opens x y c (s ++ t) := by
      rw [opens_append]
      · exact hskip
      · rintro ⟨rfl, rfl, ht⟩
        exact h ⟨rfl, ht⟩
    have hlast : ¬ (s.getLast? = some x ∧ t.head? = some y) := by
      intro hboth
      refine h ⟨?_, hboth.2⟩
      rw [List.getLast?_cons, hboth.1]
      rfl
    rw [List.cons_append, replace_of_not_opens hopens, replace_of_not_opens hskip, ih hlast,
      List.cons_append]

theorem replace_of_not_mem (hy : y ∉ s) (b : List α) : replace [x, y] b s = s := by
  induction s with
  | nil => exact replace_nil _ _
  | cons c s ih =>
    rw [List.mem_cons, not_or] at hy
    rw [replace_of_not_opens fun h => hy.2 (List.mem_of_mem_head? h.2), ih hy.2]

/-! ## Escaping

`replace [y] [x, y]` escapes the letter `y` with `x`, `replace [x, y] [y]` takes the
escapes away, and `replace [x, y] [z, z]` blanks the escaped letters out. -/

theorem escape_cons (x y c : α) (s : List α) :
    replace [y] [x, y] (c :: s) = (if c = y then [x, y] else [c]) ++ replace [y] [x, y] s := by
  rw [replace_single, replace_single, List.flatMap_cons]

theorem escape_head_ne (hxy : x ≠ y) (s : List α) : (replace [y] [x, y] s).head? ≠ some y := by
  cases s with
  | nil => simp
  | cons c s =>
    rw [escape_cons]
    split
    case isTrue => simpa using hxy
    case isFalse hc => simpa using hc

theorem replace_escape_cons (hxy : x ≠ y) (b : List α) (c : α) (s : List α) :
    replace [x, y] b (replace [y] [x, y] (c :: s)) =
      (if c = y then b else [c]) ++ replace [x, y] b (replace [y] [x, y] s) := by
  rw [escape_cons]
  split
  case isTrue => exact replace_pair x y b _
  case isFalse => exact replace_of_not_opens fun h => escape_head_ne hxy s h.2

theorem unescape_escape (hxy : x ≠ y) (s : List α) :
    replace [x, y] [y] (replace [y] [x, y] s) = s := by
  induction s with
  | nil => rw [replace_nil, replace_nil]
  | cons c s ih =>
    rw [replace_escape_cons hxy, ih]
    split
    case isTrue hc => rw [hc, List.singleton_append]
    case isFalse => rw [List.singleton_append]

/-- No `y` in the text is free: each follows an `x`. -/
def Closed (x y z : α) (s : List α) : Prop := y ∉ replace [x, y] [z, z] s

theorem closed_escape (hxy : x ≠ y) (hzy : z ≠ y) (s : List α) :
    Closed x y z (replace [y] [x, y] s) := by
  unfold Closed
  induction s with
  | nil => rw [replace_nil, replace_nil]; exact List.not_mem_nil
  | cons c s ih =>
    rw [replace_escape_cons hxy, List.mem_append, not_or]
    refine ⟨?_, ih⟩
    split
    case isTrue => simp [Ne.symm hzy]
    case isFalse hc => simpa using Ne.symm hc

theorem Closed.append (hxy : x ≠ y) (hs : Closed x y z s) (ht : y ∉ t) :
    Closed x y z (s ++ t) := by
  unfold Closed
  rw [replace_append hxy _ fun h => ht (List.mem_of_mem_head? h.2), replace_of_not_mem ht,
    List.mem_append, not_or]
  exact ⟨hs, ht⟩

theorem getLast?_escape (s : List α) :
    (replace [y] [x, y] s).getLast? = s.getLast? := by
  induction s using List.reverseRecOn with
  | nil => rw [replace_nil]
  | append_singleton s c _ =>
    rw [replace_single, List.flatMap_append, List.flatMap_singleton, List.getLast?_concat]
    split
    case isTrue hc => simp [hc]
    case isFalse => simp

theorem getLast?_unescape (s : List α) : (replace [x, y] [y] s).getLast? = s.getLast? := by
  induction s using pair_induction x y with
  | nil => rw [replace_nil]
  | pair s ih =>
    rw [replace_pair, List.singleton_append, List.getLast?_cons, ih, List.getLast?_cons,
      List.getLast?_cons, Option.getD_some]
  | skip c s hskip ih =>
    rw [replace_of_not_opens hskip, List.getLast?_cons, ih, List.getLast?_cons]

theorem head?_unescape (h : (replace [x, y] [y] s).head? = some c) :
    c = y ∨ s.head? = some c := by
  cases s with
  | nil => rw [replace_nil] at h; cases h
  | cons d s =>
    by_cases hopens : Opens x y d s
    · obtain ⟨rfl, hd⟩ := hopens
      cases s with
      | nil => cases hd
      | cons e s =>
        cases hd
        rw [replace_pair] at h
        exact Or.inl (Option.some.inj h).symm
    · rw [replace_of_not_opens hopens] at h
      exact Or.inr h

theorem length_blank (s : List α) : (replace [x, y] [z, z] s).length = s.length := by
  induction s using pair_induction x y with
  | nil => rw [replace_nil]
  | pair s ih => rw [replace_pair, List.length_append, ih]; simp; omega
  | skip c s hskip ih => rw [replace_of_not_opens hskip, List.length_cons, ih, List.length_cons]

/-- The first free `y`, and what stands around it. -/
theorem exists_free (hxy : x ≠ y) (hzy : z ≠ y) (h : ¬ Closed x y z s) :
    ∃ pre post, s = pre ++ y :: post ∧ Closed x y z pre ∧ pre.getLast? ≠ some x := by
  unfold Closed at h ⊢
  rw [not_not] at h
  induction s using pair_induction x y with
  | nil => simp at h
  | pair s ih =>
    rw [replace_pair] at h
    have hmem : y ∈ replace [x, y] [z, z] s := by simpa [Ne.symm hzy] using h
    obtain ⟨pre, post, rfl, hclosed, hlast⟩ := ih hmem
    refine ⟨x :: y :: pre, post, rfl, ?_, ?_⟩
    · rw [replace_pair]
      simpa [Ne.symm hzy] using hclosed
    · cases pre with
      | nil => simpa using Ne.symm hxy
      | cons d pre => rwa [List.getLast?_cons_cons, List.getLast?_cons_cons]
  | skip c s hskip ih =>
    by_cases hc : c = y
    · exact ⟨[], s, by rw [hc, List.nil_append], by simp, by simp⟩
    · rw [replace_of_not_opens hskip, List.mem_cons] at h
      obtain ⟨pre, post, rfl, hclosed, hlast⟩ := ih (h.resolve_left (Ne.symm hc))
      have hpre : ¬ Opens x y c pre := by
        rw [← opens_append (t := y :: post)]
        · exact hskip
        · rintro ⟨rfl, hopens⟩
          exact hskip hopens
      refine ⟨c :: pre, post, rfl, ?_, ?_⟩
      · rw [replace_of_not_opens hpre, List.mem_cons, not_or]
        exact ⟨Ne.symm hc, hclosed⟩
      · cases pre with
        | nil =>
          intro hx
          exact hskip ⟨Option.some.inj hx, rfl⟩
        | cons d pre => rwa [List.getLast?_cons_cons]

/-- A free `y` stays where it is. -/
theorem blank_free (hxy : x ≠ y) (hlast : s.getLast? ≠ some x) (b : List α) :
    replace [x, y] b (s ++ y :: t) = replace [x, y] b s ++ y :: replace [x, y] b t := by
  rw [replace_append hxy b fun h => hlast h.1, replace_of_not_opens fun h => hxy h.1.symm]

/-- `find_first_of` in the blanked text finds the first free `y`. -/
theorem findIdx?_free (hxy : x ≠ y) (hclosed : Closed x y z s) (hlast : s.getLast? ≠ some x) :
    (replace [x, y] [z, z] (s ++ y :: t)).findIdx? (· = y) = some s.length := by
  rw [blank_free hxy hlast, List.findIdx?_append, List.findIdx?_eq_none_iff.mpr, Option.none_or,
    List.findIdx?_cons, length_blank]
  · simp
  · intro c hc
    exact decide_eq_false fun heq => hclosed (heq ▸ hc)

theorem findIdx?_closed (hclosed : Closed x y z s) :
    (replace [x, y] [z, z] s).findIdx? (· = y) = none := by
  rw [List.findIdx?_eq_none_iff]
  intro c hc
  exact decide_eq_false fun heq => hclosed (heq ▸ hc)

theorem Closed.prepend (hxy : x ≠ y) (hs : y ∉ s) (hlast : s.getLast? ≠ some x)
    (ht : Closed x y z t) : Closed x y z (s ++ t) := by
  unfold Closed
  rw [replace_append hxy _ fun h => hlast h.1, replace_of_not_mem hs, List.mem_append, not_or]
  exact ⟨hs, ht⟩

theorem Closed.of_append (hxy : x ≠ y) (ht : y ∉ t) (h : Closed x y z (s ++ t)) :
    Closed x y z s := by
  unfold Closed at h
  rw [replace_append hxy _ fun hboth => ht (List.mem_of_mem_head? hboth.2), List.mem_append,
    not_or] at h
  exact h.1

/-! ### Up to the first letter that is not passed over

In the blanked text an escape sequence is passed over with the letters of `p`. -/

section

variable {p : α → Bool}

/-- The letters that are passed over, with the escape sequences among them; there are none
when the first letter that is left does not begin one. -/
theorem exists_gap (hx : p x = false) (hz : p z = true) (s : List α) : ∃ gap rest,
    s = gap ++ rest ∧
      ((replace [x, y] [z, z] s).findIdx? (!p ·)).getD s.length = gap.length ∧
      (∀ c ∈ gap, p c = true ∨ c = x ∨ c = y) ∧
      (¬ [x, y] <+: s.dropWhile p → ∀ c ∈ gap, p c = true) := by
  induction s using pair_induction x y with
  | nil => exact ⟨[], [], rfl, by simp, by simp, by simp⟩
  | pair s ih =>
    obtain ⟨gap, rest, rfl, hlength, hgap, -⟩ := ih
    refine ⟨x :: y :: gap, rest, rfl, ?_, ?_, ?_⟩
    · rw [replace_pair, List.cons_append, List.singleton_append, List.findIdx?_cons,
        List.findIdx?_cons, hz]
      generalize (replace [x, y] [z, z] (gap ++ rest)).findIdx? (!p ·) = found at hlength
      cases found <;> simp at hlength ⊢ <;> omega
    · intro c hc
      rcases List.mem_cons.mp hc with rfl | hc
      · exact Or.inr (Or.inl rfl)
      · rcases List.mem_cons.mp hc with rfl | hc
        · exact Or.inr (Or.inr rfl)
        · exact hgap c hc
    · intro hprefix
      rw [List.dropWhile_cons_of_neg (by rw [hx]; exact Bool.false_ne_true)] at hprefix
      exact absurd ⟨gap ++ rest, rfl⟩ hprefix
  | skip c s hskip ih =>
    obtain ⟨gap, rest, rfl, hlength, hgap, hplain⟩ := ih
    rw [replace_of_not_opens hskip, List.findIdx?_cons]
    cases hc : p c with
    | false => exact ⟨[], c :: (gap ++ rest), rfl, by simp, by simp, by simp⟩
    | true =>
      refine ⟨c :: gap, rest, rfl, ?_, ?_, ?_⟩
      · generalize (replace [x, y] [z, z] (gap ++ rest)).findIdx? (!p ·) = found at hlength
        cases found <;> simp at hlength ⊢ <;> omega
      · intro d hd
        rcases List.mem_cons.mp hd with rfl | hd
        · exact Or.inl hc
        · exact hgap d hd
      · intro hprefix d hd
        rw [List.dropWhile_cons_of_pos hc] at hprefix
        rcases List.mem_cons.mp hd with rfl | hd
        · exact hc
        · exact hplain hprefix d hd

omit [DecidableEq α] in
/-- An escape sequence that is left in front stands in the trimmed text. -/
theorem prefix_trim (hx : p x = false) (hy : p y = false)
    (hdrop : (t.dropWhile p).head? ≠ some x) (hhead : t.head? ≠ some y)
    (h : [x, y] <+: (s ++ t).dropWhile p) : [x, y] <+: trim p s := by
  induction s with
  | nil =>
    obtain ⟨rest, hrest⟩ := h
    rw [List.nil_append] at hrest
    rw [← hrest] at hdrop
    exact absurd rfl hdrop
  | cons c s ih =>
    cases hc : p c with
    | true =>
      rw [List.cons_append, List.dropWhile_cons_of_pos hc] at h
      have htrim : trim p (c :: s) = trim p s := trim_append_left (t := [c]) (by simpa using hc)
      rw [htrim]
      exact ih h
    | false =>
      rw [List.cons_append, List.dropWhile_cons_of_neg (by rw [hc]; exact Bool.false_ne_true)] at h
      obtain ⟨rest, hrest⟩ := h
      obtain ⟨rfl, hsecond⟩ := List.cons.inj hrest
      cases s with
      | nil =>
        rw [List.nil_append] at hsecond
        rw [← hsecond] at hhead
        exact absurd rfl hhead
      | cons d s =>
        obtain ⟨rfl, -⟩ := List.cons.inj hsecond
        have htrim : trim p (x :: y :: s) = [x] ++ y :: s.rdropWhile p :=
          trim_append_cons (s := [x]) (by simpa using hx) hy s
        rw [htrim]
        exact ⟨s.rdropWhile p, rfl⟩

end

end

end Text
