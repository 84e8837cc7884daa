/-!
# Computations that throw

A computation reads and changes a state and ends with a value or with an exception; what it
has done to the state stays done either way.  An object is a part of the state during its
scope, and its destructor runs at both ends of it.  A triple has one postcondition for each
end.
-/

namespace WhiteSmo

/-- How a computation ends, and the state it leaves, for each state it starts in. -/
structure Throwing (S E A : Type) where
  run : S → Except E A × S

namespace Throwing

variable {S E A B O : Type}

def throw (e : E) : Throwing S E A := ⟨fun s => (.error e, s)⟩

def read (f : S → A) : Throwing S E A := ⟨fun s => (.ok (f s), s)⟩

def modify (f : S → S) : Throwing S E Unit := ⟨fun s => (.ok (), f s)⟩

protected def bind (c : Throwing S E A) (f : A → Throwing S E B) : Throwing S E B where
  run s :=
    match c.run s with
    | (.ok a, s') => (f a).run s'
    | (.error e, s') => (.error e, s')

instance : Monad (Throwing S E) where
  pure a := ⟨fun s => (.ok a, s)⟩
  bind := Throwing.bind

/-- `try { c } catch (...) { handler }` -/
def tryCatch (c handler : Throwing S E A) : Throwing S E A where
  run s :=
    match c.run s with
    | (.ok a, s') => (.ok a, s')
    | (.error _, s') => handler.run s'

/-- A computation on the state around an object. -/
def outside (c : Throwing S E A) : Throwing (S × O) E A where
  run s := ((c.run s.1).1, (c.run s.1).2, s.2)

/-- A computation on the object. -/
def inside (c : Throwing O E A) : Throwing (S × O) E A where
  run s := ((c.run s.2).1, s.1, (c.run s.2).2)

/-- The scope of an object.  The destructor runs behind the body and behind an exception that
leaves it, and not when the constructor throws. -/
def scope (construct : Throwing S E O) (destroy : O → S → S) (body : Throwing (S × O) E A) :
    Throwing S E A where
  run s :=
    match construct.run s with
    | (.error e, s') => (.error e, s')
    | (.ok object, s') =>
      ((body.run (s', object)).1,
        destroy (body.run (s', object)).2.2 (body.run (s', object)).2.1)

/-- `while (condition) body`, at most so many times.  The body says whether the loop goes on,
and the result whether it has ended. -/
def loop (condition body : Throwing S E Bool) : Nat → Throwing S E Bool
  | 0 => pure false
  | fuel + 1 => do
    if ← condition then
      if ← body then loop condition body fuel
      else pure true
    else pure true

section

variable {c : Throwing S E A} {s s' : S}

theorem bind_run_ok {f : A → Throwing S E B} {a : A} (h : c.run s = (.ok a, s')) :
    (c >>= f).run s = (f a).run s' := by
  show (Throwing.bind c f).run s = _
  simp only [Throwing.bind, h]

theorem bind_run_error {f : A → Throwing S E B} {e : E} (h : c.run s = (.error e, s')) :
    (c >>= f).run s = (.error e, s') := by
  show (Throwing.bind c f).run s = _
  simp only [Throwing.bind, h]

theorem scope_run_ok {construct : Throwing S E O} {destroy : O → S → S}
    {body : Throwing (S × O) E A} {object : O} {r : Except E A} {t : S × O}
    (h : construct.run s = (.ok object, s')) (hbody : body.run (s', object) = (r, t)) :
    (scope construct destroy body).run s = (r, destroy t.2 t.1) := by
  simp only [scope, h, hbody]

end

/-! ## Triples -/

/-- From a state in `P`, the computation returns in `Q` or throws in `R`. -/
def Triple (P : S → Prop) (c : Throwing S E A) (Q : A → S → Prop) (R : E → S → Prop) : Prop :=
  ∀ s, P s →
    (∃ a s', c.run s = (.ok a, s') ∧ Q a s') ∨ ∃ e s', c.run s = (.error e, s') ∧ R e s'

variable {P P' : S → Prop} {Q Q' : A → S → Prop} {R R' : E → S → Prop} {c : Throwing S E A}

namespace Triple

theorem pure {a : A} (h : ∀ s, P s → Q a s) : Triple P (Pure.pure a : Throwing S E A) Q R :=
  fun s hs => Or.inl ⟨a, s, rfl, h s hs⟩

theorem read {f : S → A} (h : ∀ s, P s → Q (f s) s) :
    Triple P (Throwing.read f : Throwing S E A) Q R :=
  fun s hs => Or.inl ⟨f s, s, rfl, h s hs⟩

theorem modify {f : S → S} {Q : Unit → S → Prop} (h : ∀ s, P s → Q () (f s)) :
    Triple P (Throwing.modify f : Throwing S E Unit) Q R :=
  fun s hs => Or.inl ⟨(), f s, rfl, h s hs⟩

theorem consequence (h : Triple P c Q R) (hP : ∀ s, P' s → P s) (hQ : ∀ a s, Q a s → Q' a s)
    (hR : ∀ e s, R e s → R' e s) : Triple P' c Q' R' := by
  intro s hs
  rcases h s (hP s hs) with ⟨a, s', hc, ha⟩ | ⟨e, s', hc, he⟩
  · exact Or.inl ⟨a, s', hc, hQ a s' ha⟩
  · exact Or.inr ⟨e, s', hc, hR e s' he⟩

theorem of_exists {I : Type} {P : I → S → Prop} (h : ∀ i, Triple (P i) c Q R) :
    Triple (fun s => ∃ i, P i s) c Q R := by
  rintro s ⟨i, hs⟩
  exact h i s hs

theorem of_fact {fact : Prop} (h : fact → Triple P c Q R) :
    Triple (fun s => fact ∧ P s) c Q R := by
  rintro s ⟨hfact, hs⟩
  exact h hfact s hs

theorem bind {f : A → Throwing S E B} {Q' : B → S → Prop} (hc : Triple P c Q R)
    (hf : ∀ a, Triple (Q a) (f a) Q' R) : Triple P (c >>= f) Q' R := by
  intro s hs
  rcases hc s hs with ⟨a, s', hrun, ha⟩ | ⟨e, s', hrun, he⟩
  · rw [bind_run_ok hrun]
    exact hf a s' ha
  · exact Or.inr ⟨e, s', bind_run_error hrun, he⟩

/-- The destructor gets the object as the body leaves it, at both ends. -/
theorem scope {construct : Throwing S E O} {destroy : O → S → S} {body : Throwing (S × O) E A}
    {I : O → S → Prop} {J : A → S × O → Prop} {K : E → S × O → Prop}
    (hconstruct : Triple P construct I R)
    (hbody : ∀ object, Triple (fun s => I object s.1 ∧ s.2 = object) body J K)
    (hreturned : ∀ a s, J a s → Q a (destroy s.2 s.1))
    (hthrown : ∀ e s, K e s → R e (destroy s.2 s.1)) :
    Triple P (Throwing.scope construct destroy body) Q R := by
  intro s hs
  rcases hconstruct s hs with ⟨object, s', hrun, hobject⟩ | ⟨e, s', hrun, he⟩
  · rcases hbody object (s', object) ⟨hobject, rfl⟩ with ⟨a, t, hend, ha⟩ | ⟨e, t, hend, he⟩
    · exact Or.inl ⟨a, destroy t.2 t.1, scope_run_ok hrun hend, hreturned a t ha⟩
    · exact Or.inr ⟨e, destroy t.2 t.1, scope_run_ok hrun hend, hthrown e t he⟩
  · exact Or.inr ⟨e, s', by simp only [Throwing.scope, hrun], he⟩

theorem outside {object : O} (h : Triple P c Q R) :
    Triple (fun s : S × O => P s.1 ∧ s.2 = object) (Throwing.outside c)
      (fun a s => Q a s.1 ∧ s.2 = object) (fun e s => R e s.1 ∧ s.2 = object) := by
  rintro ⟨s, o⟩ ⟨hs, rfl⟩
  rcases h s hs with ⟨a, s', hrun, ha⟩ | ⟨e, s', hrun, he⟩
  · exact Or.inl ⟨a, (s', o), by simp only [Throwing.outside, hrun], ha, rfl⟩
  · exact Or.inr ⟨e, (s', o), by simp only [Throwing.outside, hrun], he, rfl⟩

end Triple
end Throwing
end WhiteSmo
