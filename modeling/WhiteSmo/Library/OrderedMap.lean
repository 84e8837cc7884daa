import Mathlib.Data.List.InsertIdx
import Mathlib.Data.List.Nodup
import Mathlib.Logic.Function.Basic

/-!
# Ordered maps

A list of entries with distinct keys is a map that remembers the order in which its
keys came.  `find` reads it, `put` and `remove` change it.  An index of such a list
says for each key at which position it stands.
-/

namespace OrderedMap

variable {α β : Type*}

def keys (entries : List (α × β)) : List α := entries.map Prod.fst

@[simp]
theorem keys_nil : keys ([] : List (α × β)) = [] := rfl

@[simp]
theorem keys_cons (e : α × β) (es : List (α × β)) : keys (e :: es) = e.1 :: keys es := rfl

@[simp]
theorem keys_append (es es' : List (α × β)) : keys (es ++ es') = keys es ++ keys es' :=
  List.map_append

theorem keys_modify (es : List (α × β)) (i : Nat) (b : β) :
    keys (es.modify i fun e => (e.1, b)) = keys es := by
  induction es generalizing i with
  | nil => rw [List.modify_nil]
  | cons e es ih =>
    cases i with
    | zero => rw [List.modify_zero_cons, keys_cons, keys_cons]
    | succ i => rw [List.modify_succ_cons, keys_cons, keys_cons, ih]

theorem keys_eraseIdx (es : List (α × β)) (i : Nat) :
    keys (es.eraseIdx i) = (keys es).eraseIdx i :=
  (List.eraseIdx_map ..).symm

section

variable [DecidableEq α]

def find (a : α) : List (α × β) → Option β
  | [] => none
  | e :: es => if e.1 = a then some e.2 else find a es

/-- The value of a key is replaced in its place, a new key comes to the end. -/
def put (a : α) (b : β) : List (α × β) → List (α × β)
  | [] => [(a, b)]
  | e :: es => if e.1 = a then (a, b) :: es else e :: put a b es

def remove (a : α) : List (α × β) → List (α × β)
  | [] => []
  | e :: es => if e.1 = a then es else e :: remove a es

@[simp]
theorem find_nil (a : α) : find a ([] : List (α × β)) = none := rfl

theorem find_cons (a : α) (e : α × β) (es : List (α × β)) :
    find a (e :: es) = if e.1 = a then some e.2 else find a es := rfl

theorem find_eq_none_iff_not_mem {a : α} {es : List (α × β)} :
    find a es = none ↔ a ∉ keys es := by
  induction es with
  | nil => simp
  | cons e es ih =>
    rw [find_cons, keys_cons, List.mem_cons, not_or]
    by_cases h : e.1 = a
    · simp [h]
    · simp [h, ih, Ne.symm h]

theorem find_isSome_iff_mem {a : α} {es : List (α × β)} :
    (find a es).isSome ↔ a ∈ keys es := by
  rw [← not_iff_not, ← find_eq_none_iff_not_mem, Option.not_isSome_iff_eq_none]

theorem mem_iff_find {a : α} {b : β} {es : List (α × β)} (h : (keys es).Nodup) :
    (a, b) ∈ es ↔ find a es = some b := by
  induction es with
  | nil => simp
  | cons e es ih =>
    obtain ⟨hfirst, hrest⟩ := List.nodup_cons.mp h
    rw [List.mem_cons, find_cons, ih hrest]
    by_cases heq : e.1 = a
    · have hnone : find a es = none := find_eq_none_iff_not_mem.mpr (heq ▸ hfirst)
      rw [if_pos heq, hnone, Option.some.injEq]
      constructor
      · rintro (rfl | hfalse)
        · rfl
        · cases hfalse
      · rintro rfl
        exact Or.inl (by rw [← heq])
    · rw [if_neg heq]
      exact ⟨fun hor => hor.resolve_left fun h => heq (by rw [← h]), Or.inr⟩

/-! ## Putting -/

theorem find_put_self (a : α) (b : β) (es : List (α × β)) : find a (put a b es) = some b := by
  induction es with
  | nil => exact if_pos rfl
  | cons e es ih =>
    rw [put]
    split
    case isTrue => exact if_pos rfl
    case isFalse hne => rw [find_cons, if_neg hne, ih]

theorem find_put_of_ne {a a' : α} (h : a' ≠ a) (b : β) (es : List (α × β)) :
    find a' (put a b es) = find a' es := by
  induction es with
  | nil => exact if_neg (Ne.symm h)
  | cons e es ih =>
    rw [put]
    split
    case isTrue heq =>
      rw [find_cons, find_cons, if_neg (Ne.symm h), if_neg (heq ▸ Ne.symm h)]
    case isFalse => rw [find_cons, find_cons, ih]

theorem find_put (a a' : α) (b : β) (es : List (α × β)) :
    find a' (put a b es) = if a' = a then some b else find a' es := by
  by_cases h : a' = a
  · rw [if_pos h, h, find_put_self]
  · rw [if_neg h, find_put_of_ne h]

theorem put_of_not_mem {a : α} {es : List (α × β)} (h : a ∉ keys es) (b : β) :
    put a b es = es ++ [(a, b)] := by
  induction es with
  | nil => rfl
  | cons e es ih =>
    rw [keys_cons, List.mem_cons, not_or] at h
    rw [put, if_neg (Ne.symm h.1), ih h.2, List.cons_append]

/-- The last entry is found and replaced when its key stands nowhere else. -/
theorem put_append_last {a : α} {es : List (α × β)} (h : a ∉ keys es) (b b' : β) :
    put a b (es ++ [(a, b')]) = es ++ [(a, b)] := by
  induction es with
  | nil => exact if_pos rfl
  | cons e es ih =>
    rw [keys_cons, List.mem_cons, not_or] at h
    rw [List.cons_append, put, if_neg (Ne.symm h.1), ih h.2, List.cons_append]

theorem find_append_last {a : α} {es : List (α × β)} (h : a ∉ keys es) (b : β) :
    find a (es ++ [(a, b)]) = some b := by
  induction es with
  | nil => exact if_pos rfl
  | cons e es ih =>
    rw [keys_cons, List.mem_cons, not_or] at h
    rw [List.cons_append, find_cons, if_neg (Ne.symm h.1), ih h.2]

@[simp]
theorem put_put (a : α) (b b' : β) (es : List (α × β)) : put a b (put a b' es) = put a b es := by
  induction es with
  | nil => exact if_pos rfl
  | cons e es ih =>
    rw [put, put]
    split
    case isTrue => exact if_pos rfl
    case isFalse hne => rw [put, if_neg hne, ih]

/-! ## Mapping the values -/

section

variable {γ : Type*} (f : β → γ)

theorem put_map (a : α) (b : β) (es : List (α × β)) :
    put a (f b) (es.map fun e => (e.1, f e.2)) = (put a b es).map fun e => (e.1, f e.2) := by
  induction es with
  | nil => rfl
  | cons e es ih =>
    rw [List.map_cons, put, put, ih]
    split <;> rfl

theorem find_map (a : α) (es : List (α × β)) :
    find a (es.map fun e => (e.1, f e.2)) = (find a es).map f := by
  induction es with
  | nil => rfl
  | cons e es ih =>
    rw [List.map_cons, find_cons, find_cons, ih]
    split <;> rfl

end

/-! ## Removing -/

theorem remove_of_not_mem {a : α} {es : List (α × β)} (h : a ∉ keys es) : remove a es = es := by
  induction es with
  | nil => rfl
  | cons e es ih =>
    rw [keys_cons, List.mem_cons, not_or] at h
    rw [remove, if_neg (Ne.symm h.1), ih h.2]

end

/-! ## An index of the positions -/

/-- What an index says is where the keys stand. -/
def Indexes (index : α → Option Nat) (keys : List α) : Prop :=
  ∀ a i, index a = some i ↔ keys[i]? = some a

namespace Indexes

variable {index : α → Option Nat} {as : List α} {a : α} {i : Nat}

theorem empty : Indexes (fun _ : α => none) [] := by
  intro a i
  simp

theorem nodup (h : Indexes index as) : as.Nodup := by
  rw [List.nodup_iff_getElem?_ne_getElem?]
  intro i j hij hj heq
  have hsome : as[j]? = some as[j] := List.getElem?_eq_getElem hj
  have hfirst := (h as[j] i).mpr (heq.trans hsome)
  rw [(h as[j] j).mpr hsome] at hfirst
  cases hfirst
  exact Nat.lt_irrefl _ hij

theorem eq_none_iff (h : Indexes index as) : index a = none ↔ a ∉ as := by
  rw [Option.eq_none_iff_forall_ne_some]
  constructor
  · intro hnone hmem
    obtain ⟨i, hi⟩ := List.mem_iff_getElem?.mp hmem
    exact hnone i ((h a i).mpr hi)
  · intro hmem i hi
    exact hmem (List.mem_of_getElem? ((h a i).mp hi))

variable [DecidableEq α]

/-- A new key comes to the end. -/
theorem push (h : Indexes index as) (hnew : index a = none) :
    Indexes (Function.update index a (some as.length)) (as ++ [a]) := by
  have hmem := h.eq_none_iff.mp hnew
  intro b i
  by_cases hb : b = a
  · subst hb
    rw [Function.update_self, Option.some.injEq]
    constructor
    · rintro rfl
      exact List.getElem?_concat_length
    · intro hi
      rcases Nat.lt_trichotomy i as.length with hlt | heq | hgt
      · rw [List.getElem?_append_left hlt] at hi
        exact absurd (List.mem_of_getElem? hi) hmem
      · exact heq.symm
      · rw [List.getElem?_eq_none (by simp; omega)] at hi
        cases hi
  · rw [Function.update_of_ne hb, h b i]
    constructor
    · intro hi
      rw [List.getElem?_append_left (List.getElem?_eq_some_iff.mp hi).1, hi]
    · intro hi
      by_cases hlt : i < as.length
      · rwa [List.getElem?_append_left hlt] at hi
      · rw [List.getElem?_append_right (Nat.le_of_not_lt hlt), List.getElem?_singleton] at hi
        split at hi
        · exact absurd (Option.some.inj hi).symm hb
        · cases hi

/-- The keys behind an erased one move up by one position. -/
theorem erase (h : Indexes index as) (hi : index a = some i) :
    Indexes (fun b => if b = a then none else (index b).map fun j => if j > i then j - 1 else j)
      (as.eraseIdx i) := by
  have hat := (h a i).mp hi
  intro b j
  dsimp only
  rw [List.getElem?_eraseIdx]
  by_cases hb : b = a
  · subst hb
    rw [if_pos rfl]
    constructor
    · intro hnone
      cases hnone
    intro hj
    have hposition : ∀ n, as[n]? = some b → n = i := fun n hn =>
      Option.some.inj (((h b n).mpr hn).symm.trans hi)
    split at hj
    · have heq := hposition j hj
      omega
    · have heq := hposition (j + 1) hj
      omega
  · rw [if_neg hb, Option.map_eq_some_iff]
    constructor
    · rintro ⟨n, hn, rfl⟩
      have hmem := (h b n).mp hn
      have hne : n ≠ i := fun heq => hb (Option.some.inj (hmem.symm.trans (heq ▸ hat)))
      by_cases hgt : n > i
      · rw [if_pos hgt, if_neg (by omega), show n - 1 + 1 = n by omega, hmem]
      · rw [if_neg hgt, if_pos (by omega), hmem]
    · intro hj
      split at hj
      · exact ⟨j, (h b j).mpr hj, if_neg (by omega)⟩
      · exact ⟨j + 1, (h b (j + 1)).mpr hj, by rw [if_pos (by omega)]; omega⟩

end Indexes

section

variable [DecidableEq α] {index : α → Option Nat} {es : List (α × β)} {a : α} {i : Nat}

/-- What stands at the position of a key is its value. -/
theorem find_eq_of_index (h : Indexes index (keys es)) (hi : index a = some i) :
    find a es = (es[i]?).map Prod.snd := by
  have hkey : (es[i]?).map Prod.fst = some a := by
    rw [← List.getElem?_map]
    exact (h a i).mp hi
  obtain ⟨e, he, rfl⟩ := Option.map_eq_some_iff.mp hkey
  have hmem : e ∈ es := List.mem_of_getElem? he
  clear hkey
  have hnodup := h.nodup
  rw [he]
  clear h hi he index
  induction es with
  | nil => exact absurd hmem List.not_mem_nil
  | cons e' es ih =>
    obtain ⟨hfirst, hnodup⟩ := List.nodup_cons.mp hnodup
    rw [find_cons]
    rcases List.mem_cons.mp hmem with rfl | hmem
    · rw [if_pos rfl]
      rfl
    · have hne : e'.1 ≠ e.1 := fun heq => hfirst (heq ▸ List.mem_map_of_mem hmem)
      rw [if_neg hne]
      exact ih hmem hnodup

/-- Writing behind the position of a key is putting. -/
theorem modify_eq_put (h : Indexes index (keys es)) (hi : index a = some i) (b : β) :
    (es.modify i fun e => (e.1, b)) = put a b es := by
  have hkey := (h a i).mp hi
  have hnodup := h.nodup
  clear h hi
  induction es generalizing i with
  | nil => cases hkey
  | cons e es ih =>
    obtain ⟨hfirst, hnodup⟩ := List.nodup_cons.mp hnodup
    cases i with
    | zero =>
      have he : e.1 = a := Option.some.inj hkey
      rw [put, if_pos he, List.modify_zero_cons, he]
    | succ i =>
      have hne : e.1 ≠ a := fun heq => hfirst (heq ▸ List.mem_of_getElem? hkey)
      rw [put, if_neg hne, List.modify_succ_cons, ih hkey hnodup]

theorem eraseIdx_eq_remove (h : Indexes index (keys es)) (hi : index a = some i) :
    es.eraseIdx i = remove a es := by
  have hkey := (h a i).mp hi
  have hnodup := h.nodup
  clear h hi
  induction es generalizing i with
  | nil => cases hkey
  | cons e es ih =>
    obtain ⟨hfirst, hnodup⟩ := List.nodup_cons.mp hnodup
    cases i with
    | zero => rw [remove, if_pos (Option.some.inj hkey), List.eraseIdx_cons_zero]
    | succ i =>
      have hne : e.1 ≠ a := fun heq => hfirst (heq ▸ List.mem_of_getElem? hkey)
      rw [remove, if_neg hne, List.eraseIdx_cons_succ, ih hkey hnodup]

end

end OrderedMap
