import WhiteSmo.Config.Parser
import WhiteSmo.Library.OrderedMap

/-!
# `INIMap`

The container of mINI: a vector of keys with their values, and an index from each key
to its position.  Keys are compared without regard to case and to white space around
them.  Any sequence of calls gives the answers of an ordered map.
-/

namespace WhiteSmo
namespace MINI

/-- What every call does with its key first. -/
def normalise (key : Bytes) : Bytes := toLower (trim key)

@[simp]
theorem normalise_normalise (key : Bytes) : normalise (normalise key) = normalise key := by
  rw [normalise, normalise, trim_toLower, trim_trim, toLower_toLower]

theorem trim_of_normal {key : Bytes} (h : normalise key = key) : trim key = key := by
  rw [← h, normalise, trim_toLower, trim_trim]

/-- `INIMap<T>`, with what holds between its two members. -/
structure INIMap (T : Type) where
  dataIndexMap : Bytes → Option Nat
  data : List (Bytes × T)
  indexes : OrderedMap.Indexes dataIndexMap (OrderedMap.keys data)
  normal : ∀ key ∈ OrderedMap.keys data, normalise key = key

namespace INIMap

variable {T : Type}

def empty : INIMap T where
  dataIndexMap := fun _ => none
  data := []
  indexes := OrderedMap.Indexes.empty
  normal := fun _ hnil => absurd hnil List.not_mem_nil

instance : Inhabited (INIMap T) := ⟨empty⟩

/-- `data.emplace_back(key, obj)` and the position of `key`. -/
def emplaceBack (m : INIMap T) (key : Bytes) (obj : T) (hkey : normalise key = key)
    (hnew : m.dataIndexMap key = none) : INIMap T where
  dataIndexMap := Function.update m.dataIndexMap key (some m.data.length)
  data := m.data ++ [(key, obj)]
  indexes := by
    rw [OrderedMap.keys_append, ← show (OrderedMap.keys m.data).length = m.data.length from
      List.length_map _]
    exact m.indexes.push hnew
  normal := by
    intro k hk
    rw [OrderedMap.keys_append] at hk
    rcases List.mem_append.mp hk with hk | hk
    · exact m.normal k hk
    · rw [List.mem_singleton.mp hk]
      exact hkey

/-- `data[index].second = obj` -/
def assign (m : INIMap T) (index : Nat) (obj : T) : INIMap T where
  dataIndexMap := m.dataIndexMap
  data := m.data.modify index fun e => (e.1, obj)
  indexes := by
    rw [OrderedMap.keys_modify]
    exact m.indexes
  normal := by
    rw [OrderedMap.keys_modify]
    exact m.normal

/-- Two maps with one vector have one index. -/
theorem ext_data {m m' : INIMap T} (h : m.data = m'.data) : m = m' := by
  have hindex : m.dataIndexMap = m'.dataIndexMap := by
    funext key
    refine Option.ext fun i => ?_
    rw [m.indexes key i, m'.indexes key i, h]
  cases m
  cases m'
  cases h
  cases hindex
  rfl

variable [Inhabited T]

/-- `data[index].second` -/
def second (m : INIMap T) (index : Nat) : T := ((m.data[index]?).map Prod.snd).getD default

def setEmpty (m : INIMap T) (key : Bytes) (hkey : normalise key = key)
    (hnew : m.dataIndexMap key = none) : INIMap T × Nat :=
  (m.emplaceBack key default hkey hnew, m.data.length)

/-- The map with the key in it, and the position of the key. -/
def locate (m : INIMap T) (key : Bytes) : INIMap T × Nat :=
  match h : m.dataIndexMap (normalise key) with
  | some index => (m, index)
  | none => m.setEmpty (normalise key) (normalise_normalise key) h

/-- `operator[]`: what the reference reads, and the map behind an assignment to it. -/
def ref (m : INIMap T) (key : Bytes) : T × (T → INIMap T) :=
  let found := m.locate key
  (found.1.second found.2, found.1.assign found.2)

def get (m : INIMap T) (key : Bytes) : T :=
  match m.dataIndexMap (normalise key) with
  | none => default
  | some index => m.second index

def has (m : INIMap T) (key : Bytes) : Bool := (m.dataIndexMap (normalise key)).isSome

def set (m : INIMap T) (key : Bytes) (obj : T) : INIMap T :=
  match h : m.dataIndexMap (normalise key) with
  | some index => m.assign index obj
  | none => m.emplaceBack (normalise key) obj (normalise_normalise key) h

/-- `set(multiArgs)` -/
def setAll (m : INIMap T) (multiArgs : List (Bytes × T)) : INIMap T :=
  multiArgs.foldl (fun m it => m.set it.1 it.2) m

/-- The entry goes, and the positions behind it are counted down. -/
def erase (m : INIMap T) (key : Bytes) (index : Nat) (h : m.dataIndexMap key = some index) :
    INIMap T where
  dataIndexMap := fun k =>
    if k = key then none else (m.dataIndexMap k).map fun vi => if vi > index then vi - 1 else vi
  data := m.data.eraseIdx index
  indexes := by
    rw [OrderedMap.keys_eraseIdx]
    exact m.indexes.erase h
  normal := by
    rw [OrderedMap.keys_eraseIdx]
    exact fun k hk => m.normal k ((List.eraseIdx_sublist _ _).subset hk)

def remove (m : INIMap T) (key : Bytes) : INIMap T × Bool :=
  match h : m.dataIndexMap (normalise key) with
  | some index => (m.erase (normalise key) index h, true)
  | none => (m, false)

def clear (_ : INIMap T) : INIMap T := empty

def size (m : INIMap T) : Nat := m.data.length

/-! ## What the calls do to the entries -/

omit [Inhabited T] in
theorem index_eq_none_iff (m : INIMap T) (key : Bytes) :
    m.dataIndexMap key = none ↔ OrderedMap.find key m.data = none := by
  rw [m.indexes.eq_none_iff, OrderedMap.find_eq_none_iff_not_mem]

theorem second_eq {m : INIMap T} {key : Bytes} {index : Nat}
    (h : m.dataIndexMap key = some index) :
    m.second index = (OrderedMap.find key m.data).getD default := by
  rw [OrderedMap.find_eq_of_index m.indexes h, second]

theorem get_eq (m : INIMap T) (key : Bytes) :
    m.get key = (OrderedMap.find (normalise key) m.data).getD default := by
  rw [get]
  cases hindex : m.dataIndexMap (normalise key) with
  | none => rw [(m.index_eq_none_iff _).mp hindex, Option.getD_none]
  | some index => exact second_eq hindex

omit [Inhabited T] in
theorem has_eq (m : INIMap T) (key : Bytes) :
    m.has key = (OrderedMap.find (normalise key) m.data).isSome := by
  rw [has, Bool.eq_iff_iff, ← not_iff_not, Option.not_isSome_iff_eq_none,
    Option.not_isSome_iff_eq_none, index_eq_none_iff]

omit [Inhabited T] in
theorem assign_data {m : INIMap T} {key : Bytes} {index : Nat}
    (h : m.dataIndexMap key = some index) (obj : T) :
    (m.assign index obj).data = OrderedMap.put key obj m.data :=
  OrderedMap.modify_eq_put m.indexes h obj

omit [Inhabited T] in
theorem emplaceBack_data {m : INIMap T} {key : Bytes} (obj : T) (hkey : normalise key = key)
    (hnew : m.dataIndexMap key = none) :
    (m.emplaceBack key obj hkey hnew).data = OrderedMap.put key obj m.data :=
  (OrderedMap.put_of_not_mem (m.indexes.eq_none_iff.mp hnew) obj).symm

omit [Inhabited T] in
theorem set_data (m : INIMap T) (key : Bytes) (obj : T) :
    (m.set key obj).data = OrderedMap.put (normalise key) obj m.data := by
  unfold set
  split
  case h_1 index hindex => exact assign_data hindex obj
  case h_2 hnew => exact emplaceBack_data obj _ hnew

theorem locate_index (m : INIMap T) (key : Bytes) :
    (m.locate key).1.dataIndexMap (normalise key) = some (m.locate key).2 := by
  unfold locate
  split
  case h_1 index hindex => exact hindex
  case h_2 hnew => exact Function.update_self _ _ _

theorem locate_data (m : INIMap T) (key : Bytes) :
    (m.locate key).1.data =
      if m.has key then m.data else OrderedMap.put (normalise key) default m.data := by
  unfold locate has
  split
  case h_1 index hindex => simp [hindex]
  case h_2 hnew =>
    rw [setEmpty, emplaceBack_data]
    simp [hnew]

theorem ref_fst (m : INIMap T) (key : Bytes) : (m.ref key).1 = m.get key := by
  rw [ref, second_eq (m.locate_index key), locate_data, get_eq]
  split
  case isTrue => rfl
  case isFalse hhas =>
    rw [has_eq, Option.not_isSome_iff_eq_none] at hhas
    rw [OrderedMap.find_put_self, hhas, Option.getD_some, Option.getD_none]

theorem ref_snd (m : INIMap T) (key : Bytes) (obj : T) : (m.ref key).2 obj = m.set key obj := by
  refine ext_data ?_
  rw [ref, assign_data (m.locate_index key), locate_data, set_data]
  split
  case isTrue => rfl
  case isFalse => exact OrderedMap.put_put _ _ _ _

omit [Inhabited T] in
theorem remove_data (m : INIMap T) (key : Bytes) :
    (m.remove key).1.data = OrderedMap.remove (normalise key) m.data := by
  unfold remove
  split
  case h_1 index hindex => exact OrderedMap.eraseIdx_eq_remove m.indexes hindex
  case h_2 hnew =>
    exact (OrderedMap.remove_of_not_mem (m.indexes.eq_none_iff.mp hnew)).symm

omit [Inhabited T] in
theorem remove_eq_has (m : INIMap T) (key : Bytes) : (m.remove key).2 = m.has key := by
  unfold remove has
  split
  case h_1 index hindex => simp [hindex]
  case h_2 hnew => simp [hnew]

/-! ## Any sequence of calls

What a user of the container can ask, and what it answers.  The same requests made to a
list of entries say what the container is for. -/

inductive Request (T : Type)
  | ref (key : Bytes)
  | assign (key : Bytes) (obj : T)
  | get (key : Bytes)
  | has (key : Bytes)
  | set (key : Bytes) (obj : T)
  | setAll (multiArgs : List (Bytes × T))
  | remove (key : Bytes)
  | clear
  | size
  | iterate

inductive Answer (T : Type)
  | done
  | obj (obj : T)
  | truth (b : Bool)
  | count (n : Nat)
  | entries (data : List (Bytes × T))

def answer (m : INIMap T) : Request T → INIMap T × Answer T
  | .ref key => ((m.ref key).2 (m.ref key).1, .obj (m.ref key).1)
  | .assign key obj => ((m.ref key).2 obj, .done)
  | .get key => (m, .obj (m.get key))
  | .has key => (m, .truth (m.has key))
  | .set key obj => (m.set key obj, .done)
  | .setAll multiArgs => (m.setAll multiArgs, .done)
  | .remove key => ((m.remove key).1, .truth (m.remove key).2)
  | .clear => (m.clear, .done)
  | .size => (m, .count m.size)
  | .iterate => (m, .entries m.data)

/-- The same of an ordered map. -/
def specified (es : List (Bytes × T)) : Request T → List (Bytes × T) × Answer T
  | .ref key =>
    let obj := (OrderedMap.find (normalise key) es).getD default
    (OrderedMap.put (normalise key) obj es, .obj obj)
  | .assign key obj => (OrderedMap.put (normalise key) obj es, .done)
  | .get key => (es, .obj ((OrderedMap.find (normalise key) es).getD default))
  | .has key => (es, .truth (OrderedMap.find (normalise key) es).isSome)
  | .set key obj => (OrderedMap.put (normalise key) obj es, .done)
  | .setAll multiArgs =>
    (multiArgs.foldl (fun es it => OrderedMap.put (normalise it.1) it.2 es) es, .done)
  | .remove key =>
    (OrderedMap.remove (normalise key) es, .truth (OrderedMap.find (normalise key) es).isSome)
  | .clear => ([], .done)
  | .size => (es, .count es.length)
  | .iterate => (es, .entries es)

omit [Inhabited T] in
theorem setAll_data (m : INIMap T) (multiArgs : List (Bytes × T)) :
    (m.setAll multiArgs).data =
      multiArgs.foldl (fun es it => OrderedMap.put (normalise it.1) it.2 es) m.data := by
  rw [setAll]
  induction multiArgs generalizing m with
  | nil => rfl
  | cons it rest ih => rw [List.foldl_cons, ih, List.foldl_cons, set_data]

theorem answer_eq_specified (m : INIMap T) (request : Request T) :
    specified m.data request = ((m.answer request).1.data, (m.answer request).2) := by
  cases request with
  | ref key => rw [specified, answer, ref_snd, set_data, ref_fst, get_eq]
  | assign key obj => rw [specified, answer, ref_snd, set_data]
  | get key => rw [specified, answer, get_eq]
  | has key => rw [specified, answer, has_eq]
  | set key obj => rw [specified, answer, set_data]
  | setAll multiArgs => rw [specified, answer, setAll_data]
  | remove key => rw [specified, answer, remove_data, remove_eq_has, has_eq]
  | clear => rfl
  | size => rfl
  | iterate => rfl

/-- The answers to requests made one after another, and what is left behind them. -/
def answers {M : Type} (ask : M → Request T → M × Answer T) : M → List (Request T) →
    M × List (Answer T)
  | m, [] => (m, [])
  | m, request :: rest =>
    let r := ask m request
    let last := answers ask r.1 rest
    (last.1, r.2 :: last.2)

/-- Whatever is asked, in whatever order, the vector with its index answers as an ordered
map does, and holds the same entries in the same order. -/
theorem answers_eq_specified (m : INIMap T) (requests : List (Request T)) :
    answers specified m.data requests =
      ((answers answer m requests).1.data, (answers answer m requests).2) := by
  induction requests generalizing m with
  | nil => rfl
  | cons request rest ih =>
    rw [answers, answers, answer_eq_specified]
    dsimp only
    rw [ih]

end INIMap
end MINI
end WhiteSmo
