import WhiteSmo.Database.Transaction

/-!
# Prepared statements

Under a `SQLite::Statement` is a prepared statement, which behaves as `sqlite3.h` says: a step
behind the end of an execution resets it and executes the query again.  The object keeps two
flags, one of which refuses such steps.  In whatever order it is called, the query is then
executed to its end at most once for each reset, and a column is read only while there is a
row.
-/

namespace WhiteSmo
namespace SQLite

def OK : Int := 0

def MISUSE : Int := 21

def ROW : Int := 100

def DONE : Int := 101

/-- A result code of a step that is an error. -/
structure ErrorCode where
  code : Int
  ne_ok : code ≠ OK
  ne_row : code ≠ ROW
  ne_done : code ≠ DONE

/-- What one execution of a query returns: rows of `columns` values, and behind them
`SQLITE_DONE` or an error. -/
structure Result (V : Type) (columns : Nat) where
  rows : List (List V)
  error : Option ErrorCode
  width : ∀ row ∈ rows, row.length = columns

inductive Place
  | start
  | row (i : Nat)
  | done
  | failed (code : ErrorCode)

/-- `sqlite3_stmt`: what the executions of the query return, how many have begun, have come to
their end and have failed, and where the current one is. -/
structure Prepared (V : Type) (columns : Nat) where
  results : Nat → Result V columns
  executions : Nat
  completions : Nat
  failures : Nat
  place : Place

namespace Prepared

variable {V : Type} {columns : Nat} (p : Prepared V columns)

/-- The row that the `sqlite3_column` functions read. -/
def current : Option (List V) :=
  match p.place with
  | .row i => (p.results p.executions).rows[i]?
  | _ => none

/-- The execution goes on to its `i`-th row or behind the last one. -/
def advance (i : Nat) : Int × Prepared V columns :=
  match (p.results p.executions).rows[i]?, (p.results p.executions).error with
  | some _, _ => (ROW, { p with place := .row i })
  | none, none => (DONE, { p with place := .done, completions := p.completions + 1 })
  | none, some error =>
    (error.code, { p with place := .failed error, failures := p.failures + 1 })

/-- `sqlite3_step` -/
def step : Int × Prepared V columns :=
  match p.place with
  | .row i => p.advance (i + 1)
  -- at the start, or reset automatically
  | _ => { p with executions := p.executions + 1 }.advance 0

/-- `sqlite3_reset` -/
def reset : Int × Prepared V columns :=
  match p.place with
  | .failed error => (error.code, { p with place := .start })
  | _ => (OK, { p with place := .start })

theorem current_length {row : List V} (h : p.current = some row) : row.length = columns := by
  unfold current at h
  split at h
  · exact (p.results p.executions).width row (List.mem_of_getElem? h)
  · cases h

theorem reset_prepared : p.reset.2 = { p with place := .start } := by
  unfold reset
  split <;> rfl

end Prepared

/-- `SQLite::Statement`; `errcode` is what `sqlite3_errcode(mpSQLite)` returns. -/
structure Statement (V : Type) (columns : Nat) where
  mbHasRow : Bool
  mbDone : Bool
  mpPreparedStatement : Prepared V columns
  errcode : Int

namespace Statement

variable {V : Type} {columns : Nat}

/-- `Statement::Statement`, behind a successful `sqlite3_prepare_v2`. -/
def construct (results : Nat → Result V columns) : Statement V columns where
  mbHasRow := false
  mbDone := false
  mpPreparedStatement := ⟨results, 0, 0, 0, .start⟩
  errcode := OK

def tryExecuteStep : Throwing (Statement V columns) Exception Int where
  run s :=
    if s.mbDone then (.ok MISUSE, s)
    else
      let r := s.mpPreparedStatement.step
      if r.1 = ROW then
        (.ok r.1, { s with mbHasRow := true, mpPreparedStatement := r.2, errcode := r.1 })
      else
        (.ok r.1, ⟨false, r.1 = DONE, r.2, r.1⟩)

def needsReset : String := "Statement needs to be reseted"

def executeStep : Throwing (Statement V columns) Exception Bool := do
  let ret ← tryExecuteStep
  if ROW ≠ ret ∧ DONE ≠ ret then
    if ret = (← Throwing.read errcode) then Throwing.throw .sqlite
    else Throwing.throw (.text needsReset ret)
  Throwing.read mbHasRow

/-- `Statement::exec`, without the number of changes. -/
def exec : Throwing (Statement V columns) Exception Unit := do
  let ret ← tryExecuteStep
  if DONE ≠ ret then
    if ROW = ret then
      Throwing.throw (.text "exec() does not expect results. Use executeStep." (-1))
    else if ret = (← Throwing.read errcode) then Throwing.throw .sqlite
    else Throwing.throw (.text needsReset ret)

def tryReset : Throwing (Statement V columns) Exception Int where
  run s :=
    let r := s.mpPreparedStatement.reset
    (.ok r.1, ⟨false, false, r.2, r.1⟩)

def reset : Throwing (Statement V columns) Exception Unit := do
  let ret ← tryReset
  if OK ≠ ret then Throwing.throw .sqlite

def checkRow : Throwing (Statement V columns) Exception Unit := do
  if (← Throwing.read mbHasRow) = false then
    Throwing.throw (.text
      "No row to get a column from. executeStep() was not called, or returned false." (-1))

def checkIndex (aIndex : Int) : Throwing (Statement V columns) Exception Unit :=
  if aIndex < 0 ∨ aIndex ≥ columns then Throwing.throw (.text "Column index out of range." (-1))
  else pure ()

/-- `Statement::getColumn` and the reading of the column, `none` where SQLite has no row. -/
def getColumn (aIndex : Int) : Throwing (Statement V columns) Exception (Option V) := do
  checkRow
  checkIndex aIndex
  Throwing.read fun s => s.mpPreparedStatement.current.bind fun row => row[aIndex.toNat]?

/-! ## What a call does -/

theorem tryExecuteStep_of_done {s : Statement V columns} (h : s.mbDone = true) :
    tryExecuteStep.run s = (.ok MISUSE, s) := by
  simp only [tryExecuteStep, h, if_true]

/-- The statement behind a step of what it has prepared. -/
def stepped (s : Statement V columns) : Statement V columns where
  mbHasRow := s.mpPreparedStatement.step.1 = ROW
  mbDone := s.mpPreparedStatement.step.1 = DONE
  mpPreparedStatement := s.mpPreparedStatement.step.2
  errcode := s.mpPreparedStatement.step.1

theorem tryExecuteStep_of_not_done {s : Statement V columns} (h : s.mbDone = false) :
    tryExecuteStep.run s = (.ok s.mpPreparedStatement.step.1, s.stepped) := by
  have hne : ROW ≠ DONE := by decide
  simp only [tryExecuteStep, h, Bool.false_eq_true, if_false]
  split
  case isTrue hrow => simp [stepped, hrow, hne]
  case isFalse hrow => simp [stepped, hrow]

theorem errcode_run (s : Statement V columns) :
    (Throwing.read errcode : Throwing (Statement V columns) Exception Int).run s =
      (.ok s.errcode, s) := rfl

theorem executeStep_run {s s' : Statement V columns} {ret : Int}
    (h : tryExecuteStep.run s = (.ok ret, s')) :
    executeStep.run s =
      (if ROW ≠ ret ∧ DONE ≠ ret then
        .error (if ret = s'.errcode then .sqlite else .text needsReset ret)
      else .ok s'.mbHasRow, s') := by
  rw [executeStep, Throwing.bind_run_ok h]
  dsimp only
  by_cases herror : ROW ≠ ret ∧ DONE ≠ ret
  · rw [if_pos herror, if_pos herror, Throwing.bind_run_ok (errcode_run s')]
    split <;> rfl
  · rw [if_neg herror, if_neg herror]
    rfl

/-- Whatever they return or throw, the three ways to step leave the same behind. -/
theorem executeStep_state {s s' : Statement V columns} {ret : Int}
    (h : tryExecuteStep.run s = (.ok ret, s')) : (executeStep.run s).2 = s' := by
  rw [executeStep_run h]

theorem exec_state {s s' : Statement V columns} {ret : Int}
    (h : tryExecuteStep.run s = (.ok ret, s')) : (exec.run s).2 = s' := by
  rw [exec, Throwing.bind_run_ok h]
  split
  · split
    · rfl
    · rw [Throwing.bind_run_ok (errcode_run s')]
      split <;> rfl
  · rfl

theorem reset_state (s : Statement V columns) : (reset.run s).2 = (tryReset.run s).2 := by
  have hrun : tryReset.run s = (.ok s.mpPreparedStatement.reset.1, (tryReset.run s).2) := rfl
  rw [reset, Throwing.bind_run_ok hrun]
  split <;> rfl

theorem checkRow_run (s : Statement V columns) :
    (s.mbHasRow = true ∧ checkRow.run s = (.ok (), s)) ∨
      s.mbHasRow = false ∧ ∃ e, checkRow.run s = (.error e, s) := by
  have hread : (Throwing.read mbHasRow : Throwing (Statement V columns) Exception Bool).run s =
      (.ok s.mbHasRow, s) := rfl
  rw [checkRow, Throwing.bind_run_ok hread]
  cases s.mbHasRow with
  | true => exact Or.inl ⟨rfl, rfl⟩
  | false => exact Or.inr ⟨rfl, _, rfl⟩

/-- A column is read when there is a row and the index is that of a column. -/
theorem getColumn_run (aIndex : Int) (s : Statement V columns) :
    (¬ (s.mbHasRow = true ∧ 0 ≤ aIndex ∧ aIndex < columns) ∧
        ∃ e, (getColumn aIndex).run s = (.error e, s)) ∨
      (s.mbHasRow = true ∧ 0 ≤ aIndex ∧ aIndex < columns) ∧
        (getColumn aIndex).run s =
          (.ok (s.mpPreparedStatement.current.bind fun row => row[aIndex.toNat]?), s) := by
  rw [getColumn]
  rcases checkRow_run s with ⟨hrow, hrun⟩ | ⟨hnone, e, hrun⟩
  · rw [Throwing.bind_run_ok hrun, checkIndex]
    by_cases hindex : aIndex < 0 ∨ aIndex ≥ columns
    · rw [if_pos hindex]
      refine Or.inl ⟨fun h => ?_, _, rfl⟩
      omega
    · rw [if_neg hindex]
      exact Or.inr ⟨⟨hrow, by omega⟩, rfl⟩
  · rw [Throwing.bind_run_error hrun]
    refine Or.inl ⟨fun h => ?_, _, rfl⟩
    rw [hnone] at h
    cases h.1

/-! ## A result row by row -/

/-- The steps to come return these rows, and behind them this end. -/
structure Ahead (s : Statement V columns) (rows : List (List V)) (error : Option ErrorCode) :
    Prop where
  not_done : s.mbDone = false
  step : ∃ (p : Prepared V columns) (k : Nat), s.mpPreparedStatement.step = p.advance k ∧
    (p.results p.executions).rows.drop k = rows ∧ (p.results p.executions).error = error

theorem construct_ahead (results : Nat → Result V columns) :
    (construct results).Ahead (results 1).rows (results 1).error :=
  ⟨rfl, ⟨results, 1, 0, 0, .start⟩, 0, rfl, rfl, rfl⟩

variable {s : Statement V columns} {row : List V} {rows : List (List V)}
  {error : Option ErrorCode}

theorem executeStep_row (h : s.Ahead (row :: rows) error) :
    ∃ s', executeStep.run s = (.ok true, s') ∧ s'.mbHasRow = true ∧
      s'.mpPreparedStatement.current = some row ∧ s'.Ahead rows error := by
  obtain ⟨hdone, p, k, hstep, hrows, herror⟩ := h
  have hrow : (p.results p.executions).rows[k]? = some row := by
    rw [← List.head?_drop, hrows]
    rfl
  have hadvance : p.advance k = (ROW, { p with place := .row k }) := by
    simp only [Prepared.advance, hrow]
  have hrest : (p.results p.executions).rows.drop (k + 1) = rows := by
    rw [← List.tail_drop, hrows]
    rfl
  have hne : ROW ≠ DONE := by decide
  have hstepped : s.stepped = ⟨true, false, { p with place := .row k }, ROW⟩ := by
    simp [stepped, hstep, hadvance, hne]
  have hrun : executeStep.run s = (.ok true, s.stepped) := by
    rw [executeStep_run (tryExecuteStep_of_not_done hdone), hstep, hadvance,
      if_neg (fun herror => herror.1 rfl), hstepped]
  refine ⟨s.stepped, hrun, ?_⟩
  rw [hstepped]
  exact ⟨rfl, hrow, rfl, { p with place := .row k }, k + 1, rfl, hrest, herror⟩

theorem executeStep_end (h : s.Ahead [] none) : ∃ s', executeStep.run s = (.ok false, s') := by
  obtain ⟨hdone, p, k, hstep, hrows, herror⟩ := h
  have hrow : (p.results p.executions).rows[k]? = none := by
    rw [← List.head?_drop, hrows]
    rfl
  have hadvance : (p.advance k).1 = DONE := by
    simp only [Prepared.advance, hrow, herror]
  have hne : ROW ≠ DONE := by decide
  refine ⟨s.stepped, ?_⟩
  rw [executeStep_run (tryExecuteStep_of_not_done hdone), hstep, hadvance,
    if_neg (fun herror => herror.2 rfl), stepped, hstep, hadvance]
  simp [hne.symm]

theorem executeStep_error {code : ErrorCode} (h : s.Ahead [] (some code)) :
    ∃ e s', executeStep.run s = (.error e, s') := by
  obtain ⟨hdone, p, k, hstep, hrows, herror⟩ := h
  have hrow : (p.results p.executions).rows[k]? = none := by
    rw [← List.head?_drop, hrows]
    rfl
  have hadvance : (p.advance k).1 = code.code := by
    simp only [Prepared.advance, hrow, herror]
  have hrun := executeStep_run (tryExecuteStep_of_not_done hdone)
  rw [hstep, hadvance, if_pos ⟨code.ne_row.symm, code.ne_done.symm⟩] at hrun
  exact ⟨_, s.stepped, hrun⟩

/-! ## Any calls in any order -/

/-- A call on a statement.  What it throws is caught. -/
inductive Call
  | tryExecuteStep
  | executeStep
  | exec
  | tryReset
  | reset
  | getColumn (aIndex : Int)

def perform (s : Statement V columns) : Call → Statement V columns
  | .tryExecuteStep => (tryExecuteStep.run s).2
  | .executeStep => (executeStep.run s).2
  | .exec => (exec.run s).2
  | .tryReset => (tryReset.run s).2
  | .reset => (reset.run s).2
  | .getColumn aIndex => ((getColumn aIndex).run s).2

def Call.resets : Call → Bool
  | .tryReset | .reset => true
  | _ => false

end Statement

/-- An execution is under way. -/
def Place.begun : Place → Nat
  | .row _ | .done => 1
  | .start | .failed _ => 0

def Place.ended : Place → Nat
  | .done => 1
  | _ => 0

theorem Place.bounds (place : Place) : place.ended ≤ 1 ∧ place.begun ≤ 1 := by
  cases place <;> simp [ended, begun]

namespace Statement

variable {V : Type} {columns : Nat}

/-- The flags are right, and what was executed is accounted for by so many resets. -/
structure Accounted (s : Statement V columns) (resets : Nat) : Prop where
  hasRow : s.mbHasRow = true ↔ s.mpPreparedStatement.current.isSome = true
  done : s.mbDone = true ↔ s.mpPreparedStatement.place = .done
  completions : s.mpPreparedStatement.completions ≤ resets + s.mpPreparedStatement.place.ended
  executions : s.mpPreparedStatement.executions ≤
    resets + s.mpPreparedStatement.failures + s.mpPreparedStatement.place.begun

theorem advance_accounted (p : Prepared V columns) (errcode : Int) (k resets : Nat)
    (hcompletions : p.completions ≤ resets)
    (hexecutions : p.executions ≤ resets + p.failures + 1) :
    Accounted ⟨(p.advance k).1 = ROW, (p.advance k).1 = DONE, (p.advance k).2, errcode⟩ resets := by
  have hne : ROW ≠ DONE := by decide
  unfold Prepared.advance
  cases hrow : (p.results p.executions).rows[k]? with
  | some row =>
    refine ⟨?_, ?_, hcompletions, hexecutions⟩
    · simp [Prepared.current, hrow]
    · simp [hne]
  | none =>
    cases (p.results p.executions).error with
    | none =>
      refine ⟨?_, ?_, Nat.succ_le_succ hcompletions, hexecutions⟩
      · simp [Prepared.current, Ne.symm hne]
      · simp
    | some error =>
      refine ⟨?_, ?_, hcompletions, ?_⟩
      · simp [Prepared.current, error.ne_row]
      · simp [error.ne_done]
      · dsimp only [Place.begun]
        omega

theorem stepped_accounted {s : Statement V columns} {resets : Nat} (hs : s.Accounted resets)
    (hdone : s.mbDone = false) : s.stepped.Accounted resets := by
  have hcompletions := hs.completions
  have hexecutions := hs.executions
  have hplace : s.mpPreparedStatement.place ≠ .done := fun heq => by
    rw [hs.done.mpr heq] at hdone
    cases hdone
  unfold stepped Prepared.step
  generalize s.mpPreparedStatement = p at hcompletions hexecutions hplace
  obtain ⟨results, executions, completions, failures, place⟩ := p
  cases place with
  | done => exact absurd rfl hplace
  | row i => exact advance_accounted _ _ (i + 1) resets hcompletions hexecutions
  | start | failed error =>
    exact advance_accounted _ _ 0 resets hcompletions (Nat.succ_le_succ hexecutions)

theorem tryExecuteStep_accounted {s : Statement V columns} {resets : Nat}
    (hs : s.Accounted resets) :
    ∃ ret s', tryExecuteStep.run s = (.ok ret, s') ∧ s'.Accounted resets := by
  cases hdone : s.mbDone with
  | true => exact ⟨_, _, tryExecuteStep_of_done hdone, hs⟩
  | false => exact ⟨_, _, tryExecuteStep_of_not_done hdone, stepped_accounted hs hdone⟩

theorem tryReset_accounted {s : Statement V columns} {resets : Nat} (hs : s.Accounted resets) :
    (tryReset.run s).2.Accounted (resets + 1) := by
  have hcompletions := hs.completions
  have hexecutions := hs.executions
  have hreset : (tryReset.run s).2 = ⟨false, false, { s.mpPreparedStatement with place := .start },
      s.mpPreparedStatement.reset.1⟩ := by
    rw [← Prepared.reset_prepared]
    rfl
  rw [hreset]
  generalize s.mpPreparedStatement = p at hcompletions hexecutions
  have hplace := p.place.bounds
  refine ⟨iff_of_false Bool.false_ne_true Bool.false_ne_true,
    iff_of_false Bool.false_ne_true (fun heq => by cases heq), ?_, ?_⟩ <;>
  · dsimp only [Place.begun, Place.ended]
    omega

theorem perform_accounted {s : Statement V columns} {resets : Nat} (hs : s.Accounted resets)
    (call : Call) :
    (s.perform call).Accounted (resets + if call.resets then 1 else 0) := by
  obtain ⟨ret, s', hrun, hs'⟩ := tryExecuteStep_accounted hs
  cases call with
  | tryExecuteStep => rw [perform, hrun]; exact hs'
  | executeStep => rw [perform, executeStep_state hrun]; exact hs'
  | exec => rw [perform, exec_state hrun]; exact hs'
  | tryReset => exact tryReset_accounted hs
  | reset => rw [perform, reset_state]; exact tryReset_accounted hs
  | getColumn aIndex =>
    have hsame : ((getColumn aIndex).run s).2 = s := by
      rcases getColumn_run aIndex s with ⟨-, e, hcolumn⟩ | ⟨-, hcolumn⟩ <;> rw [hcolumn]
    rw [perform, hsame]
    exact hs

theorem foldl_accounted (calls : List Call) {s : Statement V columns} {resets : Nat}
    (hs : s.Accounted resets) :
    (calls.foldl perform s).Accounted (resets + calls.countP Call.resets) := by
  induction calls generalizing s resets with
  | nil => exact hs
  | cons call calls ih =>
    rw [List.foldl_cons, List.countP_cons, Nat.add_comm (calls.countP _), ← Nat.add_assoc]
    exact ih (perform_accounted hs call)

theorem construct_accounted (results : Nat → Result V columns) :
    (construct results).Accounted 0 :=
  ⟨iff_of_false Bool.false_ne_true Bool.false_ne_true,
    iff_of_false Bool.false_ne_true (fun heq => by cases heq), Nat.le_refl _, Nat.le_refl _⟩

/-- What a column is read as is a value of the row. -/
theorem Accounted.getColumn_iff {s : Statement V columns} {resets : Nat}
    (hs : s.Accounted resets) (aIndex : Int) (value : Option V) :
    (∃ s', (getColumn aIndex).run s = (.ok value, s')) ↔
      0 ≤ aIndex ∧ aIndex < columns ∧ ∃ row, s.mpPreparedStatement.current = some row ∧
        value.isSome = true ∧ value = row[aIndex.toNat]? := by
  rcases getColumn_run aIndex s with ⟨hbad, e, hrun⟩ | ⟨⟨hrow, hindex⟩, hrun⟩
  · constructor
    · rintro ⟨s', hok⟩
      rw [hrun] at hok
      cases hok
    · rintro ⟨hpositive, hless, row, hcurrent, -⟩
      exact absurd ⟨hs.hasRow.mpr (by rw [hcurrent]; rfl), hpositive, hless⟩ hbad
  · obtain ⟨row, hcurrent⟩ := Option.isSome_iff_exists.mp (hs.hasRow.mp hrow)
    have hlength := s.mpPreparedStatement.current_length hcurrent
    have hinside : aIndex.toNat < row.length := by omega
    rw [hrun, hcurrent, Option.bind_some, List.getElem?_eq_getElem hinside]
    constructor
    · rintro ⟨s', hok⟩
      cases hok
      exact ⟨hindex.1, hindex.2, row, rfl, rfl, (List.getElem?_eq_getElem hinside).symm⟩
    · rintro ⟨-, -, row', hrow', -, rfl⟩
      cases hrow'
      exact ⟨s, by rw [List.getElem?_eq_getElem hinside]⟩

/-- Over any calls in any order, the query is executed to its end at most once for the first
time and once for each reset, and is begun again only behind a reset or a failed step.  A
column is read exactly while the execution is at a row, and is then that of the row. -/
theorem calls_accounted (results : Nat → Result V columns) (calls : List Call) :
    let s := calls.foldl perform (construct results)
    s.mpPreparedStatement.completions ≤ calls.countP Call.resets + 1 ∧
      s.mpPreparedStatement.executions ≤
        calls.countP Call.resets + s.mpPreparedStatement.failures + 1 ∧
      ∀ aIndex value, (∃ s', (getColumn aIndex).run s = (.ok value, s')) ↔
        0 ≤ aIndex ∧ aIndex < columns ∧ ∃ row, s.mpPreparedStatement.current = some row ∧
          value.isSome = true ∧ value = row[aIndex.toNat]? := by
  intro s
  have hs : s.Accounted (0 + calls.countP Call.resets) :=
    foldl_accounted calls (construct_accounted results)
  have hcompletions := hs.completions
  have hexecutions := hs.executions
  have hplace := s.mpPreparedStatement.place.bounds
  exact ⟨by omega, by omega, fun aIndex value => hs.getColumn_iff aIndex value⟩

end Statement

end SQLite
end WhiteSmo
