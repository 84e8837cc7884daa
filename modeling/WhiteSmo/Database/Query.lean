import WhiteSmo.Database.Statement
import WhiteSmo.Server.Update

/-!
# A login over the library

`case 12` of the switch, with the objects of SQLiteCpp that it makes: a statement for the
SELECT, read row by row inside the `try` block, and a transaction for the INSERT.  It makes
the writes that `Server.login` lists, for the database that the calls of the message amount
to, and the file has the table that they leave behind.
-/

namespace WhiteSmo
namespace SQLite

/-- SQLite for the two statements of the server.  `prepare` gives the executions of a SELECT
from `Users`, which has three columns, or fails; `text` and `int` are what a column is read as. -/
structure Sqlite (V : Type) extends Engine where
  prepare : Nat → Bytes → List Row → Option (Nat → Result V 3)
  text : V → Bytes
  int : V → Int32

namespace Sqlite

variable {V : Type} (db : Sqlite V)

/-- What `getColumn` gives for a row of the result. -/
def row (values : List V) : Row where
  rowid := 0
  userName := values[0]?.elim [] db.text
  password := values[1]?.elim [] db.text
  banned := values[2]?.elim 0 db.int

/-- What the `INSERT` of a message does that begins with the `n`-th call. -/
def inserted (n : Nat) (text : Bytes) (users : List Row) : Bool × Connection :=
  db.run (n + 2) text ⟨users, some users⟩

/-- What the calls of one message amount to, when it begins with the `n`-th. -/
def database (n : Nat) : Database where
  select text users :=
    match db.prepare n text users with
    | none => .throws
    | some results => .steps ((results 1).rows.map db.row) (results 1).error.isSome
  begins := db.outcome (n + 1) = .done
  exec text users :=
    if (db.inserted n text users).1 then (db.inserted n text users).2.transaction else none
  commits := db.outcome (n + 3) = .done
  kept text users := (db.inserted n text users).2.stored

variable {db} {n : Nat} {name password : Bytes} {users : List Row}

theorem createUser_of_not_begins (h : db.outcome (n + 1) ≠ .done) :
    (db.database n).createUser name password users = none ∧
      (db.database n).left name password users = users := by
  simp [Database.createUser, Database.left, database, h]

theorem left_of_begins (h : db.outcome (n + 1) = .done) :
    (db.database n).left name password users =
      (db.inserted n (insertText name password) users).2.stored := by
  simp [Database.left, database, h]

theorem createUser_of_error (h : (db.inserted n (insertText name password) users).1 = false) :
    (db.database n).createUser name password users = none := by
  simp [Database.createUser, database, h]

/-- A `COMMIT` behind a text that has run. -/
theorem createUser_of_ok (hbegin : db.outcome (n + 1) = .done)
    (hok : (db.inserted n (insertText name password) users).1 = true) :
    (db.database n).createUser name password users =
      (db.inserted n (insertText name password) users).2.transaction.bind
        fun users => if db.outcome (n + 3) = .done then some users else none := by
  simp [Database.createUser, database, hbegin, hok]

variable (db n name password users) in
/-- The transaction around the INSERT is that of `Database.createUser`, for every text.  One
that has a `COMMIT` of its own is in the file when the scope throws. -/
theorem createUser_triple :
    Throwing.Triple (fun link => link.At ⟨users, none⟩ (n + 1))
      (Transaction.committing db.toEngine [insertText name password])
      (fun _ link => (db.database n).createUser name password users =
          some link.connection.stored ∧ link.connection.transaction = none)
      (fun _ link => ((db.database n).createUser name password users = none ∧
          link.connection.stored = (db.database n).left name password users) ∧
        (link.connection.transaction = none ∨
          Transaction.RollbackFailed db.toEngine link)) := by
  refine Transaction.scope_triple
    (C := fun stored => (db.database n).createUser name password users = some stored)
    (D := fun stored => (db.database n).createUser name password users = none ∧
      stored = (db.database n).left name password users)
    (fun hfailed => ?_) fun hbegin => ?_
  · obtain ⟨hnone, hleft⟩ := @createUser_of_not_begins _ db n name password users hfailed
    exact ⟨hnone, hleft.symm⟩
  · refine Throwing.Triple.bind ((Transaction.execAll_one _ _ (n + 1 + 1)).consequence
      (fun _ hs => hs) (fun _ _ hs => hs) ?_) fun _ => ?_
    · rintro _ s ⟨herror, hlink, hobject⟩
      refine ⟨⟨createUser_of_error herror, ?_⟩, hobject⟩
      rw [left_of_begins hbegin, hlink]
      rfl
    · refine Throwing.Triple.of_fact fun hok => (Transaction.commit_triple
        (db.inserted n (insertText name password) users).2).consequence (fun _ hs => hs) ?_ ?_
      · rintro _ s ⟨⟨hopen, hcommit⟩, hlink, hobject⟩
        obtain ⟨content, hcontent⟩ := Option.ne_none_iff_exists'.mp hopen
        refine ⟨?_, by rw [hlink], hobject⟩
        rw [createUser_of_ok hbegin hok, hcontent, Option.bind_some, if_pos hcommit, hlink]
        exact congrArg some (by simp [Connection.content, hcontent])
      · rintro _ s ⟨hnot, hstored, hobject⟩
        refine ⟨⟨?_, by rw [left_of_begins hbegin, hstored]⟩, hobject⟩
        rw [createUser_of_ok hbegin hok, Option.bind_eq_none_iff]
        intro content hcontent
        refine if_neg fun hcommit => hnot ⟨?_, hcommit⟩
        rw [hcontent]
        exact Option.some_ne_none content

end Sqlite

/-- The locals of the case, and the writes made so far to what is no table. -/
structure Locals where
  foundUser : Bool
  invalidPass : Bool
  effects : List Effect

/-- A write that is neither to the table nor an exception. -/
def emitted : Effect → Bool
  | .setUsers _ | .throw => false
  | _ => true

/-- The table behind the writes. -/
def tableAfter (users : List Row) (effects : List Effect) : List Row :=
  effects.foldl (fun users effect => if let .setUsers users := effect then users else users) users

namespace Login

variable {V : Type} (db : Sqlite V) (server : Server) (client : Client) (name password : Bytes)

def emit (effects : List Effect) : Throwing (Link × Locals) Exception Unit :=
  Throwing.modify fun s => (s.1, { s.2 with effects := s.2.effects ++ effects })

/-- `SQLite::Statement query(*_database, ...)` -/
def prepareStatement : Throwing (Link × Locals) Exception (Statement V 3) where
  run s :=
    let link := { s.1 with calls := s.1.calls ++ [selectText name] }
    match db.prepare s.1.calls.length (selectText name) s.1.connection.content with
    | none => (.error .sqlite, link, s.2)
    | some results => (.ok (Statement.construct results), link, s.2)

/-- `query.getColumn(aIndex)` as a `const char*` -/
def columnText (aIndex : Int) :
    Throwing ((Link × Locals) × Statement V 3) Exception Bytes := do
  let value ← Throwing.inside (Statement.getColumn aIndex)
  pure (value.elim [] db.text)

/-- `query.getColumn(aIndex)` as an `int` -/
def columnInt (aIndex : Int) : Throwing ((Link × Locals) × Statement V 3) Exception Int32 := do
  let value ← Throwing.inside (Statement.getColumn aIndex)
  pure (value.elim 0 db.int)

/-- The row loop is left by `break`, with `invalidPass` set. -/
def refuseRow (effects : List Effect) :
    Throwing ((Link × Locals) × Statement V 3) Exception Bool := do
  Throwing.outside (emit effects)
  Throwing.modify fun s => ((s.1.1, { s.1.2 with invalidPass := true }), s.2)
  pure false

/-- The body of `while (query.executeStep())`. -/
def rowBody : Throwing ((Link × Locals) × Statement V 3) Exception Bool := do
  Throwing.modify fun s => ((s.1.1, { s.1.2 with foundUser := true }), s.2)
  let userName ← columnText db 0
  Throwing.outside (emit [.setName userName])
  let pass ← columnText db 1
  let banned ← columnInt db 2
  if banned = 1 then refuseRow [.disconnect client.socket, .setConnected false]
  else if pass ≠ password then refuseRow [.send client.socket server.wrongPassword]
  else pure true

/-- The `try` block: whether the login was refused, `none` when the loop has not come to its
end. -/
def selectUser (fuel : Nat) : Throwing (Link × Locals) Exception (Option Bool) :=
  Throwing.tryCatch (Throwing.scope (prepareStatement db name) (fun _ s => s) do
      let ended ← Throwing.loop (Throwing.inside Statement.executeStep)
        (rowBody db server client password) fuel
      let invalidPass ← Throwing.read fun s => s.1.2.invalidPass
      pure (if ended then some invalidPass else none))
    (pure (some false))

/-- What follows the `try` block. -/
def finish : Throwing (Link × Locals) Exception Unit := do
  if (← Throwing.read fun s => s.2.foundUser) = false then
    Throwing.outside (Transaction.committing db.toEngine [insertText name password])
    emit [.setName name]
  emit (server.accept client.socket)

/-- `case 12`, behind the parsing of the message. -/
def caseTwelve (fuel : Nat) : Throwing (Link × Locals) Exception Bool := do
  match ← selectUser db server client name password fuel with
  | none => pure false
  | some true => pure true
  | some false =>
    finish db server client name password
    pure true

/-! ## The row loop -/

end Login

/-- The locals behind a loop over rows. -/
def Locals.behind (locals : Locals) (loop : List Effect × Bool × LoopEnd) : Locals where
  foundUser := loop.2.1
  invalidPass := loop.2.2 = .refused
  effects := locals.effects ++ loop.1

namespace Login

/-- How a loop over rows ends for its caller. -/
def Returns : LoopEnd → Except Exception Bool → Prop
  | .thrown, r => ∃ e, r = .error e
  | .done, r | .refused, r => r = .ok true

variable {V : Type} (db : Sqlite V) (server : Server) (client : Client) (name password : Bytes)

section

variable {stmt : Statement V 3} {row : List V} {rows : List (List V)} {error : Option ErrorCode}

theorem getColumn_row (hrow : stmt.mbHasRow = true)
    (hcurrent : stmt.mpPreparedStatement.current = some row) {aIndex : Int} (hpositive : 0 ≤ aIndex)
    (hless : aIndex < 3) (s : Link × Locals) :
    (Throwing.inside (Statement.getColumn aIndex) :
      Throwing ((Link × Locals) × Statement V 3) Exception (Option V)).run (s, stmt) =
        (.ok row[aIndex.toNat]?, (s, stmt)) := by
  have hindex : aIndex < ((3 : Nat) : Int) := hless
  rcases Statement.getColumn_run aIndex stmt with ⟨hbad, -⟩ | ⟨-, hrun⟩
  · exact absurd ⟨hrow, hpositive, hindex⟩ hbad
  · simp only [Throwing.inside, hrun, hcurrent, Option.bind_some]

theorem columnText_run (hrow : stmt.mbHasRow = true)
    (hcurrent : stmt.mpPreparedStatement.current = some row) {aIndex : Int} (hpositive : 0 ≤ aIndex)
    (hless : aIndex < 3) (s : Link × Locals) :
    (columnText db aIndex).run (s, stmt) =
      (.ok (row[aIndex.toNat]?.elim [] db.text), (s, stmt)) := by
  rw [columnText, Throwing.bind_run_ok (getColumn_row hrow hcurrent hpositive hless s)]
  rfl

theorem columnInt_run (hrow : stmt.mbHasRow = true)
    (hcurrent : stmt.mpPreparedStatement.current = some row) {aIndex : Int} (hpositive : 0 ≤ aIndex)
    (hless : aIndex < 3) (s : Link × Locals) :
    (columnInt db aIndex).run (s, stmt) =
      (.ok (row[aIndex.toNat]?.elim 0 db.int), (s, stmt)) := by
  rw [columnInt, Throwing.bind_run_ok (getColumn_row hrow hcurrent hpositive hless s)]
  rfl

/-- The body, up to the checks. -/
theorem rowBody_run (hrow : stmt.mbHasRow = true)
    (hcurrent : stmt.mpPreparedStatement.current = some row) (link : Link) (locals : Locals) :
    (rowBody db server client password).run ((link, locals), stmt) =
      (if (db.row row).banned = 1 then refuseRow [.disconnect client.socket, .setConnected false]
        else if (db.row row).password ≠ password then
          refuseRow [.send client.socket server.wrongPassword]
        else pure true).run
        ((link, ⟨true, locals.invalidPass, locals.effects ++ [.setName (db.row row).userName]⟩),
          stmt) := by
  let found : Link × Locals := (link, { locals with foundUser := true })
  let named : Link × Locals :=
    (link, ⟨true, locals.invalidPass, locals.effects ++ [.setName (db.row row).userName]⟩)
  have hfound : (Throwing.modify fun s => ((s.1.1, { s.1.2 with foundUser := true }), s.2) :
      Throwing ((Link × Locals) × Statement V 3) Exception Unit).run ((link, locals), stmt) =
        (.ok (), (found, stmt)) := rfl
  have hname : (Throwing.outside (emit [.setName (db.row row).userName]) :
      Throwing ((Link × Locals) × Statement V 3) Exception Unit).run (found, stmt) =
        (.ok (), (named, stmt)) := rfl
  have huserName : (columnText db 0).run (found, stmt) =
      (.ok (db.row row).userName, (found, stmt)) :=
    columnText_run db hrow hcurrent (by decide) (by decide) found
  have hpass : (columnText db 1).run (named, stmt) = (.ok (db.row row).password, (named, stmt)) :=
    columnText_run db hrow hcurrent (by decide) (by decide) named
  have hbanned : (columnInt db 2).run (named, stmt) = (.ok (db.row row).banned, (named, stmt)) :=
    columnInt_run db hrow hcurrent (by decide) (by decide) named
  rw [rowBody, Throwing.bind_run_ok hfound, Throwing.bind_run_ok huserName,
    Throwing.bind_run_ok hname, Throwing.bind_run_ok hpass, Throwing.bind_run_ok hbanned]

theorem refuseRow_run (effects : List Effect) (link : Link) (locals : Locals) :
    (refuseRow effects).run ((link, locals), stmt) =
      (.ok false, ((link, ⟨locals.foundUser, true, locals.effects ++ effects⟩), stmt)) := rfl

theorem pure_run (b : Bool) (s : (Link × Locals) × Statement V 3) :
    (pure b : Throwing ((Link × Locals) × Statement V 3) Exception Bool).run s = (.ok b, s) := rfl

/-- The loop makes the writes of `rowLoop` for the rows that are still to come. -/
theorem loop_rows (h : stmt.Ahead rows error) {fuel : Nat} (hfuel : rows.length < fuel)
    (link : Link) (locals : Locals) (hpass : locals.invalidPass = false) :
    ∃ r stmt', (Throwing.loop (Throwing.inside Statement.executeStep)
        (rowBody db server client password) fuel).run ((link, locals), stmt) =
      (r, ((link, locals.behind (server.rowLoop client.socket password error.isSome
        locals.foundUser (rows.map db.row))), stmt')) ∧
      Returns (server.rowLoop client.socket password error.isSome locals.foundUser
        (rows.map db.row)).2.2 r := by
  induction rows generalizing stmt locals fuel with
  | nil =>
    obtain ⟨fuel, rfl⟩ : ∃ k, fuel = k + 1 := ⟨fuel - 1, by omega⟩
    rw [Throwing.loop]
    cases error with
    | none =>
      obtain ⟨stmt', hstep⟩ := Statement.executeStep_end h
      have hinside : (Throwing.inside Statement.executeStep).run ((link, locals), stmt) =
          (.ok false, ((link, locals), stmt')) := by simp only [Throwing.inside, hstep]
      rw [Throwing.bind_run_ok hinside, if_neg Bool.false_ne_true, pure_run]
      refine ⟨.ok true, stmt', ?_, rfl⟩
      obtain ⟨foundUser, invalidPass, effects⟩ := locals
      obtain rfl : invalidPass = false := hpass
      simp [Locals.behind, Server.rowLoop]
    | some code =>
      obtain ⟨e, stmt', hstep⟩ := Statement.executeStep_error h
      have hinside : (Throwing.inside Statement.executeStep).run ((link, locals), stmt) =
          (.error e, ((link, locals), stmt')) := by simp only [Throwing.inside, hstep]
      rw [Throwing.bind_run_error hinside]
      refine ⟨.error e, stmt', ?_, e, rfl⟩
      obtain ⟨foundUser, invalidPass, effects⟩ := locals
      obtain rfl : invalidPass = false := hpass
      simp [Locals.behind, Server.rowLoop]
  | cons row rows ih =>
    obtain ⟨fuel, rfl⟩ : ∃ k, fuel = k + 1 := ⟨fuel - 1, by omega⟩
    obtain ⟨stmt', hstep, hrow, hcurrent, hahead⟩ := Statement.executeStep_row h
    have hinside : (Throwing.inside Statement.executeStep).run ((link, locals), stmt) =
        (.ok true, ((link, locals), stmt')) := by simp only [Throwing.inside, hstep]
    have hbody := rowBody_run db server client password hrow hcurrent link locals
    rw [Throwing.loop, Throwing.bind_run_ok hinside, if_pos rfl, List.map_cons, Server.rowLoop]
    by_cases hbanned : (db.row row).banned = 1
    · rw [if_pos hbanned] at hbody
      rw [if_pos hbanned, Throwing.bind_run_ok (hbody.trans (refuseRow_run _ link _)),
        if_neg Bool.false_ne_true, pure_run]
      exact ⟨.ok true, stmt', by simp [Locals.behind], rfl⟩
    · by_cases hwrong : (db.row row).password ≠ password
      · rw [if_neg hbanned, if_pos hwrong] at hbody
        rw [if_neg hbanned, if_pos hwrong,
          Throwing.bind_run_ok (hbody.trans (refuseRow_run _ link _)),
          if_neg Bool.false_ne_true, pure_run]
        exact ⟨.ok true, stmt', by simp [Locals.behind], rfl⟩
      · rw [if_neg hbanned, if_neg hwrong] at hbody
        rw [if_neg hbanned, if_neg hwrong, Throwing.bind_run_ok (hbody.trans (pure_run true _)),
          if_pos rfl]
        obtain ⟨r, last, hloop, hends⟩ := ih hahead (by simpa using hfuel) ⟨true,
          locals.invalidPass, locals.effects ++ [.setName (db.row row).userName]⟩ hpass
        refine ⟨r, last, hloop.trans ?_, hends⟩
        simp [Locals.behind]

end

/-! ## The whole case -/

/-- The loop of `Server.login`. -/
def tried (dbs : Database) (users : List Row) : List Effect × Bool × LoopEnd :=
  match dbs.select (selectText name) users with
  | .throws => ([], false, .thrown)
  | .steps rows thrown => server.rowLoop client.socket password thrown false rows

/-- Nothing found, refused or written. -/
def fresh : Locals := ⟨false, false, []⟩

variable {db server client name password} {link : Link}

theorem tried_of_none {n : Nat} {users : List Row}
    (h : db.prepare n (selectText name) users = none) :
    tried server client name password (db.database n) users = ([], false, .thrown) := by
  simp only [tried, Sqlite.database, h]

theorem tried_of_some {n : Nat} {users : List Row} {results : Nat → Result V 3}
    (h : db.prepare n (selectText name) users = some results) :
    tried server client name password (db.database n) users =
      server.rowLoop client.socket password (results 1).error.isSome false
        ((results 1).rows.map db.row) := by
  simp only [tried, Sqlite.database, h]

variable (server client password) in
/-- The `try` block is the loop, whether the statement can be prepared or not. -/
theorem selectUser_run {users : List Row} {calls : List Bytes} {fuel : Nat} (hfuel : ∀ results,
      db.prepare calls.length (selectText name) users = some results →
        (results 1).rows.length < fuel) :
    (selectUser db server client name password fuel).run (⟨⟨users, none⟩, calls⟩, fresh) =
      (.ok (some (decide ((tried server client name password (db.database calls.length) users).2.2 =
          .refused))),
        (⟨⟨users, none⟩, calls ++ [selectText name]⟩,
          fresh.behind (tried server client name password (db.database calls.length) users))) := by
  have hcontent : Connection.content ⟨users, none⟩ = users := rfl
  cases hprepare : db.prepare calls.length (selectText name) users with
  | none =>
    have hconstruct : (prepareStatement db name).run (⟨⟨users, none⟩, calls⟩, fresh) =
        (.error .sqlite, ⟨⟨users, none⟩, calls ++ [selectText name]⟩, fresh) := by
      simp only [prepareStatement, hcontent, hprepare]
    simp only [selectUser, Throwing.tryCatch, Throwing.scope, hconstruct, tried_of_none hprepare]
    rfl
  | some results =>
    have hconstruct : (prepareStatement db name).run (⟨⟨users, none⟩, calls⟩, fresh) =
        (.ok (Statement.construct results),
          ⟨⟨users, none⟩, calls ++ [selectText name]⟩, fresh) := by
      simp only [prepareStatement, hcontent, hprepare]
    obtain ⟨r, stmt, hloop, hreturns⟩ := loop_rows db server client password
      (Statement.construct_ahead results) (hfuel results hprepare)
      ⟨⟨users, none⟩, calls ++ [selectText name]⟩ fresh rfl
    have hfound : fresh.foundUser = false := rfl
    rw [hfound] at hloop hreturns
    rw [tried_of_some hprepare]
    generalize server.rowLoop client.socket password (results 1).error.isSome false
      ((results 1).rows.map db.row) = out at hloop hreturns
    by_cases hthrown : out.2.2 = .thrown
    · obtain ⟨e, rfl⟩ : ∃ e, r = .error e := by
        rw [hthrown] at hreturns
        exact hreturns
      have hnot : decide (out.2.2 = .refused) = false := by
        rw [hthrown]
        rfl
      simp only [selectUser, Throwing.tryCatch,
        Throwing.scope_run_ok hconstruct (Throwing.bind_run_error hloop), hnot]
      rfl
    · obtain rfl : r = .ok true := by
        generalize out.2.2 = ending at hthrown hreturns
        cases ending with
        | thrown => exact absurd rfl hthrown
        | done | refused => exact hreturns
      simp only [selectUser, Throwing.tryCatch,
        Throwing.scope_run_ok hconstruct (Throwing.bind_run_ok hloop |>.trans rfl)]
      rfl

variable (server client name password) in
theorem login_eq_tried (dbs : Database) (users : List Row) :
    server.login dbs users client name password =
      if (tried server client name password dbs users).2.2 = .refused then
        (tried server client name password dbs users).1
      else (tried server client name password dbs users).1 ++
        server.afterLoop dbs users client name password
          (tried server client name password dbs users).2.1 := by
  unfold Server.login tried
  cases dbs.select (selectText name) users with
  | throws => rfl
  | steps rows thrown =>
    dsimp only
    split
    · rename_i hrefused
      rw [hrefused, if_pos rfl]
    · rename_i hdone
      rw [hdone, if_neg (by decide)]
    · rename_i hthrown
      rw [hthrown, if_neg (by decide)]

theorem rowLoop_emitted (socket : Socket) (thrown foundUser : Bool) (rows : List Row) :
    ∀ effect ∈ (server.rowLoop socket password thrown foundUser rows).1, emitted effect = true := by
  induction rows generalizing foundUser with
  | nil => exact fun _ hnil => absurd hnil List.not_mem_nil
  | cons row rows ih =>
    rw [Server.rowLoop]
    split
    · rw [List.forall_mem_cons, List.forall_mem_cons, List.forall_mem_singleton]
      exact ⟨rfl, rfl, rfl⟩
    · split
      · rw [List.forall_mem_cons, List.forall_mem_singleton]
        exact ⟨rfl, rfl⟩
      · exact List.forall_mem_cons.mpr ⟨rfl, ih true⟩

variable (server client name password) in
theorem tried_emitted (dbs : Database) (users : List Row) :
    ∀ effect ∈ (tried server client name password dbs users).1, emitted effect = true := by
  unfold tried
  split
  · exact fun _ hnil => absurd hnil List.not_mem_nil
  · exact rowLoop_emitted client.socket _ false _

theorem tableAfter_append {effects : List Effect} (h : ∀ effect ∈ effects, emitted effect = true)
    (users : List Row) (effects' : List Effect) :
    tableAfter users (effects ++ effects') = tableAfter users effects' := by
  induction effects with
  | nil => rfl
  | cons effect effects ih =>
    obtain ⟨hfirst, hrest⟩ := List.forall_mem_cons.mp h
    refine Eq.trans ?_ (ih hrest)
    cases effect with
    | setUsers users' => cases hfirst
    | _ => rfl

/-- What comes of a computation that makes these writes. -/
structure Makes (db : Sqlite V) (effects : List Effect) (users : List Row) {A : Type}
    (r : Except Exception A) (a : A) (link : Link) : Prop where
  stored : link.connection.stored = tableAfter users effects
  returns : .throw ∉ effects → r = .ok a ∧ link.connection.transaction = none
  throws : .throw ∈ effects → (∃ e, r = .error e) ∧
    (link.connection.transaction = none ∨ Transaction.RollbackFailed db.toEngine link)

/-- Writes to no table come first, and a value is returned for the one computed. -/
theorem Makes.behind {before effects : List Effect} {users : List Row} {A B : Type}
    {r : Except Exception A} {a : A} {link : Link} (h : Makes db effects users r a link)
    (hbefore : ∀ effect ∈ before, emitted effect = true) (f : A → B) :
    Makes db (before ++ effects) users (r.map f) (f a) link where
  stored := h.stored.trans (tableAfter_append hbefore users effects).symm
  returns hnot := by
    obtain ⟨hr, hnone⟩ := h.returns fun hthrow => hnot (List.mem_append_right before hthrow)
    exact ⟨by rw [hr]; rfl, hnone⟩
  throws hthrow := by
    rcases List.mem_append.mp hthrow with hmem | hmem
    · exact absurd (hbefore _ hmem) (by decide)
    · obtain ⟨⟨e, hr⟩, hended⟩ := h.throws hmem
      exact ⟨⟨e, by rw [hr]; rfl⟩, hended⟩

variable (server client) in
theorem finish_run (users : List Row) {calls : List Bytes} {n : Nat}
    (hcalls : calls.length = n + 1) (locals : Locals) :
    ∃ r link', (finish db server client name password).run (⟨⟨users, none⟩, calls⟩, locals) =
        (r, (link', { locals with effects := locals.effects ++ (server.afterLoop (db.database n)
          users client name password locals.foundUser).filter emitted })) ∧
      Makes db (server.afterLoop (db.database n) users client name password locals.foundUser)
        users r () link' := by
  obtain ⟨foundUser, invalidPass, effects⟩ := locals
  have hread : (Throwing.read fun s => s.2.foundUser :
      Throwing (Link × Locals) Exception Bool).run
        (⟨⟨users, none⟩, calls⟩, ⟨foundUser, invalidPass, effects⟩) =
      (.ok foundUser, (⟨⟨users, none⟩, calls⟩, ⟨foundUser, invalidPass, effects⟩)) := rfl
  rw [finish, Throwing.bind_run_ok hread]
  cases foundUser with
  | true =>
    refine ⟨.ok (), ⟨⟨users, none⟩, calls⟩, rfl, rfl, fun _ => ⟨rfl, rfl⟩, ?_⟩
    simp [Server.afterLoop, Server.accept]
  | false =>
    rcases db.createUser_triple n name password users ⟨⟨users, none⟩, calls⟩ ⟨rfl, hcalls⟩ with
      ⟨_, link', hrun, hdone, hnone⟩ | ⟨e, link', hrun, ⟨hfailed, hstored⟩, hended⟩
    · have hscope : (Throwing.outside (Transaction.committing db.toEngine
          [insertText name password])).run (⟨⟨users, none⟩, calls⟩,
            Locals.mk false invalidPass effects) =
          (.ok (), (link', Locals.mk false invalidPass effects)) := by
        simp only [Throwing.outside, hrun]
      have hafter : server.afterLoop (db.database n) users client name password false =
          .setUsers link'.connection.stored :: .setName name :: server.accept client.socket := by
        simp only [Server.afterLoop, hdone, Bool.false_eq_true, if_false]
      rw [if_pos rfl, hafter]
      refine ⟨.ok (), link', ?_, rfl, fun _ => ⟨rfl, hnone⟩, ?_⟩
      · rw [Throwing.bind_run_ok hscope]
        show (Except.ok (), (link', Locals.mk false invalidPass ((effects ++ [.setName name]) ++
          server.accept client.socket))) = _
        rw [List.append_assoc]
        rfl
      · simp [Server.accept]
    · have hscope : (Throwing.outside (Transaction.committing db.toEngine
          [insertText name password])).run (⟨⟨users, none⟩, calls⟩,
            Locals.mk false invalidPass effects) =
          (.error e, (link', Locals.mk false invalidPass effects)) := by
        simp only [Throwing.outside, hrun]
      have hafter : server.afterLoop (db.database n) users client name password false =
          [.setUsers ((db.database n).left name password users), .throw] := by
        simp only [Server.afterLoop, hfailed, Bool.false_eq_true, if_false]
      rw [if_pos rfl, hafter, Throwing.bind_run_error hscope]
      refine ⟨.error e, link', ?_, hstored, fun hnot => absurd (by simp) hnot,
        fun _ => ⟨⟨e, rfl⟩, hended⟩⟩
      simp [emitted]

/-- `case 12`, made over the library, makes the writes of `login` in their order, for the
database that its calls amount to.  The file has the table that they leave behind.  The case
throws exactly where they do, and unless it throws autocommit mode is on again. -/
theorem caseTwelve_refines (db : Sqlite V) (server : Server) (client : Client)
    (name password : Bytes) (users : List Row) (calls : List Bytes) (fuel : Nat) (hfuel : ∀ results,
      db.prepare calls.length (selectText name) users = some results →
        (results 1).rows.length < fuel) :
    ∃ r link' locals,
      (caseTwelve db server client name password fuel).run (⟨⟨users, none⟩, calls⟩, fresh) =
        (r, (link', locals)) ∧
      locals.effects =
        (server.login (db.database calls.length) users client name password).filter emitted ∧
      Makes db (server.login (db.database calls.length) users client name password) users r true
        link' := by
  have hselect := selectUser_run server client password hfuel
  have hemitted := tried_emitted server client name password (db.database calls.length) users
  have hlogin := login_eq_tried server client name password (db.database calls.length) users
  generalize tried server client name password (db.database calls.length) users = out
    at hselect hemitted hlogin
  obtain ⟨effects, foundUser, ending⟩ := out
  have hnothrow : .throw ∉ effects := fun hthrow => absurd (hemitted _ hthrow) (by decide)
  have hfilter : effects.filter emitted = effects := List.filter_eq_self.mpr hemitted
  by_cases hrefused : ending = .refused
  · rw [if_pos hrefused] at hlogin
    rw [decide_eq_true hrefused] at hselect
    rw [hlogin, caseTwelve, Throwing.bind_run_ok hselect]
    refine ⟨.ok true, _, _, rfl, hfilter.symm, ?_, fun _ => ⟨rfl, rfl⟩,
      fun hthrow => absurd hthrow hnothrow⟩
    have hkept := tableAfter_append hemitted users []
    rw [List.append_nil] at hkept
    exact hkept.symm
  · have hcalls : (calls ++ [selectText name]).length = calls.length + 1 := List.length_append
    obtain ⟨r, link', hrun, hmakes⟩ := finish_run server client users hcalls
      ⟨foundUser, decide (ending = .refused), effects⟩
    rw [if_neg hrefused] at hlogin
    rw [decide_eq_false hrefused] at hselect
    rw [hlogin, caseTwelve, Throwing.bind_run_ok hselect]
    refine ⟨r.map fun _ => true, link', ⟨foundUser, decide (ending = .refused), effects ++
      (server.afterLoop (db.database calls.length) users client name password foundUser).filter
        emitted⟩, ?_, ?_, hmakes.behind hemitted fun _ => true⟩
    · cases r with
      | ok _ => exact Throwing.bind_run_ok hrun
      | error e => exact Throwing.bind_run_error hrun
    · rw [List.filter_append, hfilter]

end Login

/-- The columns of a row of `Users`. -/
def columns (row : Row) : List (Bytes ⊕ Int32) :=
  [.inl row.userName, .inl row.password, .inr row.banned]

theorem columns_width (rows : List Row) : ∀ values ∈ rows.map columns, values.length = 3 := by
  intro values hvalues
  obtain ⟨row, -, rfl⟩ := List.mem_map.mp hvalues
  rfl

/-- A library that answers each SELECT from the table and takes an INSERT as one row. -/
def serving (outcome : Nat → Outcome) : Sqlite (Bytes ⊕ Int32) where
  toEngine := inserting outcome
  prepare _ text users := some fun _ =>
    ⟨(users.filter fun row => text = selectText row.userName).map columns, none, columns_width _⟩
  text := Sum.elim id fun _ => []
  int := Sum.elim (fun _ => 0) id

theorem Login.caseTwelve_refines_newAccount :
    ∃ r link' locals,
      (caseTwelve (serving fun _ => .done) ⟨128, 128, []⟩ (Client.guest 5 []) [97] [120] 1).run
          (⟨⟨[], none⟩, []⟩, fresh) = (r, (link', locals)) ∧
      locals.effects = (Server.login ⟨128, 128, []⟩ ((serving fun _ => .done).database 0) []
        (Client.guest 5 []) [97] [120]).filter emitted ∧
      Makes (serving fun _ => .done) (Server.login ⟨128, 128, []⟩
        ((serving fun _ => .done).database 0) [] (Client.guest 5 []) [97] [120]) [] r true
        link' := by
  refine Login.caseTwelve_refines (serving fun _ => .done) ⟨128, 128, []⟩ (Client.guest 5 []) [97]
    [120] [] [] 1 ?_
  rintro _ ⟨⟩
  exact Nat.one_pos

end SQLite
end WhiteSmo
