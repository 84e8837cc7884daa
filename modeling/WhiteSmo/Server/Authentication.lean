import WhiteSmo.Server.Update

/-!
# Authentication

When a login message sets `loggedIn`, and what the rows of its name say then.

`login_fails_closed_iff` is about every message handled in a sequence of passes:
the login is justified by the table exactly when the SELECT has not missed a row of
the name in the place where the empty `catch`, or a name that the database takes for a
column, turns that into an admission.
-/

namespace WhiteSmo

namespace Server

variable {server : Server} {db : Database} {s : State} {client : ClientId} {name password : Bytes}

/-- The login of `(name, password)` reaches the end of `case 12`. -/
def Enters (db : Database) (users : List Row) (name password : Bytes) : Prop :=
  db.Passes users name password ∧
    (db.Finds users name ∨ db.createUser name password users ≠ none)

theorem refuse_loggedIn (row : Row) (socket : Socket) :
    ((s.applyAll client (server.refuse socket row)).heap client).loggedIn =
      (s.heap client).loggedIn := by
  unfold refuse
  split <;> simp [State.apply]

theorem accept_loggedIn (socket : Socket) :
    ((s.applyAll client (server.accept socket)).heap client).loggedIn = true := by
  simp [accept, State.apply]

theorem login_loggedIn (hout : (s.heap client).loggedIn = false) :
    ((s.applyAll client (server.login db s.users (s.heap client) name password)).heap
      client).loggedIn = true ↔ Enters db s.users name password := by
  rcases login_cases server db s.users (s.heap client) name password with
    ⟨hfails, names, row, heq⟩ | ⟨hpasses, names, foundUser, hfound, heq⟩
  · rw [heq, State.applyAll_append, State.applyAll_setName, refuse_loggedIn]
    simp [Enters, hfails, hout]
  · rw [heq, State.applyAll_append, State.applyAll_setName, Enters, ← hfound]
    cases foundUser with
    | true => simp [afterLoop, accept_loggedIn, hpasses]
    | false =>
      cases hcreate : db.createUser name password s.users with
      | none => simp [afterLoop, hcreate, State.apply, hout]
      | some users => simp [afterLoop, hcreate, accept_loggedIn, hpasses]

end Server

/-! ## What the table says -/

/-- Every row of the table for `name` admits `password`. -/
def AllAdmit (users : List Row) (name password : Bytes) : Prop :=
  ∀ row ∈ users, row.userName = name → row.Admits password

/-- The property of one message: who becomes logged in by it was admitted by every
row that the table held for the name. -/
def Handling.Justified (h : Handling) : Prop :=
  (h.before.heap h.client).loggedIn = false → (h.after.heap h.client).loggedIn = true →
    ∀ name password, credentials h.input = some (name, password) →
      AllAdmit h.before.users name password

/-- A call of the SELECT throws before a row has refused. -/
def Database.SelectFails (db : Database) (users : List Row) (name password : Bytes) : Prop :=
  match db.select (selectText name) users with
  | .throws => True
  | .steps rows thrown => thrown = true ∧ ∀ row ∈ rows, row.Admits password

/-- The table has a row of the name that the SELECT does not return before it ends. -/
def Database.Misses (db : Database) (users : List Row) (name : Bytes) : Prop :=
  ∃ row ∈ users, row.userName = name ∧ row ∉ db.rows users name

/-- The condition under which a message is handled as it should: if it is a login whose
SELECT misses a row of the name and refuses at none that it returns, then the rows of the
name all admit the password, or none was returned and the account creation fails too. -/
def Handling.FailsClosed (h : Handling) : Prop :=
  h.input.command = 12 → (h.before.heap h.client).loggedIn = false →
    ∀ name password, credentials h.input = some (name, password) →
      h.db.Misses h.before.users name → h.db.Passes h.before.users name password →
        AllAdmit h.before.users name password ∨
          ¬ h.db.Finds h.before.users name ∧
            h.db.createUser name password h.before.users = none

/-- Each step of the SELECT of this message that succeeds returns a row of the table with
the name. -/
def Handling.Truthful (h : Handling) : Prop :=
  ∀ name password, credentials h.input = some (name, password) →
    ∀ row ∈ h.db.rows h.before.users name, row ∈ h.before.users ∧ row.userName = name

namespace Server

variable {server : Server} {dbs : Nat → Database} {h : Handling}

theorem Handles.loggedIn_iff (hh : server.Handles dbs h)
    (hout : (h.before.heap h.client).loggedIn = false) :
    (h.after.heap h.client).loggedIn = true ↔
      h.input.command = 12 ∧ ∃ name password, credentials h.input = some (name, password) ∧
        Enters h.db h.before.users name password := by
  rw [hh.after_eq, State.record_heap, handleInput]
  by_cases hcommand : h.input.command = 12
  · rw [if_pos ⟨hcommand, hout⟩]
    cases hvals : credentials h.input with
    | none => simp [State.apply, hout]
    | some vals =>
      obtain ⟨name, password⟩ := vals
      simp only [login_loggedIn hout, hcommand, true_and, Option.some.injEq, Prod.mk.injEq]
      constructor
      · intro henters
        exact ⟨name, password, ⟨rfl, rfl⟩, henters⟩
      · intro hex
        obtain ⟨_, _, ⟨rfl, rfl⟩, henters⟩ := hex
        exact henters
  · rw [if_neg fun hc => hcommand hc.1]
    simp [hout, hcommand]

/-- A login that the table does not justify enters only if its SELECT misses a row. -/
theorem enters_misses {db : Database} {users : List Row} {name password : Bytes}
    (henters : Enters db users name password) (hbad : ¬ AllAdmit users name password) :
    db.Misses users name := by
  by_contra hnone
  refine hbad fun row hrow hname => Database.passes_iff.mp henters.1 row ?_
  by_contra hmissed
  exact hnone ⟨row, hrow, hname, hmissed⟩

theorem selectFails_passes {db : Database} {users : List Row} {name password : Bytes}
    (hfails : db.SelectFails users name password) : db.Passes users name password := by
  unfold Database.SelectFails at hfails
  unfold Database.Passes
  cases hselect : db.select (selectText name) users with
  | throws => trivial
  | steps rows thrown =>
    rw [hselect] at hfails
    exact hfails.2

/-- One message is justified exactly when it fails closed. -/
theorem Handles.justified_iff (hh : server.Handles dbs h) : h.Justified ↔ h.FailsClosed := by
  constructor
  · intro hjust hcommand hout name password hvals _ hpasses
    by_cases hall : AllAdmit h.before.users name password
    · exact Or.inl hall
    · have hnot : ¬ (h.db.Finds h.before.users name ∨
          h.db.createUser name password h.before.users ≠ none) := by
        intro hor
        have henters : Enters h.db h.before.users name password := ⟨hpasses, hor⟩
        exact hall (hjust hout
          ((hh.loggedIn_iff hout).mpr ⟨hcommand, name, password, hvals, henters⟩)
          name password hvals)
      exact Or.inr ⟨fun hfinds => hnot (Or.inl hfinds),
        not_not.mp fun hcreate => hnot (Or.inr hcreate)⟩
  · intro hclosed hout hin name password hvals
    obtain ⟨hcommand, name', password', hvals', henters⟩ := (hh.loggedIn_iff hout).mp hin
    rw [hvals, Option.some.injEq, Prod.mk.injEq] at hvals'
    obtain ⟨rfl, rfl⟩ := hvals'
    by_contra hbad
    rcases hclosed hcommand hout name password hvals (enters_misses henters hbad) henters.1 with
      hall | ⟨hnot, hnone⟩
    · exact hbad hall
    · exact henters.2.elim hnot fun hcreate => hcreate hnone

/-- Over every sequence of passes and whatever the database does, a message is justified
exactly when it fails closed. -/
theorem login_fails_closed_iff (server : Server) (dbs : Nat → Database) (s : State)
    (turns : List Turn) :
    ∀ h ∈ (server.serve dbs ⟨s, []⟩ turns).done, h.Justified ↔ h.FailsClosed :=
  fun _ hdone => (handles_of_mem_serve hdone).justified_iff

/-- A database that answers each SELECT from the table and takes each INSERT as
one row of the name `a` with the password `x`. -/
def answering : Database where
  select text users := .steps (users.filter fun row => text = selectText row.userName) false
  begins := true
  exec _ users := some (users ++ [⟨users.length + 1, [97], [120], 0⟩])
  commits := true
  kept _ users := users

/-- The same database, but the SELECT cannot be prepared. -/
def busy : Database := { answering with select := fun _ _ => .throws }

def loginA : Packet := loginMessage [97] [120] (by decide)

/-- The account `a` exists with another password. -/
def accountA : State where
  heap _ := Client.guest 5 []
  users := [⟨1, [97], [121], 0⟩]
  log := []
  fate := .alive

def turnA : Turn := ⟨[0], fun _ => Client.guest 5 [loginA]⟩

theorem login_fails_closed_iff_loginA :
    ∃ h ∈ (Server.serve ⟨128, 128, []⟩ (fun _ => answering) ⟨accountA, []⟩ [turnA]).done,
      h.input = loginA ∧ (h.Justified ↔ h.FailsClosed) := by
  obtain ⟨h, hdone, -, hinput, -⟩ := exists_handling_singleton ⟨128, 128, []⟩
    (fun _ => answering) accountA 0 (fun _ => Client.guest 5 [loginA]) loginA rfl rfl
  exact ⟨h, hdone, hinput, login_fails_closed_iff ⟨128, 128, []⟩ (fun _ => answering) accountA
    [turnA] h hdone⟩

/-- The failure of the SELECT admits `a` with the wrong password. -/
theorem busy_admits_wrong_password :
    ∃ h ∈ (Server.serve ⟨128, 128, []⟩ (fun _ => busy) ⟨accountA, []⟩ [turnA]).done,
      h.Truthful ∧ ¬ h.Justified := by
  obtain ⟨h, hdone, hclient, hinput, hdb, husers, hheap, -⟩ := exists_handling_singleton
    ⟨128, 128, []⟩ (fun _ => busy) accountA 0 (fun _ => Client.guest 5 [loginA]) loginA rfl rfl
  have hnone : ∀ name, h.db.rows h.before.users name = [] := by
    intro name
    rw [hdb]
    rfl
  have hout : (h.before.heap h.client).loggedIn = false := by
    rw [hclient, hheap]
    rfl
  have hvals : credentials h.input = some ([97], [120]) := by
    rw [hinput]
    exact loginMessage_credentials _ (by decide) (by decide)
  have hmem : ⟨1, [97], [121], 0⟩ ∈ h.before.users := by
    rw [husers]
    exact List.mem_singleton_self _
  refine ⟨h, hdone, fun name _ _ row hrow => ?_, ?_⟩
  · rw [hnone] at hrow
    exact absurd hrow List.not_mem_nil
  · rw [(handles_of_mem_serve hdone).justified_iff]
    intro hclosed
    have hcommand : h.input.command = 12 := hinput ▸ loginMessage_command _
    have hmisses : h.db.Misses h.before.users [97] := by
      refine ⟨_, hmem, rfl, ?_⟩
      rw [hnone]
      exact List.not_mem_nil
    have hpasses : h.db.Passes h.before.users [97] [120] := by
      rw [Database.passes_iff, hnone]
      exact fun _ hnil => absurd hnil List.not_mem_nil
    rcases hclosed hcommand hout [97] [120] hvals hmisses hpasses with hall | ⟨-, hcreate⟩
    · exact absurd (hall _ hmem rfl).2 (by decide)
    · rw [hdb] at hcreate
      cases hcreate

end Server
end WhiteSmo
