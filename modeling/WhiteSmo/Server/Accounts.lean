import WhiteSmo.Server.Authentication
import WhiteSmo.Server.Statements

/-!
# Account names

`Users` has no uniqueness constraint, so that a name is there once only if the
SELECT finds the row that an earlier INSERT wrote.  The two statements do not
read a quoted token in the same way: in the INSERT it is a literal, in the WHERE
clause of the SELECT it is the column of that name if there is one.

The database here answers the statements that `Update` builds and has no errors.
-/

namespace WhiteSmo

inductive Column
  | userName
  | password
  | banned
  | rowid
  deriving DecidableEq

/-- Names of columns are compared without regard to case. -/
def foldCase (text : Bytes) : Bytes :=
  text.map fun b => if 65 ≤ b ∧ b ≤ 90 then b + 32 else b

/-- The column of `Users` that a double-quoted token in a WHERE clause denotes. -/
def Column.ofToken (text : Bytes) : Option Column :=
  let text := foldCase text
  if text = ascii "username" then some .userName
  else if text = ascii "password" then some .password
  else if text = ascii "banned" then some .banned
  else if text ∈ [ascii "rowid", ascii "oid", ascii "_rowid_"] then some .rowid
  else none

section

-- whether the name of a row is equal to the integer in one of its columns
variable (numEq : Row → Column → Bool)

/-- `UserName = column` -/
def Column.equals (row : Row) : Column → Bool
  | .userName => true
  | .password => row.userName = row.password
  | .banned => numEq row .banned
  | .rowid => numEq row .rowid

/-- `UserName ="name"` -/
def Row.matchesName (name : Bytes) (row : Row) : Bool :=
  match Column.ofToken name with
  | some column => column.equals numEq row
  | none => row.userName = name

/-- One more than the largest rowid. -/
def nextRowid (users : List Row) : Int :=
  match (users.map Row.rowid).max? with
  | none => 1
  | some rowid => rowid + 1

/-- The database without errors, for the statements that read back. -/
def sqlite : Database where
  select text users :=
    match readSelect text with
    | some name => .steps (users.filter (Row.matchesName numEq name)) false
    | none => .throws
  begins := true
  exec text users :=
    (readInsert text).map fun vals => users ++ [⟨nextRowid users, vals.1, vals.2.1, 0⟩]
  commits := true
  kept _ users := users

end

def UniqueNames (users : List Row) : Prop := (users.map Row.userName).Nodup

/-- If the message parses as a login, its values contain no double quote. -/
def Packet.Quoteless (input : Packet) : Prop :=
  ∀ name password, credentials input = some (name, password) → 34 ∉ name ∧ 34 ∉ password

def FindsNone (numEq : Row → Column → Bool) (users : List Row) (name : Bytes) : Prop :=
  ∀ row ∈ users, row.matchesName numEq name = false

/-- A login whose SELECT returns nothing, so that an account is created. -/
structure Handling.Creates (numEq : Row → Column → Bool) (h : Handling) (name password : Bytes) :
    Prop where
  command : h.input.command = 12
  loggedOut : (h.before.heap h.client).loggedIn = false
  vals : credentials h.input = some (name, password)
  findsNone : FindsNone numEq h.before.users name

/-- The SELECT of this login takes the name for a column and returns nothing although
the table has a row of the name. -/
def Handling.Misread (numEq : Row → Column → Bool) (h : Handling) : Prop :=
  ∃ name password, h.Creates numEq name password ∧ Column.ofToken name ≠ none ∧
    ∃ row ∈ h.before.users, row.userName = name

namespace Server

variable {server : Server} {numEq : Row → Column → Bool}

theorem sqlite_select {name : Bytes} (hname : 0 ∉ name) (hquote : 34 ∉ name) (users : List Row) :
    (sqlite numEq).select (selectText name) users =
      .steps (users.filter (Row.matchesName numEq name)) false := by
  have hread := (readSelect_selectText_iff hname).mpr hquote
  simp only [sqlite, hread]

theorem sqlite_createUser {name password : Bytes} (hname : 0 ∉ name) (hpassword : 0 ∉ password)
    (hquote : 34 ∉ name ∧ 34 ∉ password) (users : List Row) :
    (sqlite numEq).createUser name password users =
      some (users ++ [⟨nextRowid users, name, password, 0⟩]) := by
  have hread := (readInsert_insertText_iff hname hpassword).mpr hquote
  simp [Database.createUser, sqlite, hread]

theorem not_finds_iff {name : Bytes} (hname : 0 ∉ name) (hquote : 34 ∉ name) (users : List Row) :
    ¬ (sqlite numEq).Finds users name ↔ FindsNone numEq users name := by
  rw [Database.Finds, sqlite_select hname hquote]
  simp [FindsNone]

/-! ## One message -/

theorem refuse_users (s : State) (client : ClientId) (row : Row) (socket : Socket) :
    (s.applyAll client (server.refuse socket row)).users = s.users := by
  unfold refuse
  split <;> rfl

theorem accept_users (s : State) (client : ClientId) (socket : Socket) :
    (s.applyAll client (server.accept socket)).users = s.users := rfl

section

variable (s : State) (client : ClientId) {name password : Bytes} (hname : 0 ∉ name)
  (hpassword : 0 ∉ password) (hquote : 34 ∉ name ∧ 34 ∉ password)
include hname hquote

theorem login_users_of_found (hsome : ¬ FindsNone numEq s.users name) :
    (s.applyAll client (server.login (sqlite numEq) s.users (s.heap client) name
      password)).users = s.users := by
  have hfinds : ¬ (sqlite numEq).Finds s.users name ↔ FindsNone numEq s.users name :=
    not_finds_iff hname hquote.1 s.users
  rcases login_cases server (sqlite numEq) s.users (s.heap client) name password with
    ⟨-, names, row, heq⟩ | ⟨-, names, foundUser, hfound, heq⟩
  · rw [heq, State.applyAll_append, State.applyAll_setName, refuse_users]
    rfl
  · have htrue : foundUser = true := hfound.mpr (not_not.mp fun hnot => hsome (hfinds.mp hnot))
    rw [heq, State.applyAll_append, State.applyAll_setName, htrue]
    rfl

include hpassword

theorem login_users_of_findsNone (hnone : FindsNone numEq s.users name) :
    (s.applyAll client (server.login (sqlite numEq) s.users (s.heap client) name
      password)).users = s.users ++ [⟨nextRowid s.users, name, password, 0⟩] := by
  have hfinds : ¬ (sqlite numEq).Finds s.users name ↔ FindsNone numEq s.users name :=
    not_finds_iff hname hquote.1 s.users
  rcases login_cases server (sqlite numEq) s.users (s.heap client) name password with
    ⟨hfails, -⟩ | ⟨-, names, foundUser, hfound, heq⟩
  · refine absurd ?_ hfails
    rw [Database.Passes, sqlite_select hname hquote.1]
    intro row hrow
    obtain ⟨hmem, hmatch⟩ := List.mem_filter.mp hrow
    rw [hnone row hmem] at hmatch
    cases hmatch
  · have hfalse : foundUser = false := by
      cases foundUser with
      | false => rfl
      | true => exact absurd (hfound.mp rfl) (hfinds.mpr hnone)
    rw [heq, State.applyAll_append, State.applyAll_setName, hfalse]
    simp [afterLoop, sqlite_createUser hname hpassword hquote, State.apply, accept_users]

end

section

variable {dbs : Nat → Database} {h : Handling} (hh : server.Handles (fun _ => sqlite numEq) h)
  (hquote : h.input.Quoteless)
include hh hquote

theorem Handles.users_of_creates {name password : Bytes} (hc : h.Creates numEq name password) :
    h.after.users = h.before.users ++ [⟨nextRowid h.before.users, name, password, 0⟩] := by
  obtain ⟨_, hdb⟩ := hh.db_eq
  obtain ⟨hname, hpassword⟩ := not_mem_credentials hc.vals
  rw [hh.after_eq, State.record_users, handleInput, hdb, if_pos ⟨hc.command, hc.loggedOut⟩, hc.vals]
  exact login_users_of_findsNone h.before h.client hname hpassword (hquote name password hc.vals)
    hc.findsNone

theorem Handles.users_of_not_creates (hnot : ∀ name password, ¬ h.Creates numEq name password) :
    h.after.users = h.before.users := by
  obtain ⟨_, hdb⟩ := hh.db_eq
  rw [hh.after_eq, State.record_users, handleInput, hdb]
  by_cases hlogin : h.input.command = 12 ∧ (h.before.heap h.client).loggedIn = false
  · rw [if_pos hlogin]
    cases hvals : credentials h.input with
    | none => rfl
    | some vals =>
      obtain ⟨name, password⟩ := vals
      exact login_users_of_found h.before h.client (not_mem_credentials hvals).1
        (hquote name password hvals) fun hnone =>
          hnot name password ⟨hlogin.1, hlogin.2, hvals, hnone⟩
  · rw [if_neg hlogin]
    rfl

end

theorem uniqueNames_append_iff {users : List Row} {row : Row} :
    UniqueNames (users ++ [row]) ↔
      UniqueNames users ∧ ∀ r ∈ users, r.userName ≠ row.userName := by
  rw [UniqueNames, List.map_append, List.nodup_append]
  constructor
  · intro h
    exact ⟨h.1, fun r hr => h.2.2 _ (List.mem_map_of_mem hr) _ (List.mem_singleton_self _)⟩
  · intro h
    refine ⟨h.1, List.pairwise_singleton _ _, fun a ha b hb => ?_⟩
    obtain ⟨r, hr, rfl⟩ := List.mem_map.mp ha
    rw [List.mem_singleton.mp hb]
    exact h.2 r hr

theorem findsNone_of_literal {users : List Row} {name : Bytes}
    (hcolumn : Column.ofToken name = none) (hnone : FindsNone numEq users name) :
    ∀ row ∈ users, row.userName ≠ name := by
  intro row hrow heq
  have hmatch := hnone row hrow
  simp [Row.matchesName, hcolumn, heq] at hmatch

theorem Handles.unique_iff {h : Handling} (hh : server.Handles (fun _ => sqlite numEq) h)
    (hquote : h.input.Quoteless) :
    UniqueNames h.after.users ↔ UniqueNames h.before.users ∧ ¬ h.Misread numEq := by
  by_cases hcreates : ∃ name password, h.Creates numEq name password
  · obtain ⟨name, password, hc⟩ := hcreates
    rw [hh.users_of_creates hquote hc, uniqueNames_append_iff]
    refine and_congr_right fun _ => ?_
    constructor
    · intro hfresh hmisread
      obtain ⟨name', password', hc', -, row, hrow, heq⟩ := hmisread
      have hvals : (name, password) = (name', password') :=
        Option.some.inj (hc.vals.symm.trans hc'.vals)
      exact hfresh row hrow (heq.trans (Prod.mk.inj hvals).1.symm)
    · intro hmisread row hrow heq
      by_cases hcolumn : Column.ofToken name = none
      · exact findsNone_of_literal hcolumn hc.findsNone row hrow heq
      · exact hmisread ⟨name, password, hc, hcolumn, row, hrow, heq⟩
  · have hnot : ∀ name password, ¬ h.Creates numEq name password :=
      fun name password hc => hcreates ⟨name, password, hc⟩
    rw [hh.users_of_not_creates hquote hnot]
    refine (and_iff_left fun hmisread => ?_).symm
    obtain ⟨name, password, hc, -⟩ := hmisread
    exact hnot name password hc

/-! ## Runs -/

/-- The table after a sequence of passes has each name once exactly when no login
was misread. -/
theorem unique_names_iff (server : Server) (numEq : Row → Column → Bool) (s : State)
    (turns : List Turn) (hunique : UniqueNames s.users)
    (hquote : ∀ turn ∈ turns, ∀ c ∈ turn.clients, ∀ input ∈ (turn.heap c).vInput,
      input.Quoteless) :
    UniqueNames (server.serve (fun _ => sqlite numEq) ⟨s, []⟩ turns).state.users ↔
      ∀ h ∈ (server.serve (fun _ => sqlite numEq) ⟨s, []⟩ turns).done, ¬ h.Misread numEq := by
  have hquoteless : ∀ h ∈ (server.serve (fun _ => sqlite numEq) ⟨s, []⟩ turns).done,
      h.input.Quoteless :=
    serve_queued (fun _ hnil => absurd hnil List.not_mem_nil) hquote
  refine serve_invariant (P := fun p => (∀ h ∈ p.done, h.input.Quoteless) →
    (UniqueNames p.state.users ↔ ∀ h ∈ p.done, ¬ h.Misread numEq)) (fun _ _ hp => hp) ?_ ⟨s, []⟩
    turns (fun _ => iff_of_true hunique fun _ hnil => absurd hnil List.not_mem_nil) hquoteless
  intro p client input halive hp hdone
  obtain ⟨h, hh, hbefore, heq⟩ :=
    handleNext_alive server (fun _ => sqlite numEq) client input halive
  rw [heq] at hdone ⊢
  rw [hh.unique_iff (hdone h (List.mem_append_right _ (List.mem_singleton_self h))), hbefore,
    hp fun h' hh' => hdone h' (List.mem_append_left _ hh'), List.forall_mem_append,
    List.forall_mem_singleton]

theorem loginA_quoteless : loginA.Quoteless := by
  intro name password hvals
  have hlogin : credentials loginA = some ([97], [120]) :=
    loginMessage_credentials _ (by decide) (by decide)
  cases hvals.symm.trans hlogin
  decide

theorem unique_names_iff_loginA :
    UniqueNames (Server.serve ⟨128, 128, []⟩ (fun _ => sqlite fun _ _ => false)
        ⟨accountA, []⟩ [turnA]).state.users ↔
      ∀ h ∈ (Server.serve ⟨128, 128, []⟩ (fun _ => sqlite fun _ _ => false)
        ⟨accountA, []⟩ [turnA]).done, ¬ h.Misread fun _ _ => false := by
  refine unique_names_iff ⟨128, 128, []⟩ (fun _ _ => false) accountA [turnA]
    (List.pairwise_singleton _ _) fun turn hturn c _ input hinput => ?_
  rw [List.mem_singleton.mp hturn] at hinput
  rw [List.mem_singleton.mp hinput]
  exact loginA_quoteless

def loginColumn : Packet := loginMessage (ascii "Password") (ascii "x") (by decide +kernel)

/-- The account that this login has created. -/
def accountColumn : State := { accountA with users := [⟨1, ascii "Password", ascii "x", 0⟩] }

/-- The second login of an account named after a column creates it again. -/
theorem column_name_created_twice :
    UniqueNames accountColumn.users ∧
      credentials loginColumn = some (ascii "Password", ascii "x") ∧
      ¬ UniqueNames (Server.serve ⟨128, 128, []⟩ (fun _ => sqlite fun _ _ => false)
        ⟨accountColumn, []⟩ [⟨[0], fun _ => Client.guest 5 [loginColumn]⟩]).state.users := by
  have hvals : credentials loginColumn = some (ascii "Password", ascii "x") :=
    loginMessage_credentials _ (by decide +kernel) (by decide +kernel)
  refine ⟨List.pairwise_singleton _ _, hvals, ?_⟩
  obtain ⟨h, hdone, hclient, hinput, -, husers, hheap, hfinal⟩ := exists_handling_singleton
    ⟨128, 128, []⟩ (fun _ => sqlite fun _ _ => false) accountColumn 0
    (fun _ => Client.guest 5 [loginColumn]) loginColumn rfl rfl
  have hcreates : h.Creates (fun _ _ => false) (ascii "Password") (ascii "x") := by
    refine ⟨?_, ?_, ?_, ?_⟩
    · rw [hinput]
      exact loginMessage_command _
    · rw [hclient, hheap]
      rfl
    · rw [hinput]
      exact hvals
    · intro row hrow
      rw [husers] at hrow
      rw [List.mem_singleton.mp hrow]
      decide +kernel
  have hquote : h.input.Quoteless := by
    intro name password hvals'
    rw [hinput] at hvals'
    cases hvals'.symm.trans hvals
    decide +kernel
  rw [hfinal, (handles_of_mem_serve hdone).users_of_creates hquote hcreates,
    uniqueNames_append_iff, husers]
  intro hunique
  exact hunique.2 ⟨1, ascii "Password", ascii "x", 0⟩ (List.mem_singleton_self _) rfl

end Server
end WhiteSmo
