import WhiteSmo.Server.Accounts

/-!
# The decision of a login

What the handling of one login leaves behind: the table, the client, the socket
and the replies.  A login ends in one of two ways, with `accept` or at the first row
that is banned or has another password, and everything else follows from which.
-/

namespace WhiteSmo

/-- What a write leaves in the log. -/
def Effect.event : Effect → Option Event
  | .send socket out => some (.sent socket out)
  | .disconnect socket => some (.closed socket)
  | _ => none

def Event.reply : Event → Option (Socket × Bytes)
  | .sent socket out => some (socket, out)
  | _ => none

theorem State.applyAll_log (s : State) (client : ClientId) (effects : List Effect) :
    (s.applyAll client effects).log = s.log ++ effects.filterMap Effect.event := by
  induction effects generalizing s with
  | nil => simp
  | cons effect effects ih =>
    rw [applyAll_cons, ih]
    cases effect <;> simp [apply, Effect.event, List.filterMap_cons]

namespace Handling

/-- What has happened on the sockets while the message was handled. -/
def events (h : Handling) : List Event := h.after.log.drop h.before.log.length

/-- What was sent, and on which socket. -/
def replies (h : Handling) : List (Socket × Bytes) := h.events.filterMap Event.reply

def socket (h : Handling) : Socket := (h.before.heap h.client).socket

/-- A login message of a client that is not logged in. -/
structure Login (h : Handling) (name password : Bytes) : Prop where
  command : h.input.command = 12
  loggedOut : (h.before.heap h.client).loggedIn = false
  vals : credentials h.input = some (name, password)

end Handling

/-- The first row of a result that is banned or has another password. -/
def firstRefusal (password : Bytes) (rows : List Row) : Option Row :=
  rows.find? fun row => ¬ row.Admits password

theorem firstRefusal_eq_none_iff {password : Bytes} {rows : List Row} :
    firstRefusal password rows = none ↔ ∀ row ∈ rows, row.Admits password := by
  simp [firstRefusal, List.find?_eq_none]

theorem firstRefusal_eq_some_iff {password : Bytes} {rows : List Row} {row : Row} :
    firstRefusal password rows = some row ↔ ¬ row.Admits password ∧
      ∃ before after, rows = before ++ row :: after ∧ ∀ r ∈ before, r.Admits password := by
  simp [firstRefusal, List.find?_eq_some_iff_append]

/-- The outcome of the login `(name, password)` whose SELECT has returned `rows`, where
a new account gets the number `rowid`. -/
structure Handling.Decided (server : Server) (h : Handling) (name password : Bytes)
    (rows : List Row) (rowid : Int) : Prop where
  users : h.after.users =
    if rows = [] then h.before.users ++ [⟨rowid, name, password, 0⟩] else h.before.users
  loggedIn : (h.after.heap h.client).loggedIn = true ↔ AllAdmit h.before.users name password
  banned : ∀ row, firstRefusal password rows = some row → row.banned = 1 →
    .closed h.socket ∈ h.events ∧ (h.after.heap h.client).connected = false ∧ h.replies = []
  wrong : ∀ row, firstRefusal password rows = some row → row.banned ≠ 1 →
    .closed h.socket ∉ h.events ∧
      (h.after.heap h.client).connected = (h.before.heap h.client).connected ∧
      h.replies = [(h.socket, server.wrongPassword)]
  correct : (h.after.heap h.client).loggedIn = true ↔
    h.replies = [(h.socket, server.correctPassword)]
  notBoth : ¬ ((h.socket, server.correctPassword) ∈ h.replies ∧
    (h.socket, server.wrongPassword) ∈ h.replies)
  name : (h.after.heap h.client).loggedIn = true → (h.after.heap h.client).name = name

namespace Server

section

variable {server : Server} {dbs : Nat → Database} {h : Handling} {name password : Bytes}

theorem Handles.events_eq (hh : server.Handles dbs h) :
    h.events = (server.handleInput h.db h.before.users (h.before.heap h.client)
      h.input).filterMap Effect.event ++ [.handled h.client h.input] := by
  rw [Handling.events, hh.after_eq, State.record_log, State.applyAll_log, List.append_assoc,
    List.drop_left]

theorem handleInput_of_login (hlogin : h.Login name password) :
    server.handleInput h.db h.before.users (h.before.heap h.client) h.input =
      server.login h.db h.before.users (h.before.heap h.client) name password := by
  rw [handleInput, if_pos ⟨hlogin.command, hlogin.loggedOut⟩, hlogin.vals]

/-- How a login is left behind that copies `names`, makes `effects` and is recorded. -/
theorem Handles.of_login_eq (hh : server.Handles dbs h) (hlogin : h.Login name password)
    (names : List Bytes) (effects : List Effect)
    (heq : server.login h.db h.before.users (h.before.heap h.client) name password =
      names.map Effect.setName ++ effects) :
    h.after = ((h.before.modify h.client fun c =>
        { c with name := names.getLastD c.name }).applyAll h.client effects).record
        (.handled h.client h.input) ∧
      h.events = effects.filterMap Effect.event ++ [.handled h.client h.input] := by
  have hnone : (names.map Effect.setName).filterMap Effect.event = [] := by
    simp [List.filterMap_map, Function.comp_def, Effect.event]
  constructor
  · rw [hh.after_eq, handleInput_of_login hlogin, heq, State.applyAll_append,
      State.applyAll_setName]
  · rw [hh.events_eq, handleInput_of_login hlogin, heq, List.filterMap_append, hnone,
      List.nil_append]

/-- A login that ends with `accept`. -/
theorem Handles.of_accept (hh : server.Handles dbs h) (hlogin : h.Login name password)
    (names : List Bytes) (effects : List Effect)
    (heffects : effects.filterMap Effect.event = [])
    (heq : server.login h.db h.before.users (h.before.heap h.client) name password =
      names.map Effect.setName ++ (effects ++ server.accept h.socket)) :
    (h.after.heap h.client).loggedIn = true ∧
      h.replies = [(h.socket, server.correctPassword)] := by
  obtain ⟨hafter, hevents⟩ := hh.of_login_eq hlogin names _ heq
  constructor
  · rw [hafter, State.applyAll_append]
    simp [accept, State.apply]
  · have hsent : (effects ++ server.accept h.socket).filterMap Effect.event =
        [.sent h.socket server.correctPassword] := by
      rw [List.filterMap_append, heffects]
      rfl
    rw [Handling.replies, hevents, hsent]
    rfl

/-- A login that stops at `row`. -/
theorem Handles.of_refuse (hh : server.Handles dbs h) (hlogin : h.Login name password)
    (names : List Bytes) (row : Row)
    (heq : server.login h.db h.before.users (h.before.heap h.client) name password =
      names.map Effect.setName ++ server.refuse h.socket row) :
    h.after.users = h.before.users ∧ (h.after.heap h.client).loggedIn = false ∧
      (h.after.heap h.client).connected =
        (if row.banned = 1 then false else (h.before.heap h.client).connected) ∧
      h.events = (if row.banned = 1 then Event.closed h.socket
        else .sent h.socket server.wrongPassword) :: [.handled h.client h.input] := by
  obtain ⟨hafter, hevents⟩ := hh.of_login_eq hlogin names _ heq
  have hout := hlogin.loggedOut
  by_cases hbanned : row.banned = 1
  · simp [hafter, hevents, refuse, hbanned, State.apply, hout, Effect.event]
  · simp [hafter, hevents, refuse, hbanned, State.apply, hout, Effect.event]

theorem wrongPassword_ne : server.wrongPassword ≠ server.correctPassword := by
  intro heq
  have hlen := congrArg List.length heq
  rw [wrongPassword_length, correctPassword_length] at hlen
  omega

section

variable {rows : List Row} {rowid : Int} (hh : server.Handles dbs h)
  (hlogin : h.Login name password)
  (hselect : h.db.select (selectText name) h.before.users = .steps rows false)
  (hrows : ∀ row, row ∈ rows ↔ row ∈ h.before.users ∧ row.userName = name)
include hrows

theorem allAdmit_iff :
    AllAdmit h.before.users name password ↔ ∀ row ∈ rows, row.Admits password := by
  constructor
  · intro hall row hrow
    obtain ⟨hmem, hname⟩ := (hrows row).mp hrow
    exact hall row hmem hname
  · intro hall row hmem hname
    exact hall row ((hrows row).mpr ⟨hmem, hname⟩)

theorem decided_of_accepted (hall : ∀ row ∈ rows, row.Admits password)
    (husers : h.after.users =
      if rows = [] then h.before.users ++ [⟨rowid, name, password, 0⟩] else h.before.users)
    (hin : (h.after.heap h.client).loggedIn = true)
    (hreplies : h.replies = [(h.socket, server.correctPassword)])
    (hname : (h.after.heap h.client).name = name) : h.Decided server name password rows rowid := by
  have hnone : firstRefusal password rows = none := firstRefusal_eq_none_iff.mpr hall
  refine ⟨husers, iff_of_true hin ((allAdmit_iff hrows).mpr hall), ?_, ?_,
    iff_of_true hin hreplies, ?_, fun _ => hname⟩
  · intro row hrow
    rw [hnone] at hrow
    cases hrow
  · intro row hrow
    rw [hnone] at hrow
    cases hrow
  · rintro ⟨-, hwrong⟩
    rw [hreplies, List.mem_singleton, Prod.mk.injEq] at hwrong
    exact wrongPassword_ne hwrong.2

include hh hlogin hselect

theorem decided_of_found (hall : ∀ row ∈ rows, row.Admits password) (hne : rows ≠ []) :
    h.Decided server name password rows rowid := by
  have hsome : (!rows.isEmpty) = true := by simpa using hne
  have heq : server.login h.db h.before.users (h.before.heap h.client) name password =
      (rows.map Row.userName).map Effect.setName ++ server.accept h.socket := by
    rw [login_of_admits hselect hall, hsome, List.map_map]
    rfl
  have hlast : (rows.map Row.userName).getLastD (h.before.heap h.client).name = name := by
    rw [List.getLastD_eq_getLast?, List.getLast?_map, List.getLast?_eq_some_getLast hne]
    exact ((hrows _).mp (List.getLast_mem hne)).2
  obtain ⟨hin, hreplies⟩ := hh.of_accept hlogin (rows.map Row.userName) [] rfl heq
  obtain ⟨hafter, -⟩ := hh.of_login_eq hlogin (rows.map Row.userName) _ heq
  refine decided_of_accepted hrows hall ?_ hin hreplies ?_
  · rw [hafter, if_neg hne]
    rfl
  · rw [hafter]
    simpa [accept, State.apply] using hlast

omit hrows in
theorem decided_of_created (hempty : rows = [])
    (hrows : ∀ row, row ∈ rows ↔ row ∈ h.before.users ∧ row.userName = name)
    (hcreate : h.db.createUser name password h.before.users =
      some (h.before.users ++ [⟨rowid, name, password, 0⟩])) :
    h.Decided server name password rows rowid := by
  subst hempty
  let created : List Effect :=
    [.setUsers (h.before.users ++ [⟨rowid, name, password, 0⟩]), .setName name]
  have hnil : ∀ row ∈ ([] : List Row), row.Admits password :=
    fun _ hmem => absurd hmem List.not_mem_nil
  have heq : server.login h.db h.before.users (h.before.heap h.client) name password =
      ([] : List Bytes).map Effect.setName ++ (created ++ server.accept h.socket) := by
    rw [login_of_admits hselect hnil]
    simp [afterLoop, hcreate, created, Handling.socket]
  obtain ⟨hin, hreplies⟩ := hh.of_accept hlogin [] created rfl heq
  obtain ⟨hafter, -⟩ := hh.of_login_eq hlogin [] _ heq
  refine decided_of_accepted hrows hnil ?_ hin hreplies ?_
  · rw [hafter, if_pos rfl]
    rfl
  · rw [hafter]
    simp [created, accept, State.apply]

theorem decided_of_refused {row : Row} (hrefusal : firstRefusal password rows = some row) :
    h.Decided server name password rows rowid := by
  obtain ⟨hrow, before, after, hsplit, hbefore⟩ := firstRefusal_eq_some_iff.mp hrefusal
  rw [hsplit] at hselect
  have heq : server.login h.db h.before.users (h.before.heap h.client) name password =
      ((before ++ [row]).map Row.userName).map Effect.setName ++
        server.refuse h.socket row := by
    rw [login_of_refused hselect hbefore hrow, List.map_map]
    rfl
  obtain ⟨husers, hout, hconnected, hevents⟩ := hh.of_refuse hlogin _ row heq
  have hnotAll : ¬ AllAdmit h.before.users name password := by
    rw [allAdmit_iff hrows, ← firstRefusal_eq_none_iff, hrefusal]
    exact Option.some_ne_none row
  have hne : rows ≠ [] := by simp [hsplit]
  have hreplies : h.replies =
      if row.banned = 1 then [] else [(h.socket, server.wrongPassword)] := by
    rw [Handling.replies, hevents]
    split <;> rfl
  have hcorrect : (h.socket, server.correctPassword) ∉ h.replies := by
    rw [hreplies]
    split
    · exact List.not_mem_nil
    · rw [List.mem_singleton, Prod.mk.injEq]
      exact fun hsame => wrongPassword_ne hsame.2.symm
  refine ⟨by rw [if_neg hne, husers], ?_, ?_, ?_, ?_, fun hboth => hcorrect hboth.1, ?_⟩
  · exact iff_of_false (by simp [hout]) hnotAll
  · intro row' hrow' hbanned
    cases hrefusal.symm.trans hrow'
    simp [hevents, hconnected, hreplies, hbanned]
  · intro row' hrow' hbanned
    cases hrefusal.symm.trans hrow'
    simp [hevents, hconnected, hreplies, hbanned]
  · refine iff_of_false (by simp [hout]) fun hsent => hcorrect ?_
    rw [hsent]
    exact List.mem_singleton_self _
  · intro hin
    rw [hout] at hin
    cases hin

end

/-- Every login that is handled in a sequence of passes, given that its SELECT returns
the rows of the name and that an account can be created. -/
theorem login_decides {s : State} {turns : List Turn}
    (hdone : h ∈ (server.serve dbs ⟨s, []⟩ turns).done) (hlogin : h.Login name password)
    {rows : List Row}
    (hselect : h.db.select (selectText name) h.before.users = .steps rows false)
    (hrows : rows.Perm (h.before.users.filter fun row => row.userName = name)) {rowid : Int}
    (hbegins : h.db.begins = true)
    (hexec : h.db.exec (insertText name password) h.before.users =
      some (h.before.users ++ [⟨rowid, name, password, 0⟩]))
    (hcommits : h.db.commits = true) : h.Decided server name password rows rowid := by
  have hh := handles_of_mem_serve hdone
  have hmem : ∀ row, row ∈ rows ↔ row ∈ h.before.users ∧ row.userName = name := by
    intro row
    rw [hrows.mem_iff, List.mem_filter, decide_eq_true_iff]
  cases hrefusal : firstRefusal password rows with
  | some row => exact decided_of_refused hh hlogin hselect hmem hrefusal
  | none =>
    have hall := firstRefusal_eq_none_iff.mp hrefusal
    by_cases hempty : rows = []
    · refine decided_of_created hh hlogin hselect hempty hmem ?_
      simp [Database.createUser, hbegins, hexec, hcommits]
    · exact decided_of_found hh hlogin hselect hmem hall hempty

end

theorem login_loginA {h : Handling} (hinput : h.input = loginA)
    (hout : (h.before.heap h.client).loggedIn = false) : h.Login [97] [120] := by
  refine ⟨?_, hout, ?_⟩
  · rw [hinput]
    exact loginMessage_command _
  · rw [hinput]
    exact loginMessage_credentials _ (by decide) (by decide)

/-- The login of `a` with another password than the account has. -/
theorem exists_handling_loginA :
    ∃ h ∈ (Server.serve ⟨128, 128, []⟩ (fun _ => sqlite fun _ _ => false)
        ⟨accountA, []⟩ [turnA]).done,
      h.client = 0 ∧ h.input = loginA ∧ h.db = (sqlite fun _ _ => false) ∧
        h.before.users = [⟨1, [97], [121], 0⟩] ∧ (h.before.heap h.client).loggedIn = false ∧
          (h.before.heap h.client).name = [] := by
  obtain ⟨h, hdone, hclient, hinput, hdb, husers, hheap, -⟩ := exists_handling_singleton
    ⟨128, 128, []⟩ (fun _ => sqlite fun _ _ => false) accountA 0
    (fun _ => Client.guest 5 [loginA]) loginA rfl rfl
  refine ⟨h, hdone, hclient, hinput, hdb, husers, ?_, ?_⟩
  · rw [hclient, hheap]
    rfl
  · rw [hclient, hheap]
    rfl

theorem login_decides_loginA :
    ∃ h ∈ (Server.serve ⟨128, 128, []⟩ (fun _ => sqlite fun _ _ => false)
        ⟨accountA, []⟩ [turnA]).done,
      h.Decided ⟨128, 128, []⟩ [97] [120] [⟨1, [97], [121], 0⟩] 2 := by
  obtain ⟨h, hdone, -, hinput, hdb, husers, hout, -⟩ := exists_handling_loginA
  have hselect : h.db.select (selectText [97]) h.before.users =
      .steps [⟨1, [97], [121], 0⟩] false := by
    rw [hdb, husers, sqlite_select (by decide) (by decide)]
    rfl
  have hexec : h.db.exec (insertText [97] [120]) h.before.users =
      some (h.before.users ++ [⟨2, [97], [120], 0⟩]) := by
    have hread : readInsert (insertText [97] [120]) = some ([97], [120], ascii "0") :=
      (readInsert_insertText_iff (by decide) (by decide)).mpr (by decide)
    rw [hdb, husers]
    simp [sqlite, hread, nextRowid]
  exact ⟨h, hdone, login_decides hdone (login_loginA hinput hout) hselect
    (by rw [husers]; decide) (by rw [hdb]; rfl) hexec (by rw [hdb]; rfl)⟩

end Server
end WhiteSmo
