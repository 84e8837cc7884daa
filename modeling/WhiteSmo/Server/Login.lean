import Mathlib.Data.List.TakeWhile
import WhiteSmo.Server.Reply

/-!
# The login message

`case 12` of the switch in `Server::Update`.  The handling of a message is the list
of writes it makes, given what the calls to the database do.  A `Database` says
this for the calls of one message, so that any call can fail on any message.
-/

namespace WhiteSmo

/-- What a `SQLite::Statement` does: its constructor throws, or successful
`executeStep` calls return `rows` one after another and the call behind the last
one returns false or throws. -/
inductive Select
  | throws
  | steps (rows : List Row) (thrown : Bool)

/-- The database while one message is handled: the SELECT, and the three statements of the
transaction.  `exec` is `none` when the text does not run, or leaves no transaction to commit. -/
structure Database where
  select : Bytes → List Row → Select
  begins : Bool
  exec : Bytes → List Row → Option (List Row)
  commits : Bool
  /-- The table when the transaction around a text is not committed.  It is the one from
  before, unless the text has a `COMMIT` of its own. -/
  kept : Bytes → List Row → List Row

/-- What a callee sees of a string passed as `.c_str()`. -/
def cStr (s : Bytes) : Bytes := s.takeWhile (· ≠ 0)

theorem cStr_of_not_mem {s : Bytes} (h : 0 ∉ s) : cStr s = s := by
  rw [cStr, List.takeWhile_eq_self_iff]
  intro b hb
  have hne : b ≠ 0 := fun heq => h (heq ▸ hb)
  exact decide_eq_true hne

def selectText (name : Bytes) : Bytes :=
  cStr (ascii "SELECT * FROM Users WHERE UserName =" ++ ascii "\"" ++ name ++ ascii "\"")

def insertText (name password : Bytes) : Bytes :=
  cStr (ascii "INSERT INTO Users VALUES (\"" ++ name ++ ascii "\", \"" ++ password ++
    ascii "\", 0)")

/-- The transaction around the INSERT: the table that it commits, `none` when a call of it
throws. -/
def Database.createUser (db : Database) (name password : Bytes) (users : List Row) :
    Option (List Row) :=
  if db.begins then
    (db.exec (insertText name password) users).bind fun users =>
      if db.commits then some users else none
  else none

/-- The table behind an exception.  The destructor of `SQLite::Transaction` rolls back what
has not been committed. -/
def Database.left (db : Database) (name password : Bytes) (users : List Row) : List Row :=
  if db.begins then db.kept (insertText name password) users else users

/-! ## Parsing -/

/-- The value list: the message from byte 8 on, split at NUL, without the empty
values from index 2 on.  `vals.begin() + 2` needs two values. -/
def loginValues (input : Packet) : Option (List Bytes) :=
  let vals := Delimited.getlines 0 (input.bytes.drop 8)
  if vals.length < 2 then none else some (vals.take 2 ++ (vals.drop 2).filter (· ≠ []))

/-- `vals[0]` and `vals[1]` -/
def credentials (input : Packet) : Option (Bytes × Bytes) :=
  match loginValues input with
  | some (name :: password :: _) => some (name, password)
  | _ => none

theorem loginValues_ofChunk {chunk : Chunk} {lead name password : Bytes}
    (hlead : lead.length = 8) (hname : 0 ∉ name) (hpassword : 0 ∉ password)
    (h : chunk.bytes = lead ++ (name ++ 0 :: (password ++ [0]))) :
    loginValues (Packet.ofChunk chunk) = some [name, password] := by
  have hdrop : (Packet.ofChunk chunk).bytes.drop 8 =
      name ++ 0 :: (password ++
        0 :: List.replicate (1016 - (name ++ 0 :: (password ++ [0])).length) 0) := by
    show (Delimited.fill 1024 0 chunk.bytes).drop 8 = _
    rw [Delimited.fill_drop, h, List.drop_left' hlead, Delimited.fill]
    simp [List.append_assoc]
  have hlines : Delimited.getlines 0 ((Packet.ofChunk chunk).bytes.drop 8) =
      name :: password :: List.replicate (1016 - (name ++ 0 :: (password ++ [0])).length) [] := by
    rw [hdrop, Delimited.getlines_piece hname, Delimited.getlines_piece hpassword,
      Delimited.getlines_replicate]
  simp [loginValues, hlines]

theorem credentials_eq_some_iff {input : Packet} {name password : Bytes} :
    credentials input = some (name, password) ↔
      ∃ rest, Delimited.getlines 0 (input.bytes.drop 8) = name :: password :: rest := by
  unfold credentials loginValues
  cases Delimited.getlines 0 (input.bytes.drop 8) with
  | nil => simp
  | cons first rest =>
    cases rest with
    | nil => simp
    | cons second rest =>
      have htwo : ¬ rest.length + 1 + 1 < 2 := by omega
      simp [htwo]

theorem not_mem_credentials {input : Packet} {name password : Bytes}
    (h : credentials input = some (name, password)) : 0 ∉ name ∧ 0 ∉ password := by
  obtain ⟨rest, hlines⟩ := credentials_eq_some_iff.mp h
  have hname : name ∈ Delimited.getlines 0 (input.bytes.drop 8) := by
    rw [hlines]
    exact List.mem_cons_self
  have hpassword : password ∈ Delimited.getlines 0 (input.bytes.drop 8) := by
    rw [hlines]
    exact List.mem_cons_of_mem name List.mem_cons_self
  exact ⟨Delimited.not_mem_of_mem_getlines hname, Delimited.not_mem_of_mem_getlines hpassword⟩

/-- What a client sends to log in. -/
def loginBytes (name password : Bytes) : Bytes :=
  Framing.lengthBytes 4 (name.length + password.length + 6) ++ [12, 0, 0, 0] ++
    (name ++ 0 :: (password ++ [0]))

theorem loginBytes_length (name password : Bytes) :
    (loginBytes name password).length = name.length + password.length + 10 := by
  simp only [loginBytes, List.length_append, Framing.lengthBytes_length, List.length_cons,
    List.length_nil]
  omega

/-- The login as it arrives with one `Receive`. -/
def loginMessage (name password : Bytes) (hfits : name.length + password.length ≤ 1014) :
    Packet :=
  Packet.ofChunk
    { bytes := loginBytes name password
      nonempty := List.ne_nil_of_length_pos (by rw [loginBytes_length]; omega)
      fits := by rw [loginBytes_length]; omega }

theorem loginMessage_command {name password : Bytes}
    (hfits : name.length + password.length ≤ 1014) :
    (loginMessage name password hfits).command = 12 := by
  have hbytes : loginBytes name password =
      Framing.lengthBytes 4 (name.length + password.length + 6) ++
        12 :: ([0, 0, 0] ++ (name ++ 0 :: (password ++ [0]))) := by
    rw [loginBytes, List.append_assoc]
    rfl
  exact Packet.command_ofChunk (Framing.lengthBytes_length 4 _) hbytes

theorem loginMessage_credentials {name password : Bytes}
    (hfits : name.length + password.length ≤ 1014) (hname : 0 ∉ name) (hpassword : 0 ∉ password) :
    credentials (loginMessage name password hfits) = some (name, password) := by
  have hlead : (Framing.lengthBytes 4 (name.length + password.length + 6) ++ [12, 0, 0, 0]).length
      = 8 := by
    simp [Framing.lengthBytes_length]
  have hvalues : loginValues (loginMessage name password hfits) = some [name, password] :=
    loginValues_ofChunk hlead hname hpassword rfl
  rw [credentials, hvalues]

/-! ## Handling -/

/-- How the loop over the rows is left. -/
inductive LoopEnd
  | done
  | refused
  | thrown
  deriving DecidableEq

namespace Server

variable (server : Server)

/-- `while (query.executeStep())`: the writes, `foundUser`, and how it is left.
The account's name is copied to the client before the row is checked. -/
def rowLoop (socket : Socket) (password : Bytes) (thrown : Bool) :
    Bool → List Row → List Effect × Bool × LoopEnd
  | foundUser, [] => ([], foundUser, if thrown then .thrown else .done)
  | _, row :: rows =>
    if row.banned = 1 then
      ([.setName row.userName, .disconnect socket, .setConnected false], true, .refused)
    else if row.password ≠ password then
      ([.setName row.userName, .send socket server.wrongPassword], true, .refused)
    else
      let next := rowLoop socket password thrown true rows
      (.setName row.userName :: next.1, next.2)

/-- The reply and the flag at the end of `case 12`. -/
def accept (socket : Socket) : List Effect :=
  [.send socket server.correctPassword, .setLoggedIn true]

/-- What follows the `try` block.  `catch (...) {}` continues here as well. -/
def afterLoop (db : Database) (users : List Row) (client : Client) (name password : Bytes)
    (foundUser : Bool) : List Effect :=
  if foundUser then server.accept client.socket
  else
    match db.createUser name password users with
    | none => [.setUsers (db.left name password users), .throw]
    | some users => .setUsers users :: .setName name :: server.accept client.socket

def login (db : Database) (users : List Row) (client : Client) (name password : Bytes) :
    List Effect :=
  let loop :=
    match db.select (selectText name) users with
    | .throws => ([], false, LoopEnd.thrown)
    | .steps rows thrown => server.rowLoop client.socket password thrown false rows
  match loop.2.2 with
  | .refused => loop.1
  | .done | .thrown => loop.1 ++ server.afterLoop db users client name password loop.2.1

/-- The switch of `Update`.  Its other cases are empty. -/
def handleInput (db : Database) (users : List Row) (client : Client) (input : Packet) :
    List Effect :=
  if input.command = 12 ∧ client.loggedIn = false then
    match credentials input with
    | none => [.undefined]
    | some (name, password) => server.login db users client name password
  else []

end Server

/-- A row that lets the presented password in. -/
def Row.Admits (password : Bytes) (row : Row) : Prop := row.banned ≠ 1 ∧ row.password = password

instance (password : Bytes) (row : Row) : Decidable (row.Admits password) :=
  inferInstanceAs (Decidable (_ ∧ _))

namespace Server

variable {server : Server} {socket : Socket} {password : Bytes} {thrown : Bool}

theorem rowLoop_of_admits (foundUser : Bool) {rows : List Row}
    (h : ∀ row ∈ rows, row.Admits password) :
    server.rowLoop socket password thrown foundUser rows =
      (rows.map fun row => .setName row.userName, foundUser || !rows.isEmpty,
        if thrown then .thrown else .done) := by
  induction rows generalizing foundUser with
  | nil => simp [rowLoop]
  | cons row rows ih =>
    have hrow := h row List.mem_cons_self
    rw [rowLoop, if_neg hrow.1, if_neg (not_not_intro hrow.2),
      ih true fun r hr => h r (List.mem_cons_of_mem row hr)]
    simp

/-- The writes of the row that ends the loop. -/
def refuse (server : Server) (socket : Socket) (row : Row) : List Effect :=
  if row.banned = 1 then [.disconnect socket, .setConnected false]
  else [.send socket server.wrongPassword]

theorem rowLoop_of_refused (foundUser : Bool) {rows rest : List Row} {row : Row}
    (h : ∀ r ∈ rows, r.Admits password) (hrow : ¬ row.Admits password) :
    server.rowLoop socket password thrown foundUser (rows ++ row :: rest) =
      (((rows ++ [row]).map fun r => .setName r.userName) ++ server.refuse socket row, true,
        .refused) := by
  induction rows generalizing foundUser with
  | nil =>
    by_cases hbanned : row.banned = 1
    · simp [rowLoop, refuse, hbanned]
    · have hpass : row.password ≠ password := fun heq => hrow ⟨hbanned, heq⟩
      simp [rowLoop, refuse, hbanned, hpass]
  | cons first rows ih =>
    have hfirst := h first List.mem_cons_self
    rw [List.cons_append, rowLoop, if_neg hfirst.1, if_neg (not_not_intro hfirst.2),
      ih true fun r hr => h r (List.mem_cons_of_mem first hr)]
    simp

theorem admits_or_split (password : Bytes) (rows : List Row) :
    (∀ row ∈ rows, row.Admits password) ∨
      ∃ before row after, rows = before ++ row :: after ∧
        (∀ r ∈ before, r.Admits password) ∧ ¬ row.Admits password := by
  induction rows with
  | nil => exact Or.inl fun row hrow => absurd hrow List.not_mem_nil
  | cons first rows ih =>
    by_cases hfirst : first.Admits password
    · rcases ih with hall | ⟨before, row, after, hsplit, hbefore, hrow⟩
      · exact Or.inl (List.forall_mem_cons.mpr ⟨hfirst, hall⟩)
      · exact Or.inr ⟨first :: before, row, after, by rw [hsplit, List.cons_append],
          List.forall_mem_cons.mpr ⟨hfirst, hbefore⟩, hrow⟩
    · exact Or.inr ⟨[], first, rows, rfl, fun r hr => absurd hr List.not_mem_nil, hfirst⟩

/-! ### What a login does, by what the SELECT does -/

variable {db : Database} {users : List Row} {client : Client} {name : Bytes}

theorem login_of_throws (h : db.select (selectText name) users = .throws) :
    server.login db users client name password =
      server.afterLoop db users client name password false := by
  simp [login, h]

theorem login_of_admits {rows : List Row}
    (h : db.select (selectText name) users = .steps rows thrown)
    (hall : ∀ row ∈ rows, row.Admits password) :
    server.login db users client name password =
      (rows.map fun row => .setName row.userName) ++
        server.afterLoop db users client name password (!rows.isEmpty) := by
  simp only [login, h, rowLoop_of_admits false hall, Bool.false_or]
  cases thrown <;> rfl

theorem login_of_refused {before after : List Row} {row : Row}
    (h : db.select (selectText name) users = .steps (before ++ row :: after) thrown)
    (hbefore : ∀ r ∈ before, r.Admits password) (hrow : ¬ row.Admits password) :
    server.login db users client name password =
      ((before ++ [row]).map fun r => .setName r.userName) ++
        server.refuse client.socket row := by
  simp only [login, h, rowLoop_of_refused false hbefore hrow]

end Server

/-- What the SELECT of a login returns before it ends or throws. -/
def Database.rows (db : Database) (users : List Row) (name : Bytes) : List Row :=
  match db.select (selectText name) users with
  | .throws => []
  | .steps rows _ => rows

/-- The SELECT of the login `(name, password)` ends without having refused. -/
def Database.Passes (db : Database) (users : List Row) (name password : Bytes) : Prop :=
  match db.select (selectText name) users with
  | .throws => True
  | .steps rows _ => ∀ row ∈ rows, row.Admits password

theorem Database.passes_iff {db : Database} {users : List Row} {name password : Bytes} :
    db.Passes users name password ↔ ∀ row ∈ db.rows users name, row.Admits password := by
  unfold Passes rows
  cases db.select (selectText name) users with
  | throws => simp
  | steps rows thrown => rfl

/-- The SELECT has returned a row. -/
def Database.Finds (db : Database) (users : List Row) (name : Bytes) : Prop :=
  match db.select (selectText name) users with
  | .throws => False
  | .steps rows _ => rows ≠ []

namespace Server

variable (server : Server) (db : Database) (users : List Row) (client : Client)
  (name password : Bytes)

/-- Every login either stops at a refusing row or goes on behind the loop, after
copying names to the client. -/
theorem login_cases :
    (¬ db.Passes users name password ∧ ∃ (names : List Bytes) (row : Row),
      server.login db users client name password =
        names.map Effect.setName ++ server.refuse client.socket row) ∨
    (db.Passes users name password ∧ ∃ (names : List Bytes) (foundUser : Bool),
      (foundUser = true ↔ db.Finds users name) ∧
      server.login db users client name password =
        names.map Effect.setName ++
          server.afterLoop db users client name password foundUser) := by
  unfold Database.Passes Database.Finds
  cases hselect : db.select (selectText name) users with
  | throws =>
    refine Or.inr ⟨trivial, [], false, by simp, ?_⟩
    rw [login_of_throws hselect]
    rfl
  | steps rows thrown =>
    rcases admits_or_split password rows with hall | ⟨before, row, after, hsplit, hbefore, hrow⟩
    · refine Or.inr ⟨hall, rows.map Row.userName, !rows.isEmpty, by simp, ?_⟩
      rw [login_of_admits hselect hall, List.map_map]
      rfl
    · subst hsplit
      refine Or.inl ⟨fun hall => hrow (hall row (by simp)),
        (before ++ [row]).map Row.userName, row, ?_⟩
      rw [login_of_refused hselect hbefore hrow, List.map_map]
      rfl

end Server
end WhiteSmo
