import WhiteSmo.Server.Decision

/-!
# The answer to a login

Of the writes of a message only two are seen by anybody at once: the answer that is sent, and
the flag that logs the client in.  Each message has at most one answer, and it is the right
one exactly when the flag is set.
-/

namespace WhiteSmo

/-- What a write sends. -/
def Effect.reply : Effect → Option (Socket × Bytes)
  | .send socket out => some (socket, out)
  | _ => none

/-- Neither an answer nor the flag. -/
def Effect.quiet : Effect → Bool
  | .send _ _ | .setLoggedIn _ => false
  | _ => true

theorem replies_of_quiet {effects : List Effect} (h : ∀ effect ∈ effects, effect.quiet = true) :
    effects.filterMap Effect.reply = [] := by
  rw [List.filterMap_eq_nil_iff]
  intro effect heffect
  have hquiet := h effect heffect
  cases effect with
  | send socket out => cases hquiet
  | _ => rfl

namespace Server

variable (server : Server)

/-- The answer that a login should get.  There is none for a client that is banned, and none
when the account cannot be created. -/
def verdict (db : Database) (users : List Row) (name password : Bytes) : Option Bytes :=
  match firstRefusal password (db.rows users name) with
  | some row => if row.banned = 1 then none else some server.wrongPassword
  | none =>
    if db.rows users name ≠ [] ∨ (db.createUser name password users).isSome = true then
      some server.correctPassword
    else none

/-- The answer to a message.  Only logins of clients that are not logged in have one. -/
def answer (db : Database) (users : List Row) (client : Client) (input : Packet) :
    Option (Socket × Bytes) :=
  if input.command = 12 ∧ client.loggedIn = false then
    (credentials input).bind fun vals =>
      (server.verdict db users vals.1 vals.2).map fun out => (client.socket, out)
  else none

/-- Writes with this answer. -/
inductive Answering (socket : Socket) : Option Bytes → List Effect → Prop
  | correct {effects : List Effect} (hquiet : ∀ effect ∈ effects, effect.quiet = true) :
      Answering socket (some server.correctPassword) (effects ++ server.accept socket)
  | wrong {effects : List Effect} (hquiet : ∀ effect ∈ effects, effect.quiet = true) :
      Answering socket (some server.wrongPassword) (effects ++ [.send socket server.wrongPassword])
  | silent {effects : List Effect} (hquiet : ∀ effect ∈ effects, effect.quiet = true) :
      Answering socket none effects

section

variable {server} {socket : Socket} {out : Option Bytes} {effects : List Effect}

theorem Answering.names (h : server.Answering socket out effects) (names : List Bytes) :
    server.Answering socket out (names.map Effect.setName ++ effects) := by
  have hnames : ∀ effect ∈ names.map Effect.setName, effect.quiet = true := by
    intro effect heffect
    obtain ⟨name, -, rfl⟩ := List.mem_map.mp heffect
    rfl
  cases h with
  | correct hquiet =>
    rw [← List.append_assoc]
    exact .correct (List.forall_mem_append.mpr ⟨hnames, hquiet⟩)
  | wrong hquiet =>
    rw [← List.append_assoc]
    exact .wrong (List.forall_mem_append.mpr ⟨hnames, hquiet⟩)
  | silent hquiet => exact .silent (List.forall_mem_append.mpr ⟨hnames, hquiet⟩)

theorem Answering.replies (h : server.Answering socket out effects) :
    effects.filterMap Effect.reply = (out.map fun out => (socket, out)).toList := by
  cases h with
  | correct hquiet | wrong hquiet =>
    rw [List.filterMap_append, replies_of_quiet hquiet]
    rfl
  | silent hquiet => rw [replies_of_quiet hquiet]; rfl

end

section

variable (db : Database) (users : List Row) (client : Client) (name password : Bytes)

theorem refuse_answering (socket : Socket) (row : Row) :
    server.Answering socket (if row.banned = 1 then none else some server.wrongPassword)
      (server.refuse socket row) := by
  unfold refuse
  split
  case isTrue =>
    refine .silent ?_
    rw [List.forall_mem_cons, List.forall_mem_singleton]
    exact ⟨rfl, rfl⟩
  case isFalse => exact @Answering.wrong server socket [] fun _ hnil => absurd hnil List.not_mem_nil

theorem afterLoop_answering (foundUser : Bool) :
    server.Answering client.socket
      (if foundUser = true ∨ (db.createUser name password users).isSome = true then
        some server.correctPassword else none)
      (server.afterLoop db users client name password foundUser) := by
  unfold afterLoop
  cases foundUser with
  | true => exact @Answering.correct server client.socket [] fun _ hnil => absurd hnil List.not_mem_nil
  | false =>
    cases db.createUser name password users with
    | none =>
      refine .silent ?_
      rw [if_neg Bool.false_ne_true, List.forall_mem_cons, List.forall_mem_singleton]
      exact ⟨rfl, rfl⟩
    | some users =>
      refine @Answering.correct server client.socket [.setUsers users, .setName name] ?_
      rw [List.forall_mem_cons, List.forall_mem_singleton]
      exact ⟨rfl, rfl⟩

theorem login_answering :
    server.Answering client.socket (server.verdict db users name password)
      (server.login db users client name password) := by
  unfold verdict Database.rows
  cases hselect : db.select (selectText name) users with
  | throws =>
    rw [login_of_throws hselect]
    have hafter := server.afterLoop_answering db users client name password false
    simpa [firstRefusal] using hafter
  | steps rows thrown =>
    cases hrefusal : firstRefusal password rows with
    | some row =>
      obtain ⟨hrow, before, after, rfl, hbefore⟩ := firstRefusal_eq_some_iff.mp hrefusal
      rw [login_of_refused hselect hbefore hrow, ← Function.comp_def Effect.setName Row.userName,
        ← List.map_map]
      dsimp only
      exact (server.refuse_answering client.socket row).names _
    | none =>
      rw [login_of_admits hselect (firstRefusal_eq_none_iff.mp hrefusal),
        ← Function.comp_def Effect.setName Row.userName, ← List.map_map]
      dsimp only
      have hafter := server.afterLoop_answering db users client name password (!rows.isEmpty)
      simpa using hafter.names (rows.map Row.userName)

/-- The writes of a message have the answer that it should get. -/
theorem handleInput_answering (input : Packet) :
    ∃ out, server.answer db users client input = out.map (fun out => (client.socket, out)) ∧
      server.Answering client.socket out (server.handleInput db users client input) := by
  unfold answer handleInput
  split
  case isFalse => exact ⟨none, rfl, .silent fun _ hnil => absurd hnil List.not_mem_nil⟩
  case isTrue =>
    cases credentials input with
    | none =>
      refine ⟨none, rfl, .silent ?_⟩
      rw [List.forall_mem_singleton]
      rfl
    | some vals => exact ⟨_, rfl, server.login_answering db users client vals.1 vals.2⟩

end
end Server
end WhiteSmo
