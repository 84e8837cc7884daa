import WhiteSmo.Server.Authentication

/-!
# Database exceptions during a login

The SELECT is inside a `try` with an empty `catch`, the transaction that creates
the account is behind it, and `Start` calls `Update` without a handler.  A login
during which a call to the database throws therefore never has the outcome of a
login that did nothing.
-/

namespace WhiteSmo

/-- Some call to the database throws while this login is handled: the SELECT
throws before a row has refused, or no row was returned and the account creation
throws. -/
def Database.Throws (db : Database) (users : List Row) (name password : Bytes) : Prop :=
  db.SelectFails users name password ∨
    db.Passes users name password ∧ ¬ db.Finds users name ∧
      db.createUser name password users = none

/-- The message `h` of this pass has had no consequence: `Update` returns, the table
is as it was, the client is not logged in, and every message that was queued for a
player has been handled. -/
structure Contained (server : Server) (dbs : Nat → Database) (clients : List ClientId)
    (s : State) (h : Handling) : Prop where
  returns : (server.update dbs clients ⟨s, []⟩).state.fate = .alive
  users_eq : h.after.users = h.before.users
  loggedOut : (h.after.heap h.client).loggedIn = false
  others : ∀ c ∈ clients, ∀ input ∈ (s.heap c).vInput,
    ∃ h' ∈ (server.update dbs clients ⟨s, []⟩).done, h'.input = input

namespace Server

variable {server : Server} {dbs : Nat → Database} {h : Handling}

theorem throws_passes {db : Database} {users : List Row} {name password : Bytes}
    (hthrows : db.Throws users name password) : db.Passes users name password := by
  rcases hthrows with hfails | ⟨hpasses, -, -⟩
  · exact selectFails_passes hfails
  · exact hpasses

/-- A login that does not enter although no row has refused ends with an exception
that `Update` does not catch. -/
theorem login_terminates {db : Database} {s : State} {client : ClientId} {name password : Bytes}
    (hpasses : db.Passes s.users name password) (hout : ¬ Enters db s.users name password) :
    (s.applyAll client (server.login db s.users (s.heap client) name password)).fate =
      .terminated := by
  rcases login_cases server db s.users (s.heap client) name password with
    ⟨hfails, -⟩ | ⟨-, names, foundUser, hfound, heq⟩
  · exact absurd hpasses hfails
  · have hnot : ¬ db.Finds s.users name := fun hfinds => hout ⟨hpasses, Or.inl hfinds⟩
    have hcreate : db.createUser name password s.users = none :=
      not_not.mp fun hsome => hout ⟨hpasses, Or.inr hsome⟩
    have hfalse : foundUser = false := by
      cases foundUser with
      | false => rfl
      | true => exact absurd (hfound.mp rfl) hnot
    rw [heq, State.applyAll_append, hfalse]
    simp [afterLoop, hcreate, State.apply]

theorem handlings_alive (clients : List ClientId) (s : State)
    (halive : (server.update dbs clients ⟨s, []⟩).state.fate = .alive) :
    ∀ h ∈ (server.update dbs clients ⟨s, []⟩).done, h.after.fate = .alive := by
  refine update_invariant (P := fun p => p.state.fate = .alive → ∀ h ∈ p.done,
    h.after.fate = .alive) (fun _ _ hp => hp) ?_ clients ⟨s, []⟩
    (fun _ _ hnil => absurd hnil List.not_mem_nil) halive
  intro p client input hrun hp hafter h hmem
  rw [handleNext, if_pos hrun] at hafter hmem
  rw [List.mem_append, List.mem_singleton] at hmem
  rcases hmem with hmem | rfl
  · exact hp hrun h hmem
  · exact hafter

theorem handles_of_mem_update {clients : List ClientId} {s : State}
    (hdone : h ∈ (server.update dbs clients ⟨s, []⟩).done) : server.Handles dbs h :=
  update_invariant (P := fun p => ∀ h ∈ p.done, server.Handles dbs h) (fun _ _ hp => hp)
    (fun _ client input halive hp => handleNext_handles client input halive hp) clients ⟨s, []⟩
    (fun _ hnil => absurd hnil List.not_mem_nil) h hdone

/-- Whatever the players and their queues are, a login during which a call to the
database throws is not contained: the client is logged in by it, or `Update` does
not return. -/
theorem throwing_login_not_contained (server : Server) (dbs : Nat → Database)
    (clients : List ClientId) (s : State) (h : Handling)
    (hdone : h ∈ (server.update dbs clients ⟨s, []⟩).done) (hcommand : h.input.command = 12)
    (hout : (h.before.heap h.client).loggedIn = false) (name password : Bytes)
    (hvals : credentials h.input = some (name, password))
    (hthrows : h.db.Throws h.before.users name password) :
    ¬ Contained server dbs clients s h := by
  intro hcontained
  have hhandles := handles_of_mem_update hdone
  have hnot : ¬ Enters h.db h.before.users name password := by
    intro henters
    have hin := (hhandles.loggedIn_iff hout).mpr ⟨hcommand, name, password, hvals, henters⟩
    rw [hcontained.loggedOut] at hin
    cases hin
  have hdead : h.after.fate = .terminated := by
    rw [hhandles.after_eq, State.record_fate, handleInput, if_pos ⟨hcommand, hout⟩, hvals]
    exact login_terminates (throws_passes hthrows) hnot
  have halive := handlings_alive clients s hcontained.returns h hdone
  rw [hdead] at halive
  cases halive

/-- A player whose queue holds the login of `a` with the password `x`. -/
def queuedA (users : List Row) : State where
  heap _ := Client.guest 5 [loginA]
  users := users
  log := []
  fate := .alive

theorem exists_handling_queuedA (server : Server) (dbs : Nat → Database) (users : List Row) :
    ∃ h ∈ (server.update dbs [0] ⟨queuedA users, []⟩).done,
      h.input.command = 12 ∧ (h.before.heap h.client).loggedIn = false ∧
        credentials h.input = some ([97], [120]) ∧ h.db = dbs 0 ∧ h.before.users = users := by
  obtain ⟨h, hdone, hclient, hinput, hdb, husers, hheap, -⟩ := exists_handling_singleton server dbs
    (queuedA users) 0 (queuedA users).heap loginA rfl rfl
  rw [serve_update server dbs [0] ⟨queuedA users, []⟩ rfl] at hdone
  refine ⟨h, hdone, ?_, ?_, ?_, hdb, husers⟩
  · rw [hinput]
    exact loginMessage_command _
  · rw [hclient, hheap]
    rfl
  · rw [hinput]
    exact loginMessage_credentials _ (by decide) (by decide)

/-- The SELECT fails, and the account `a` is entered with another password. -/
theorem throwing_login_not_contained_busy :
    ∃ h ∈ (Server.update ⟨128, 128, []⟩ (fun _ => busy) [0]
      ⟨queuedA [⟨1, [97], [121], 0⟩], []⟩).done,
      ¬ Contained ⟨128, 128, []⟩ (fun _ => busy) [0] (queuedA [⟨1, [97], [121], 0⟩]) h := by
  obtain ⟨h, hdone, hcommand, hout, hvals, hdb, -⟩ :=
    exists_handling_queuedA ⟨128, 128, []⟩ (fun _ => busy) [⟨1, [97], [121], 0⟩]
  have hthrows : h.db.Throws h.before.users [97] [120] := by
    rw [hdb]
    exact Or.inl trivial
  exact ⟨h, hdone, throwing_login_not_contained ⟨128, 128, []⟩ (fun _ => busy) [0]
    (queuedA [⟨1, [97], [121], 0⟩]) h hdone hcommand hout [97] [120] hvals hthrows⟩

def full : Database := { answering with exec := fun _ _ => none }

/-- The INSERT of a new account fails, and `Update` does not return. -/
theorem full_login_not_contained :
    ∃ h ∈ (Server.update ⟨128, 128, []⟩ (fun _ => full) [0] ⟨queuedA [], []⟩).done,
      h.input.command = 12 ∧ credentials h.input = some ([97], [120]) ∧
        h.db.Throws h.before.users [97] [120] ∧
        ¬ Contained ⟨128, 128, []⟩ (fun _ => full) [0] (queuedA []) h := by
  obtain ⟨h, hdone, hcommand, hout, hvals, hdb, husers⟩ :=
    exists_handling_queuedA ⟨128, 128, []⟩ (fun _ => full) []
  have hpasses : h.db.Passes h.before.users [97] [120] := by
    rw [hdb, husers]
    exact fun row hrow => absurd hrow List.not_mem_nil
  have hfinds : ¬ h.db.Finds h.before.users [97] := by
    rw [hdb, husers]
    exact fun hrows => hrows rfl
  have hcreate : h.db.createUser [97] [120] h.before.users = none := by
    rw [hdb]
    rfl
  refine ⟨h, hdone, hcommand, hvals, Or.inr ⟨hpasses, hfinds, hcreate⟩, fun hcontained => ?_⟩
  have hdead : h.after.fate = .terminated := by
    rw [(handles_of_mem_update hdone).after_eq, State.record_fate, handleInput,
      if_pos ⟨hcommand, hout⟩, hvals]
    exact login_terminates hpasses fun henters => henters.2.elim hfinds fun h => h hcreate
  rw [handlings_alive [0] (queuedA []) hcontained.returns h hdone] at hdead
  cases hdead

end Server
end WhiteSmo
