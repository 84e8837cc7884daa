import WhiteSmo.Server.Decision

/-!
# Refused clients

What a refused login changes, and what the messages behind a ban still do.  The row
loop copies the account's name to the client before it checks the row, while a new
account gives its name only when it is there.  A ban clears `connected`, which
`SMOReader` looks at and `Update` does not.
-/

namespace WhiteSmo

namespace Handling

/-- The login is refused, at the first row that is banned or has another password. -/
def RefusedAt (h : Handling) (row : Row) : Prop :=
  ∃ name password, h.Login name password ∧ ∃ rows thrown,
    h.db.select (selectText name) h.before.users = .steps rows thrown ∧
      firstRefusal password rows = some row

structure KeepsIdentity (h : Handling) : Prop where
  name : (h.after.heap h.client).name = (h.before.heap h.client).name
  type : (h.after.heap h.client).type = (h.before.heap h.client).type
  roomID : (h.after.heap h.client).roomID = (h.before.heap h.client).roomID
  loggedIn : (h.after.heap h.client).loggedIn = (h.before.heap h.client).loggedIn
  users : h.after.users = h.before.users

/-- Handlings of `client` between which nothing writes its name, which is `name` at
the start. -/
def Uninterrupted (client : ClientId) : Bytes → List Handling → Prop
  | _, [] => True
  | name, h :: hs =>
    (h.before.heap client).name = name ∧ Uninterrupted client (h.after.heap client).name hs

/-- The login finds a banned row, and `connected` is cleared. -/
def Bans (h : Handling) : Prop := ∃ row, h.RefusedAt row ∧ row.banned = 1

/-- A message handled for a client behind one that has met a ban. -/
def BehindBan (done : List Handling) (h : Handling) : Prop :=
  ∃ ban, [ban, h].Sublist done ∧ h.client = ban.client ∧ ban.Bans

/-- The message logs nobody in, creates no account and is not answered. -/
structure Quiet (h : Handling) : Prop where
  loggedIn : (h.after.heap h.client).loggedIn = (h.before.heap h.client).loggedIn
  users : h.after.users = h.before.users
  replies : ∀ out, (h.socket, out) ∉ h.replies

/-- If the message is a login that parses and its client is logged out, it finds a
banned row again, or it finds no row and the account creation throws and leaves the table. -/
def StaysOut (h : Handling) : Prop :=
  ∀ name password, h.Login name password →
    h.Bans ∨ h.db.Passes h.before.users name password ∧ ¬ h.db.Finds h.before.users name ∧
      h.db.createUser name password h.before.users = none ∧
        h.db.left name password h.before.users = h.before.users

section

variable {h : Handling} {name password : Bytes}

theorem Login.unique {name' password' : Bytes} (hlogin : h.Login name password)
    (hlogin' : h.Login name' password') : name' = name ∧ password' = password := by
  have hvals := hlogin'.vals.symm.trans hlogin.vals
  rwa [Option.some.injEq, Prod.mk.injEq] at hvals

theorem RefusedAt.unique {row row' : Row} (hrow : h.RefusedAt row) (hrow' : h.RefusedAt row') :
    row' = row := by
  obtain ⟨name, password, hlogin, rows, thrown, hselect, hrefusal⟩ := hrow
  obtain ⟨name', password', hlogin', rows', thrown', hselect', hrefusal'⟩ := hrow'
  obtain ⟨rfl, rfl⟩ := hlogin.unique hlogin'
  cases hselect.symm.trans hselect'
  exact Option.some.inj (hrefusal'.symm.trans hrefusal)

/-- A login passes or is refused at a row. -/
theorem Login.passes_iff (hlogin : h.Login name password) :
    h.db.Passes h.before.users name password ↔ ∀ row, ¬ h.RefusedAt row := by
  unfold Database.Passes
  cases hselect : h.db.select (selectText name) h.before.users with
  | throws =>
    refine iff_of_true trivial ?_
    rintro row ⟨name', password', hlogin', rows, thrown, hselect', -⟩
    obtain ⟨rfl, -⟩ := hlogin.unique hlogin'
    cases hselect.symm.trans hselect'
  | steps rows thrown =>
    dsimp only
    rw [← firstRefusal_eq_none_iff, Option.eq_none_iff_forall_ne_some]
    refine forall_congr' fun row => not_congr ⟨fun hrefusal => ?_, ?_⟩
    · exact ⟨name, password, hlogin, rows, thrown, hselect, hrefusal⟩
    · rintro ⟨name', password', hlogin', rows', thrown', hselect', hrefusal⟩
      obtain ⟨rfl, rfl⟩ := hlogin.unique hlogin'
      cases hselect.symm.trans hselect'
      exact hrefusal

end

end Handling

namespace Server

section

variable {server : Server} {dbs : Nat → Database} {h : Handling} {row : Row}

/-- The writes of a login that is refused at `row`. -/
theorem login_of_refusedAt (hrow : h.RefusedAt row) :
    ∃ name password names, h.Login name password ∧
      server.login h.db h.before.users (h.before.heap h.client) name password =
        (names ++ [row.userName]).map Effect.setName ++ server.refuse h.socket row := by
  obtain ⟨name, password, hlogin, rows, thrown, hselect, hrefusal⟩ := hrow
  obtain ⟨hrefused, before, after, hsplit, hbefore⟩ := firstRefusal_eq_some_iff.mp hrefusal
  rw [hsplit] at hselect
  refine ⟨name, password, before.map Row.userName, hlogin, ?_⟩
  rw [login_of_refused hselect hbefore hrefused, ← List.map_singleton, ← List.map_append,
    List.map_map]
  rfl

/-- A refused login leaves the client with the name of the row. -/
theorem Handles.of_refusedAt (hh : server.Handles dbs h) (hrow : h.RefusedAt row) :
    (h.after.heap h.client).name = row.userName ∧
      (h.after.heap h.client).type = (h.before.heap h.client).type ∧
      (h.after.heap h.client).roomID = (h.before.heap h.client).roomID ∧
      (h.after.heap h.client).loggedIn = (h.before.heap h.client).loggedIn ∧
      h.after.users = h.before.users := by
  obtain ⟨name, password, names, hlogin, heq⟩ := login_of_refusedAt hrow
  obtain ⟨hafter, -⟩ := hh.of_login_eq hlogin _ _ heq
  by_cases hbanned : row.banned = 1 <;> simp [hafter, refuse, hbanned, State.apply]

theorem Handles.keepsIdentity_iff (hh : server.Handles dbs h) (hrow : h.RefusedAt row) :
    h.KeepsIdentity ↔ row.userName = (h.before.heap h.client).name := by
  obtain ⟨hname, htype, hroom, hlogged, husers⟩ := hh.of_refusedAt hrow
  constructor
  · intro hkeeps
    exact hname.symm.trans hkeeps.name
  · intro hsame
    exact ⟨hname.trans hsame, htype, hroom, hlogged, husers⟩

theorem keepIdentity_iff {client : ClientId} {name : Bytes} {hs : List Handling}
    (hhs : ∀ h ∈ hs, server.Handles dbs h)
    (hrefused : ∀ h ∈ hs, h.client = client ∧ ∃ row, h.RefusedAt row)
    (hstart : Handling.Uninterrupted client name hs) :
    (∀ h ∈ hs, h.KeepsIdentity) ↔ ∀ h ∈ hs, ∀ row, h.RefusedAt row → row.userName = name := by
  induction hs generalizing name with
  | nil => simp
  | cons h hs ih =>
    obtain ⟨hname, hrest⟩ := hstart
    obtain ⟨hclient, row, hrow⟩ := hrefused h List.mem_cons_self
    have hh := hhs h List.mem_cons_self
    have hkeeps : h.KeepsIdentity ↔ row.userName = name := by
      rw [hh.keepsIdentity_iff hrow, hclient, hname]
    have hafter : (h.after.heap client).name = row.userName := by
      rw [← hclient]
      exact (hh.of_refusedAt hrow).1
    have hfirst : (∀ r, h.RefusedAt r → r.userName = name) ↔ row.userName = name := by
      constructor
      · intro hall
        exact hall row hrow
      · intro hsame r hr
        rw [hrow.unique hr, hsame]
    rw [List.forall_mem_cons, List.forall_mem_cons, hkeeps, hfirst]
    refine and_congr_right fun hsame => ?_
    rw [hafter, hsame] at hrest
    exact ih (fun h' hh' => hhs h' (List.mem_cons_of_mem h hh'))
      (fun h' hh' => hrefused h' (List.mem_cons_of_mem h hh')) hrest

end

/-- In every sequence of passes, a refused login leaves the client as it was exactly
when the refusing row has the client's own name, and so do refused logins one after
another. -/
theorem refused_keeps_identity_iff (server : Server) (dbs : Nat → Database) (s : State)
    (turns : List Turn) :
    (∀ h ∈ (server.serve dbs ⟨s, []⟩ turns).done, ∀ row, h.RefusedAt row →
      (h.KeepsIdentity ↔ row.userName = (h.before.heap h.client).name)) ∧
    ∀ hs : List Handling, hs.Sublist (server.serve dbs ⟨s, []⟩ turns).done →
      ∀ client name, (∀ h ∈ hs, h.client = client ∧ ∃ row, h.RefusedAt row) →
        Handling.Uninterrupted client name hs →
          ((∀ h ∈ hs, h.KeepsIdentity) ↔
            ∀ h ∈ hs, ∀ row, h.RefusedAt row → row.userName = name) := by
  constructor
  · intro h hdone row hrow
    exact (handles_of_mem_serve hdone).keepsIdentity_iff hrow
  · intro hs hdone client name hrefused hstart
    exact keepIdentity_iff (fun h hh => handles_of_mem_serve (hdone.subset hh)) hrefused hstart

theorem refusedAt_loginA {h : Handling} {banned : Int32} (hdb : h.db = sqlite fun _ _ => false)
    (hinput : h.input = loginA) (hout : (h.before.heap h.client).loggedIn = false)
    (husers : h.before.users = [⟨1, [97], [121], banned⟩]) :
    h.RefusedAt ⟨1, [97], [121], banned⟩ := by
  have hmatch : Row.matchesName (fun _ _ => false) [97] ⟨1, [97], [121], banned⟩ = true := rfl
  refine ⟨[97], [120], login_loginA hinput hout, [⟨1, [97], [121], banned⟩], false, ?_, ?_⟩
  · rw [hdb, husers, sqlite_select (by decide) (by decide), List.filter_cons, if_pos hmatch,
      List.filter_nil]
  · have hother : ([121] : Bytes) ≠ [120] := by decide
    simp [firstRefusal, Row.Admits, hother]

theorem refused_keeps_identity_iff_loginA :
    ∃ h ∈ (Server.serve ⟨128, 128, []⟩ (fun _ => sqlite fun _ _ => false)
        ⟨accountA, []⟩ [turnA]).done,
      h.RefusedAt ⟨1, [97], [121], 0⟩ ∧
        (h.KeepsIdentity ↔ [97] = (h.before.heap h.client).name) ∧
        ((∀ h' ∈ [h], h'.KeepsIdentity) ↔
          ∀ h' ∈ [h], ∀ row, h'.RefusedAt row → row.userName = []) := by
  obtain ⟨h, hdone, hclient, hinput, hdb, husers, hout, hname⟩ := exists_handling_loginA
  have hrow : h.RefusedAt ⟨1, [97], [121], 0⟩ := refusedAt_loginA hdb hinput hout husers
  obtain ⟨hone, hmany⟩ := refused_keeps_identity_iff ⟨128, 128, []⟩
    (fun _ => sqlite fun _ _ => false) accountA [turnA]
  refine ⟨h, hdone, hrow, hone h hdone _ hrow, hmany [h] (List.singleton_sublist.mpr hdone) 0 []
    ?_ ⟨hclient ▸ hname, trivial⟩⟩
  intro h' hh'
  rw [List.mem_singleton.mp hh']
  exact ⟨hclient, _, hrow⟩

/-- A guest without a name tries a wrong password for the account `a`.  Behind the pass
it is not logged in, and it has the name `a`. -/
theorem refused_guest_takes_name :
    let p := Server.serve ⟨128, 128, []⟩ (fun _ => sqlite fun _ _ => false) ⟨accountA, []⟩ [turnA]
    (accountA.heap 0).name = [] ∧ (p.state.heap 0).loggedIn = false ∧
      (p.state.heap 0).name = [97] ∧
      ∃ h ∈ p.done, h.RefusedAt ⟨1, [97], [121], 0⟩ ∧ ¬ h.KeepsIdentity := by
  intro p
  have hend : (p.state.heap 0).loggedIn = false ∧ (p.state.heap 0).name = [97] := by
    decide +kernel
  obtain ⟨h, hdone, hclient, hinput, hdb, husers, hout, hname⟩ := exists_handling_loginA
  have hrow : h.RefusedAt ⟨1, [97], [121], 0⟩ := refusedAt_loginA hdb hinput hout husers
  refine ⟨rfl, hend.1, hend.2, h, hdone, hrow, ?_⟩
  rw [(handles_of_mem_serve hdone).keepsIdentity_iff hrow, hname]
  exact List.cons_ne_nil _ _

/-! ## Behind a ban -/

section

variable {server : Server} {dbs : Nat → Database} {h : Handling}

theorem Handles.quiet_of_not_login (hh : server.Handles dbs h)
    (hnot : ∀ name password, ¬ h.Login name password) : h.Quiet := by
  have hwrites : server.handleInput h.db h.before.users (h.before.heap h.client) h.input = [] ∨
      server.handleInput h.db h.before.users (h.before.heap h.client) h.input =
        [.undefined] := by
    unfold handleInput
    by_cases hguard : h.input.command = 12 ∧ (h.before.heap h.client).loggedIn = false
    · rw [if_pos hguard]
      cases hvals : credentials h.input with
      | none => exact Or.inr rfl
      | some vals => exact absurd ⟨hguard.1, hguard.2, hvals⟩ (hnot vals.1 vals.2)
    · rw [if_neg hguard]
      exact Or.inl rfl
  have hevents := hh.events_eq
  have hafter := hh.after_eq
  rcases hwrites with hwrites | hwrites <;> rw [hwrites] at hevents hafter
  · exact ⟨by rw [hafter]; rfl, by rw [hafter]; rfl,
      by simp [Handling.replies, hevents, Event.reply]⟩
  · refine ⟨by rw [hafter]; rfl, by rw [hafter]; rfl, ?_⟩
    simp [Handling.replies, hevents, Event.reply, Effect.event]

/-- A login that is refused is quiet when it is refused by a ban. -/
theorem Handles.quiet_iff_of_refusedAt (hh : server.Handles dbs h) {row : Row}
    (hrow : h.RefusedAt row) : h.Quiet ↔ row.banned = 1 := by
  obtain ⟨-, -, -, hlogged, husers⟩ := hh.of_refusedAt hrow
  obtain ⟨name, password, names, hlogin, heq⟩ := login_of_refusedAt hrow
  obtain ⟨-, -, -, hevents⟩ := hh.of_refuse hlogin _ row heq
  by_cases hbanned : row.banned = 1
  · refine iff_of_true ⟨hlogged, husers, ?_⟩ hbanned
    simp [Handling.replies, hevents, hbanned, Event.reply]
  · refine iff_of_false (fun hquiet => hquiet.replies server.wrongPassword ?_) hbanned
    simp [Handling.replies, hevents, hbanned, Event.reply]

/-- A login that passes is quiet when it ends with the exception of the account creation. -/
theorem Handles.quiet_iff_of_passes (hh : server.Handles dbs h) {name password : Bytes}
    (hlogin : h.Login name password) (hpasses : h.db.Passes h.before.users name password) :
    h.Quiet ↔ ¬ h.db.Finds h.before.users name ∧
      h.db.createUser name password h.before.users = none ∧
        h.db.left name password h.before.users = h.before.users := by
  have hnot : ∀ (names : List Bytes) (effects : List Effect),
      effects.filterMap Effect.event = [] →
      server.login h.db h.before.users (h.before.heap h.client) name password =
        names.map Effect.setName ++ (effects ++ server.accept h.socket) → ¬ h.Quiet := by
    intro names effects heffects heq hquiet
    have hreplies := (hh.of_accept hlogin names effects heffects heq).2
    exact hquiet.replies server.correctPassword (hreplies ▸ List.mem_singleton_self _)
  rcases login_cases server h.db h.before.users (h.before.heap h.client) name password with
    ⟨hfails, -⟩ | ⟨-, names, foundUser, hfound, heq⟩
  · exact absurd hpasses hfails
  · cases foundUser with
    | true =>
      refine iff_of_false (hnot names [] rfl heq) fun hcreate => hcreate.1 (hfound.mp rfl)
    | false =>
      have hfinds : ¬ h.db.Finds h.before.users name := by
        rw [← hfound]
        exact Bool.false_ne_true
      cases hcreate : h.db.createUser name password h.before.users with
      | some users =>
        refine iff_of_false (hnot names [.setUsers users, .setName name] rfl ?_) ?_
        · rw [heq]
          simp [afterLoop, hcreate, Handling.socket]
        · rintro ⟨-, hnone, -⟩
          cases hnone
      | none =>
        simp only [afterLoop, hcreate] at heq
        obtain ⟨hafter, hevents⟩ := hh.of_login_eq hlogin names _ heq
        have husers : h.after.users = h.db.left name password h.before.users := by
          rw [hafter]
          rfl
        constructor
        · intro hquiet
          exact ⟨hfinds, rfl, husers.symm.trans hquiet.users⟩
        · rintro ⟨-, -, hleft⟩
          refine ⟨?_, husers.trans hleft, ?_⟩
          · rw [hafter]
            simp [State.apply]
          · simp [Handling.replies, hevents, Event.reply, Effect.event]

theorem Handles.quiet_iff (hh : server.Handles dbs h) : h.Quiet ↔ h.StaysOut := by
  by_cases hlogin : ∃ name password, h.Login name password
  · obtain ⟨name, password, hlogin⟩ := hlogin
    have hstays : h.StaysOut ↔ h.Bans ∨ h.db.Passes h.before.users name password ∧
        ¬ h.db.Finds h.before.users name ∧
          h.db.createUser name password h.before.users = none ∧
            h.db.left name password h.before.users = h.before.users := by
      constructor
      · intro hstays
        exact hstays name password hlogin
      · intro hor name' password' hlogin'
        obtain ⟨rfl, rfl⟩ := hlogin.unique hlogin'
        exact hor
    rw [hstays]
    by_cases hpasses : h.db.Passes h.before.users name password
    · have hbans : ¬ h.Bans := by
        rintro ⟨row, hrow, -⟩
        exact hlogin.passes_iff.mp hpasses row hrow
      rw [hh.quiet_iff_of_passes hlogin hpasses, or_iff_right hbans, and_iff_right hpasses]
    · obtain ⟨row, hrow⟩ := not_forall_not.mp (hpasses ∘ hlogin.passes_iff.mpr)
      rw [hh.quiet_iff_of_refusedAt hrow, or_iff_left fun h => hpasses h.1]
      constructor
      · intro hbanned
        exact ⟨row, hrow, hbanned⟩
      · rintro ⟨row', hrow', hbanned⟩
        rwa [hrow.unique hrow'] at hbanned
  · have hnot : ∀ name password, ¬ h.Login name password :=
      fun name password h => hlogin ⟨name, password, h⟩
    exact iff_of_true (hh.quiet_of_not_login hnot) fun name password h => absurd h (hnot _ _)

end

/-- When a message of a client has met a ban, a later message of the client, in the same
queue or another pass, does nothing for it exactly when it stays out by itself. -/
theorem banned_stays_out_iff (server : Server) (dbs : Nat → Database) (s : State)
    (turns : List Turn) :
    ∀ h, Handling.BehindBan (server.serve dbs ⟨s, []⟩ turns).done h → (h.Quiet ↔ h.StaysOut) := by
  rintro h ⟨ban, hlater, -, -⟩
  have hdone : h ∈ (server.serve dbs ⟨s, []⟩ turns).done :=
    hlater.subset (List.mem_cons_of_mem ban (List.mem_singleton_self h))
  exact (handles_of_mem_serve hdone).quiet_iff

def loginB : Packet := loginMessage [98] [120] (by decide)

/-- The account `a` is banned. -/
def bannedA : State := { accountA with users := [⟨1, [97], [121], 1⟩] }

/-- The queue of a client that logs in as `a` and then as `b`. -/
def turnAB : Turn := ⟨[0], fun _ => Client.guest 5 [loginA, loginB]⟩

theorem exists_behindBan :
    ∃ h, Handling.BehindBan (Server.serve ⟨128, 128, []⟩ (fun _ => sqlite fun _ _ => false)
        ⟨bannedA, []⟩ [turnAB]).done h ∧
      (h.before.heap h.client).loggedIn = false ∧ (h.after.heap h.client).loggedIn = true := by
  have hlength : (Server.serve ⟨128, 128, []⟩ (fun _ => sqlite fun _ _ => false)
      ⟨bannedA, []⟩ [turnAB]).done.length = 2 := by decide +kernel
  have hmap : (Server.serve ⟨128, 128, []⟩ (fun _ => sqlite fun _ _ => false)
      ⟨bannedA, []⟩ [turnAB]).done.map (fun h => (h.client, h.input, h.before.users,
        (h.before.heap h.client).loggedIn, (h.after.heap h.client).loggedIn)) =
      [(0, loginA, [⟨1, [97], [121], 1⟩], false, false),
        (0, loginB, [⟨1, [97], [121], 1⟩], false, true)] := by decide +kernel
  obtain ⟨ban, h, hdone⟩ := List.length_eq_two.mp hlength
  obtain ⟨_, hdb⟩ := (handles_of_mem_serve (hdone ▸ List.mem_cons_self)).db_eq
  rw [hdone] at hmap
  simp only [List.map_cons, List.map_nil, List.cons.injEq, Prod.mk.injEq, and_true] at hmap
  obtain ⟨⟨hclient, hinput, husers, hout, -⟩, hclient', -, -, hout', hin'⟩ := hmap
  refine ⟨h, ⟨ban, hdone ▸ List.Sublist.refl _, hclient'.trans hclient.symm, ?_⟩, hout', hin'⟩
  exact ⟨_, refusedAt_loginA hdb hinput hout husers, rfl⟩

theorem banned_stays_out_iff_turnAB :
    ∃ h, Handling.BehindBan (Server.serve ⟨128, 128, []⟩ (fun _ => sqlite fun _ _ => false)
        ⟨bannedA, []⟩ [turnAB]).done h ∧ (h.Quiet ↔ h.StaysOut) := by
  obtain ⟨h, hbehind, -⟩ := exists_behindBan
  exact ⟨h, hbehind, banned_stays_out_iff ⟨128, 128, []⟩ (fun _ => sqlite fun _ _ => false)
    bannedA [turnAB] h hbehind⟩

/-- The message behind the ban logs the client in as `b`. -/
theorem banned_client_logs_in :
    ∃ h, Handling.BehindBan (Server.serve ⟨128, 128, []⟩ (fun _ => sqlite fun _ _ => false)
        ⟨bannedA, []⟩ [turnAB]).done h ∧ ¬ h.Quiet := by
  obtain ⟨h, hbehind, hout, hin⟩ := exists_behindBan
  refine ⟨h, hbehind, fun hquiet => ?_⟩
  have hlogged := hquiet.loggedIn
  rw [hout, hin] at hlogged
  cases hlogged

end Server
end WhiteSmo
