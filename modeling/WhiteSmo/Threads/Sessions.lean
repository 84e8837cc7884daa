import WhiteSmo.Server.Accounts
import WhiteSmo.Threads.Serial

/-!
# Who is logged in

Over the runs of all threads: nobody is logged in without a login that has entered, a player
that is logged in keeps its account whatever comes later, and the table gets a name twice
only through a login that is misread.

The step that decides the writes of a message is the handling of the message as a whole, in
the state that it finds.
-/

namespace WhiteSmo

/-- The handling of a whole message in the state. -/
def State.handling (server : Server) (s : State) (client : ClientId) (input : Packet)
    (db : Database) : Handling where
  client := client
  input := input
  db := db
  before := s
  after := (s.applyAll client (server.handleInput db s.users (s.heap client) input)).record
    (.handled client input)

theorem State.handling_ledger (server : Server) (s : State) (client : ClientId) (input : Packet)
    (db : Database) : (s.handling server client input db).after.ledger [] =
      (s.ledger []).handle server client input db := by
  have hinput : ∀ s : State, (s.record (.handled client input)).ledger [] =
      s.ledger [(client, input)] := by
    intro s
    simp [State.ledger, handledIn, answeredIn]
  rw [handling, hinput, ledger_applyAll, Ledger.handle]
  congr 1
  simp [State.ledger]

namespace Ledger

variable {server : Server} {l : Ledger} {socket : Socket}

theorem applyAll_loggedIn {client c : ClientId} {effects : List Effect}
    (h : ∀ effect ∈ effects, ∀ b, effect ≠ .setLoggedIn b) :
    ((l.applyAll client effects).account c).loggedIn = (l.account c).loggedIn := by
  induction effects generalizing l with
  | nil => rfl
  | cons effect effects ih =>
    obtain ⟨hfirst, hrest⟩ := List.forall_mem_cons.mp h
    rw [applyAll_cons, ih hrest]
    by_cases hc : c = client
    · subst hc
      cases effect with
      | setLoggedIn b => exact absurd rfl (hfirst b)
      | _ => simp [apply, modify]
    · rw [apply_account_of_ne l hc]

theorem handle_socket (client c : ClientId) (input : Packet) (db : Database) :
    ((l.handle server client input db).account c).socket = (l.account c).socket := by
  rw [handle, applyAll_socket]

/-- Somebody with the socket is logged in. -/
def LoggedInOn (l : Ledger) (socket : Socket) : Prop :=
  ∃ c, (l.account c).loggedIn = true ∧ (l.account c).socket = socket

/-- What the second loop makes an object is what some object with its socket was. -/
theorem writeBack_loggedInOn {clients : List ClientId} {client : ClientId}
    (h : (l.writeBack clients client).LoggedInOn socket) : l.LoggedInOn socket := by
  obtain ⟨c, hlogged, hsocket⟩ := h
  unfold writeBack at hlogged hsocket
  cases hfind : clients.find? fun c => (l.account client).socket = (l.account c).socket with
  | none =>
    rw [hfind] at hlogged hsocket
    exact ⟨c, hlogged, hsocket⟩
  | some result =>
    rw [hfind] at hlogged hsocket
    by_cases hc : c = result
    · subst hc
      have hsame : (l.account client).socket = (l.account c).socket := by
        simpa using List.find?_some hfind
      exact ⟨client, by simpa [modify] using hlogged, by simpa [modify, hsame] using hsocket⟩
    · exact ⟨c, by simpa [modify, hc] using hlogged, by simpa [modify, hc] using hsocket⟩

theorem greet_loggedInOn {client : ClientId} {s : Socket} {type : ClientType}
    (h : (l.greet client s type).LoggedInOn socket) : l.LoggedInOn socket := by
  obtain ⟨c, hlogged, hsocket⟩ := h
  by_cases hc : c = client
  · subst hc
    simp [greet] at hlogged
  · exact ⟨c, by simpa [greet, hc] using hlogged, by simpa [greet, hc] using hsocket⟩

/-- Without a message nobody is logged in, and the table stays. -/
theorem replay_of_no_message {entries : List Entry} (h : ∀ entry ∈ entries, entry.message = none) :
    ((l.replay server entries).LoggedInOn socket → l.LoggedInOn socket) ∧
      (l.replay server entries).users = l.users := by
  induction entries generalizing l with
  | nil => exact ⟨id, rfl⟩
  | cons entry entries ih =>
    obtain ⟨hfirst, hrest⟩ := List.forall_mem_cons.mp h
    obtain ⟨hlogged, husers⟩ := @ih (l.perform server entry) hrest
    cases entry with
    | handle client input db => cases hfirst
    | writeBack clients client =>
      refine ⟨fun hend => writeBack_loggedInOn (hlogged hend), husers.trans ?_⟩
      rw [perform, writeBack]
      split <;> rfl
    | greet client s type => exact ⟨fun hend => greet_loggedInOn (hlogged hend), husers⟩

end Ledger

namespace World

/-- The handling of the message whose writes a step decides. -/
def decides (server : Server) (w : World) (action : Action) : Option Handling :=
  match action.thread, w.main with
  | .main, .inputs _ client _ (input :: _) =>
    some (w.shared.toState.handling server client input action.env.db)
  | _, _ => none

variable {server : Server} {players : List ClientId} {w w' : World} {actions : List Action}

/-- The handling of a deciding step begins in the state that everybody sees, and is the
only entry of the step. -/
theorem decides_eq_some {action : Action} {h : Handling}
    (hdecides : w.decides server action = some h) :
    h = w.shared.toState.handling server h.client h.input action.env.db ∧
      w.entries action = [.handle h.client h.input action.env.db] ∧
      w.accounts = w.shared.ledger [] := by
  obtain ⟨thread, env⟩ := action
  cases thread with
  | main =>
    unfold decides at hdecides
    unfold entries accounts
    generalize w.main = main at hdecides
    cases main with
    | inputs clients client todo vInput =>
      cases vInput with
      | nil => cases hdecides
      | cons input vInput =>
        cases hdecides
        exact ⟨rfl, rfl, rfl⟩
    | _ => cases hdecides
  | listener => cases hdecides
  | reader client => cases hdecides

theorem entries_of_decides_none {action : Action} (hdecides : w.decides server action = none) :
    ∀ entry ∈ w.entries action, entry.message = none := by
  obtain ⟨thread, env⟩ := action
  cases thread with
  | main =>
    show ∀ entry ∈ w.main.entries env.db, entry.message = none
    unfold decides at hdecides
    generalize w.main = main at hdecides
    cases main with
    | inputs clients client todo vInput =>
      cases vInput with
      | nil => exact fun _ hnil => absurd hnil List.not_mem_nil
      | cons input vInput => cases hdecides
    | back clients client todo => exact List.forall_mem_singleton.mpr rfl
    | _ => exact fun _ hnil => absurd hnil List.not_mem_nil
  | listener =>
    show ∀ entry ∈ w.listener.entries w.shared.next env.type, entry.message = none
    cases w.listener with
    | hello socket ip input =>
      rw [ListenerPc.entries]
      split
      · exact List.forall_mem_singleton.mpr rfl
      · exact fun _ hnil => absurd hnil List.not_mem_nil
    | _ => exact fun _ hnil => absurd hnil List.not_mem_nil
  | reader client => exact fun _ hnil => absurd hnil List.not_mem_nil

/-- The ledger behind a deciding step is that of the handled message. -/
theorem step_decides {action : Action} {h : Handling} (hstep : step server w action = some w')
    (hw : Serving players w) (hdecides : w.decides server action = some h) :
    server.Handles (fun _ => action.env.db) h ∧ h.before = w.shared.toState ∧
      w.accounts = h.before.ledger [] ∧ w'.accounts = h.after.ledger [] := by
  obtain ⟨heq, hentries, haccounts⟩ := decides_eq_some hdecides
  have hreplay := step_simulates hstep hw
  rw [hentries, haccounts] at hreplay
  rw [heq, State.handling_ledger]
  exact ⟨⟨(stepBy_of_step hstep).1, ⟨0, rfl⟩, rfl⟩, rfl, haccounts, hreplay⟩

theorem boot_account (hboot : Boot w) (c : ClientId) :
    w.accounts.account c = (w.shared.heap c).account := by
  rw [accounts, hboot.main]
  rfl

/-- Nothing is left to be written to a client that is logged in. -/
theorem accounts_of_loggedIn (hw : Serving players w) {c : ClientId}
    (h : (w.shared.heap c).loggedIn = true) : w.accounts.account c = (w.shared.heap c).account := by
  have hmain := hw.main
  rw [accounts]
  generalize w.main = main at hmain
  cases main with
  | handle clients client todo input effects vInput =>
    by_cases hc : c = client
    · subst hc
      rw [hmain.2.2 h]
      rfl
    · exact Ledger.applyAll_account_of_ne _ hc effects
  | _ => rfl

/-! ## Nobody is logged in without a login -/

/-- The step decides a login of a client with the socket that is not logged in: with the
database of the step and against the table as it is there, the SELECT hands back no row
that refuses, and either it hands back a row or the account is created. -/
def LogsIn (server : Server) (socket : Socket) (w : World) (action : Action) : Prop :=
  ∃ h ∈ w.decides server action, (w.shared.heap h.client).socket = socket ∧
    (w.shared.heap h.client).loggedIn = false ∧ h.input.command = 12 ∧
    ∃ name password, credentials h.input = some (name, password) ∧
      Server.Enters action.env.db w.shared.users name password

theorem step_loggedInOn {action : Action} {socket : Socket}
    (hstep : step server w action = some w') (hw : Serving players w)
    (hlogged : w'.accounts.LoggedInOn socket) :
    w.accounts.LoggedInOn socket ∨ LogsIn server socket w action := by
  cases hdecides : w.decides server action with
  | none =>
    rw [step_simulates hstep hw] at hlogged
    exact Or.inl ((Ledger.replay_of_no_message (entries_of_decides_none hdecides)).1 hlogged)
  | some h =>
    obtain ⟨hh, hbefore, haccounts, haccounts'⟩ := step_decides hstep hw hdecides
    obtain ⟨-, k, hdb⟩ := hh.alive, hh.db_eq
    rw [haccounts'] at hlogged
    obtain ⟨c, hend, hsocket⟩ := hlogged
    have hend : (h.after.heap c).loggedIn = true := hend
    have hsame : (h.before.heap c).socket = socket := by
      have hsocket : (h.after.heap c).socket = socket := hsocket
      rwa [hh.after_eq, State.record_heap, State.applyAll_socket] at hsocket
    by_cases hc : c = h.client
    · subst hc
      cases hout : (h.before.heap h.client).loggedIn with
      | true =>
        exact Or.inl ⟨h.client, by rw [haccounts]; exact hout, by rw [haccounts]; exact hsame⟩
      | false =>
        obtain ⟨hcommand, name, password, hvals, henters⟩ := (hh.loggedIn_iff hout).mp hend
        rw [hbefore] at hsame hout henters
        rw [hdb] at henters
        exact Or.inr ⟨h, hdecides, hsame, hout, hcommand, name, password, hvals, henters⟩
    · rw [hh.after_eq, State.record_heap, State.applyAll_heap_of_ne _ hc] at hend
      exact Or.inl ⟨c, by rw [haccounts]; exact hend, by rw [haccounts]; exact hsame⟩

/-- Whoever is logged in, in whatever run, has the socket of somebody who was so at the start
or for whom a step of the run has decided a login that enters. -/
theorem loggedIn_justified (server : Server) (w w' : World) (actions : List Action)
    (hboot : Boot w) (hrun : run server w actions = some w') (c : ClientId)
    (hlogged : (w'.shared.heap c).loggedIn = true) :
    (∃ c', (w.shared.heap c').loggedIn = true ∧
      (w.shared.heap c').socket = (w'.shared.heap c).socket) ∨
    Transition.Occurs (step server) (LogsIn server (w'.shared.heap c).socket) w actions := by
  generalize hsocket : (w'.shared.heap c).socket = socket
  by_cases hstart : w.accounts.LoggedInOn socket
  · obtain ⟨c', hbefore, hsame⟩ := hstart
    rw [boot_account hboot] at hbefore hsame
    exact Or.inl ⟨c', hbefore, hsame⟩
  · right
    have hend : Serving w.shared.room.players w' ∧ ¬ w'.accounts.LoggedInOn socket ∨
        Transition.Occurs (step server) (LogsIn server socket) w actions := by
      refine Transition.run_invariant_or_occurs (I := fun v => Serving w.shared.room.players v ∧
        ¬ v.accounts.LoggedInOn socket) (fun v action v' hstep hv => ?_) hrun
        ⟨boot_serving hboot, hstart⟩
      by_cases hlogs : LogsIn server socket v action
      · exact Or.inr hlogs
      · refine Or.inl ⟨step_serving hstep hv.1, fun hend => hlogs ?_⟩
        exact (step_loggedInOn hstep hv.1 hend).resolve_left hv.2
    refine hend.resolve_left fun hout => hout.2 ⟨c, ?_⟩
    rw [accounts_of_loggedIn hout.1 hlogged]
    exact ⟨hlogged, hsocket⟩

theorem loggedIn_justified_greetWithinLogin :
    ∃ w, run ⟨128, 128, []⟩ loginPlayer greetWithinLogin = some w ∧
      (w.shared.heap 0).loggedIn = true ∧
      ((∃ c', (loginPlayer.shared.heap c').loggedIn = true ∧
        (loginPlayer.shared.heap c').socket = (w.shared.heap 0).socket) ∨
      Transition.Occurs (step ⟨128, 128, []⟩) (LogsIn ⟨128, 128, []⟩ (w.shared.heap 0).socket)
        loginPlayer greetWithinLogin) := by
  have hany : (run ⟨128, 128, []⟩ loginPlayer greetWithinLogin).any
      (fun w => (w.shared.heap 0).loggedIn) = true := by
    decide +kernel
  obtain ⟨w, hrun, hlogged⟩ := (Option.any_eq_true _ _).mp hany
  exact ⟨w, hrun, hlogged, loggedIn_justified ⟨128, 128, []⟩ loginPlayer w greetWithinLogin
    (initial_boot _ _ _) hrun 0 hlogged⟩

/-! ## A player that is logged in keeps its account -/

/-- What one step does to the account of a player. -/
theorem step_account {action : Action} (h : step server w action = some w')
    (hw : Serving players w) {c : ClientId} (hc : c ∈ players) :
    (w'.shared.heap c).socket = (w.shared.heap c).socket ∧
      ((players.map fun c => (w.shared.heap c).socket).Nodup →
        (w.shared.heap c).loggedIn = true →
          (w'.shared.heap c).account = (w.shared.heap c).account) := by
  have hsame : (w'.shared.heap c).account = (w.shared.heap c).account →
      (w'.shared.heap c).socket = (w.shared.heap c).socket ∧
        ((players.map fun c => (w.shared.heap c).socket).Nodup →
          (w.shared.heap c).loggedIn = true →
            (w'.shared.heap c).account = (w.shared.heap c).account) :=
    fun haccount => ⟨congrArg Account.socket haccount, fun _ _ => haccount⟩
  cases (stepBy_of_step h).2 with
  | @main env a pc s hstart haccess =>
    have hmain := hw.main
    generalize w.main = main at hstart hmain
    cases Server.startStep_of_start hstart with
    | handled =>
      cases haccess
      exact hsame rfl
    | @write clients todo client input effect effects vInput =>
      cases haccess
      refine ⟨State.apply_socket _ client c effect, fun _ hlogged => ?_⟩
      by_cases hclient : c = client
      · subst hclient
        cases hmain.2.2 hlogged
      · exact congrArg Client.account (State.apply_heap_of_ne _ hclient effect)
    | @writeBack clients todo client =>
      cases haccess
      refine ⟨Server.writeBack_socket clients _ client c, fun hnodup _ => ?_⟩
      obtain ⟨rfl, hclient, -⟩ := hmain
      have hfind := findClient_of_nodup hnodup hclient
      exact congrArg (fun s : State => (s.heap c).account) (Server.writeBack_of_findClient hfind)
    | _ => exact hsame (account_of_ledger (access_ledger haccess rfl []) c)
  | listener _ hlistener haccess =>
    rcases smoListener_ledger hlistener haccess with ⟨-, -, hledger⟩ | ⟨-, socket, -, hgreet⟩
    · exact hsame (account_of_ledger (hledger []) c)
    · have haccount := congrFun (congrArg Ledger.account (hgreet [])) c
      exact hsame (haccount.trans (Function.update_of_ne (Nat.ne_of_lt (hw.fresh c hc)) _ _))
  | @reader env client a pc s _ hreader haccess =>
    have hledger := (smoReader_ledger hreader haccess (hw.readers client)).2
    exact hsame (account_of_ledger (hledger []) c)

/-- The players have sockets of their own. -/
structure Apart (players : List ClientId) (w : World) : Prop where
  serving : Serving players w
  sockets : (players.map fun c => (w.shared.heap c).socket).Nodup

theorem step_apart {action : Action} (h : step server w action = some w')
    (hw : Apart players w) : Apart players w' := by
  refine ⟨step_serving h hw.serving, ?_⟩
  have hmap : (players.map fun c => (w'.shared.heap c).socket) =
      players.map fun c => (w.shared.heap c).socket :=
    List.map_congr_left fun c hc => (step_account h hw.serving hc).1
  rw [hmap]
  exact hw.sockets

/-- While the players have sockets of their own, what a player is logged in as does not
change any more: no message of any client, no hello and no closing of a connection does it. -/
theorem account_settled (server : Server) (w w' w'' : World) (actions actions' : List Action)
    (hboot : Boot w)
    (hsockets : (w.shared.room.players.map fun c => (w.shared.heap c).socket).Nodup)
    (hrun : run server w actions = some w') (hrun' : run server w' actions' = some w'')
    (c : ClientId) (hc : c ∈ w.shared.room.players)
    (hlogged : (w'.shared.heap c).loggedIn = true) :
    (w''.shared.heap c).account = (w'.shared.heap c).account := by
  have hw' : Apart w.shared.room.players w' :=
    Transition.run_invariant (fun _ _ _ => step_apart) hrun ⟨boot_serving hboot, hsockets⟩
  have hkeeps : Apart w.shared.room.players w'' ∧
      (w''.shared.heap c).account = (w'.shared.heap c).account := by
    refine Transition.run_invariant (I := fun v => Apart w.shared.room.players v ∧
      (v.shared.heap c).account = (w'.shared.heap c).account) (fun v _ v' hstep hv => ?_) hrun'
      ⟨hw', rfl⟩
    have hlogged' : (v.shared.heap c).loggedIn = true :=
      (congrArg Account.loggedIn hv.2).trans hlogged
    exact ⟨step_apart hstep hv.1,
      ((step_account hstep hv.1.serving hc).2 hv.1.sockets hlogged').trans hv.2⟩
  exact hkeeps.2

def endOfPass : List Action := steps .listener 1 ++ steps .main 8

/-- The hello and the handling come to their ends, and the player is written back. -/
theorem account_settled_endOfPass :
    ∃ w w', run ⟨128, 128, []⟩ loginPlayer greetWithinLogin = some w ∧
      run ⟨128, 128, []⟩ w endOfPass = some w' ∧
      (w'.shared.heap 0).account = (w.shared.heap 0).account := by
  have hany : (run ⟨128, 128, []⟩ loginPlayer greetWithinLogin).any (fun w =>
      (w.shared.heap 0).loggedIn && (run ⟨128, 128, []⟩ w endOfPass).isSome) = true := by
    decide +kernel
  obtain ⟨w, hrun, hboth⟩ := (Option.any_eq_true _ _).mp hany
  obtain ⟨hlogged, hsome⟩ := Bool.and_eq_true_iff.mp hboth
  obtain ⟨w', hrun'⟩ := Option.isSome_iff_exists.mp hsome
  exact ⟨w, w', hrun, hrun', account_settled ⟨128, 128, []⟩ loginPlayer w w' greetWithinLogin
    endOfPass (initial_boot _ _ _) (List.pairwise_singleton _ _) hrun hrun' 0
    (List.mem_singleton_self 0) hlogged⟩

/-! ## Names in the table

What is known of one handling of `Update` holds of a step that decides a message. -/

/-- The step decides no login that is misread. -/
def ReadsNames (server : Server) (numEq : Row → Column → Bool) (w : World) (action : Action) :
    Prop :=
  ∀ h ∈ w.decides server action, ¬ h.Misread numEq

theorem step_unique_iff {numEq : Row → Column → Bool} {action : Action}
    (hstep : step server w action = some w') (hw : Serving players w)
    (hdb : action.env.db = sqlite numEq)
    (hquote : ∀ entry ∈ w.entries action, ∀ m ∈ entry.message, m.2.Quoteless) :
    UniqueNames w'.accounts.users ↔
      UniqueNames w.accounts.users ∧ ReadsNames server numEq w action := by
  cases hdecides : w.decides server action with
  | none =>
    have hsame := (@Ledger.replay_of_no_message server w.accounts 0 _
      (entries_of_decides_none hdecides)).2
    rw [step_simulates hstep hw, hsame, ReadsNames, hdecides]
    exact (and_iff_left fun _ hnone => by cases hnone).symm
  | some h =>
    obtain ⟨hh, -, haccounts, haccounts'⟩ := step_decides hstep hw hdecides
    rw [hdb] at hh
    have hinput : h.input.Quoteless := by
      rw [(decides_eq_some hdecides).2.1] at hquote
      exact hquote _ (List.mem_singleton_self _) (h.client, h.input) rfl
    have hreads : ReadsNames server numEq w action ↔ ¬ h.Misread numEq := by
      rw [ReadsNames, hdecides]
      constructor
      · exact fun hall => hall h rfl
      · intro hread h' heq
        cases heq
        exact hread
    rw [haccounts, haccounts', hreads]
    exact hh.unique_iff hinput

/-- With a database that answers as SQLite does, messages without double quotes and a table
that has each name once at the start, the table of whole messages has each name once at any
point of any interleaving exactly when no step has decided a login that is misread. -/
theorem unique_names_interleaved (server : Server) (numEq : Row → Column → Bool) (w w' : World)
    (actions : List Action) (hboot : Boot w) (hrun : run server w actions = some w')
    (hdb : ∀ action ∈ actions, action.env.db = sqlite numEq)
    (hquote : ∀ message ∈ handledIn w'.shared.log ++ w'.main.inHand, message.2.Quoteless)
    (hunique : UniqueNames w.shared.users) :
    UniqueNames w'.accounts.users ↔
      Transition.Meets (step server) (ReadsNames server numEq) w actions := by
  have hdb' : Transition.Meets (step server) (fun _ action => action.env.db = sqlite numEq) w
      actions :=
    Transition.meets_of_forall (fun action h _ => hdb action h) w
  have hquote' : Transition.Meets (step server) (fun v action =>
      ∀ entry ∈ v.entries action, ∀ m ∈ entry.message, m.2.Quoteless) w actions := by
    refine Transition.forall_mem_collect_iff.mp fun entry hentry m hm => hquote m ?_
    rw [← (run_histories hboot hrun).1]
    exact List.mem_filterMap.mpr ⟨entry, hentry, hm⟩
  have husers : w.accounts.users = w.shared.users := by
    rw [accounts, hboot.main]
    rfl
  rw [← husers] at hunique
  rw [← not_not (a := UniqueNames w'.accounts.users)]
  refine Transition.run_avoids_iff_meets (B := fun v => ¬ UniqueNames v.accounts.users)
    (I := Serving w.shared.room.players) (fun _ _ _ => step_serving) ?_ ?_ hrun (hdb'.and hquote')
    (boot_serving hboot) (not_not_intro hunique)
  · intro v action v' hD hstep hv hbad hgood
    exact hbad ((step_unique_iff hstep hv hD.1 hD.2).mp hgood).1
  · intro v action v' hD hstep hv hgood
    rw [step_unique_iff hstep hv hD.1 hD.2, and_iff_right (not_not.mp hgood)]

theorem loginEve_quoteless : loginEve.Quoteless := by
  intro name password hvals
  have hlogin : credentials loginEve = some (ascii "eve", ascii "pw") :=
    loginMessage_credentials _ (by decide +kernel) (by decide +kernel)
  cases hvals.symm.trans hlogin
  decide +kernel

/-- The same steps with a database that has no errors. -/
def greetWithinQuery : List Action :=
  greetWithinLogin.map fun action =>
    { action with env := { action.env with db := sqlite fun _ _ => false } }

theorem unique_names_interleaved_greetWithinQuery :
    ∃ w, run ⟨128, 128, []⟩ loginPlayer greetWithinQuery = some w ∧
      w.main.inHand = [(0, loginEve)] ∧
      (UniqueNames w.accounts.users ↔ Transition.Meets (step ⟨128, 128, []⟩)
        (ReadsNames ⟨128, 128, []⟩ fun _ _ => false) loginPlayer greetWithinQuery) := by
  have hany : (run ⟨128, 128, []⟩ loginPlayer greetWithinQuery).any (fun w =>
      decide (w.main.inHand = [(0, loginEve)] ∧ handledIn w.shared.log = [])) = true := by
    decide +kernel
  obtain ⟨w, hrun, hplace⟩ := (Option.any_eq_true _ _).mp hany
  obtain ⟨hinHand, hhandled⟩ := of_decide_eq_true hplace
  refine ⟨w, hrun, hinHand, unique_names_interleaved ⟨128, 128, []⟩ (fun _ _ => false) loginPlayer
    w greetWithinQuery (initial_boot _ _ _) hrun (fun action haction => ?_)
    (fun message hmessage => ?_) (List.pairwise_singleton _ _)⟩
  · obtain ⟨before, -, rfl⟩ := List.mem_map.mp haction
    rfl
  · rw [hhandled, hinHand, List.nil_append] at hmessage
    rw [List.mem_singleton.mp hmessage]
    exact loginEve_quoteless

end World

end WhiteSmo
