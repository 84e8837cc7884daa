import WhiteSmo.Server.Verdict
import WhiteSmo.Threads.Outbound
import WhiteSmo.Threads.Sessions

/-!
# What a login is answered

The answers to logins over a whole run, whatever runs between the writes of a message.  Each
message of the ledger is answered once or not at all, as its own decision says, and in the
order of the log.  What a player on a socket of its own is told is some refusals and then, if
it is logged in, one acceptance.
-/

namespace WhiteSmo

/-- One of the two bodies that answer a login. -/
def Server.answersLogin (server : Server) (reply : Socket × Bytes) : Bool :=
  reply.2 = server.wrongPassword || reply.2 = server.correctPassword

/-- The answers to logins that were sent, and those that the main thread has decided on. -/
def World.told (server : Server) (w : World) : List (Socket × Bytes) :=
  (w.shared.log.filterMap Event.reply ++ w.main.pending.filterMap Effect.reply).filter
    server.answersLogin

/-- The replies on one socket. -/
def onSocket (socket : Socket) (replies : List (Socket × Bytes)) : List Bytes :=
  (replies.filter fun reply => reply.1 = socket).map Prod.snd

theorem onSocket_append (socket : Socket) (replies replies' : List (Socket × Bytes)) :
    onSocket socket (replies ++ replies') =
      onSocket socket replies ++ onSocket socket replies' := by
  rw [onSocket, List.filter_append, List.map_append]
  rfl

theorem onSocket_of_ne {socket s : Socket} (h : s ≠ socket) (out : Option Bytes) :
    onSocket socket (out.map fun out => (s, out)).toList = [] := by
  cases out with
  | none => rfl
  | some out => simp [onSocket, h]

theorem onSocket_self (socket : Socket) (out : Option Bytes) :
    onSocket socket (out.map fun out => (socket, out)).toList = out.toList := by
  cases out with
  | none => rfl
  | some out => simp [onSocket]

namespace Server

variable (server : Server)

theorem replyByte_ne {a b : UInt32} (h : a.toUInt8 ≠ b.toUInt8) :
    server.replyByte a ≠ server.replyByte b := by
  rw [replyByte, replyByte, UInt32.toUInt8_add, UInt32.toUInt8_add]
  exact fun heq => h (UInt8.add_right_inj _ |>.mp heq)

/-- A login is answered with messages of another kind than what else is sent. -/
theorem answersLogin_of_kind (socket : Socket) {kind : UInt32} (hkind : kind.toUInt8 ≠ 12)
    (rest : Bytes) : server.answersLogin (socket, server.replyByte kind :: rest) = false := by
  have hne : server.replyByte kind ≠ server.replyByte 12 := server.replyByte_ne hkind
  simp [answersLogin, wrongPassword, correctPassword, hne]

theorem answersLogin_helloReply (socket : Socket) :
    server.answersLogin (socket, server.helloReply) = false :=
  server.answersLogin_of_kind socket (by decide) _

theorem answersLogin_userLeft (socket : Socket) (name : Bytes) :
    server.answersLogin (socket, server.userLeft name) = false :=
  server.answersLogin_of_kind socket (by decide) _

/-- Of what a message sends, everything answers a login. -/
theorem handleInput_told (db : Database) (users : List Row) (client : Client) (input : Packet) :
    ((server.handleInput db users client input).filterMap Effect.reply).filter
      server.answersLogin = (server.answer db users client input).toList := by
  obtain ⟨out, hanswer, hwrites⟩ := server.handleInput_answering db users client input
  rw [hanswer, hwrites.replies]
  generalize server.handleInput db users client input = effects at hwrites
  cases hwrites with
  | correct => simp [answersLogin]
  | wrong => simp [answersLogin]
  | silent => rfl

end Server

/-! ## The ledger's answers -/

namespace Ledger

/-- The answer of an entry. -/
def answer (server : Server) (l : Ledger) : Entry → Option (Socket × Bytes)
  | .handle client input db => server.answer db l.users (l.account client).client input
  | _ => none

/-- The answers of entries that are performed one after another. -/
def answers (server : Server) (l : Ledger) : List Entry → List (Socket × Bytes)
  | [] => []
  | entry :: entries =>
    (l.answer server entry).toList ++ answers server (l.perform server entry) entries

theorem answers_append (server : Server) (l : Ledger) (entries entries' : List Entry) :
    l.answers server (entries ++ entries') =
      l.answers server entries ++ (l.replay server entries).answers server entries' := by
  induction entries generalizing l with
  | nil => rfl
  | cons entry entries ih => rw [List.cons_append, answers, answers, ih, List.append_assoc]; rfl

/-! ## The session of one player -/

section

variable {server : Server} {players : List ClientId} {l : Ledger} {p : ClientId}

theorem applyAll_append (l : Ledger) (client : ClientId) (effects effects' : List Effect) :
    l.applyAll client (effects ++ effects') =
      (l.applyAll client effects).applyAll client effects' :=
  List.foldl_append

theorem applyAll_loggedIn_of_quiet {client : ClientId} {effects : List Effect}
    (h : ∀ effect ∈ effects, effect.quiet = true) :
    ((l.applyAll client effects).account client).loggedIn = (l.account client).loggedIn := by
  refine applyAll_loggedIn fun effect heffect b heq => ?_
  have hquiet := h effect heffect
  rw [heq] at hquiet
  cases hquiet

/-- A message logs its client in exactly when its answer is the one that says so. -/
theorem handle_loggedIn_iff (input : Packet) (db : Database)
    (hout : (l.account p).loggedIn = false) :
    ((l.handle server p input db).account p).loggedIn = true ↔
      l.answer server (.handle p input db) =
        some ((l.account p).socket, server.correctPassword) := by
  obtain ⟨out, hanswer, hwrites⟩ :=
    server.handleInput_answering db l.users (l.account p).client input
  rw [answer, hanswer, handle]
  generalize server.handleInput db l.users (l.account p).client input = effects at hwrites
  cases hwrites with
  | correct hquiet =>
    rw [applyAll_append]
    refine iff_of_true ?_ rfl
    simp [Server.accept, apply, modify]
  | wrong hquiet =>
    rw [applyAll_append, applyAll_cons, applyAll_nil]
    refine iff_of_false ?_ fun heq => ?_
    · rw [apply, applyAll_loggedIn_of_quiet hquiet]
      exact Bool.eq_false_iff.mp hout
    · exact Server.wrongPassword_ne (congrArg Prod.snd (Option.some.inj heq))
  | silent hquiet =>
    refine iff_of_false ?_ fun heq => by cases heq
    rw [applyAll_loggedIn_of_quiet hquiet]
    exact Bool.eq_false_iff.mp hout

/-- An answer is for the socket of the client. -/
theorem answer_handle (client : ClientId) (input : Packet) (db : Database) :
    ∃ out, l.answer server (.handle client input db) =
        out.map (fun out => ((l.account client).socket, out)) ∧
      ∀ body, out = some body → body = server.wrongPassword ∨ body = server.correctPassword := by
  obtain ⟨out, hanswer, hwrites⟩ :=
    server.handleInput_answering db l.users (l.account client).client input
  refine ⟨out, hanswer, fun body hbody => ?_⟩
  generalize server.handleInput db l.users (l.account client).client input = effects at hwrites
  cases hwrites with
  | correct => exact Or.inr (Option.some.inj hbody).symm
  | wrong => exact Or.inl (Option.some.inj hbody).symm
  | silent => cases hbody

theorem perform_socket {entry : Entry} (hamong : entry.Among players) (hp : p ∈ players) :
    ((l.perform server entry).account p).socket = (l.account p).socket := by
  cases entry with
  | handle client input db => exact handle_socket client p input db
  | writeBack clients client =>
    rw [perform, writeBack]
    split
    · rfl
    · rename_i result _
      by_cases hresult : p = result
      · subst hresult
        simp [modify]
      · simp [modify, hresult]
  | greet client socket type =>
    have hne : p ≠ client := fun heq => hamong (heq ▸ hp)
    simp [perform, greet, hne]

/-- What is not a message of `p` neither changes its account nor answers on its socket. -/
theorem perform_other {entry : Entry} (hamong : entry.Among players) (hp : p ∈ players)
    (hsockets : (players.map fun c => (l.account c).socket).Nodup)
    (hother : ∀ input db, entry ≠ .handle p input db) :
    (l.perform server entry).account p = l.account p ∧
      onSocket (l.account p).socket (l.answer server entry).toList = [] := by
  cases entry with
  | handle client input db =>
    have hne : p ≠ client := fun heq => hother input db (by rw [heq])
    have hsocket : (l.account client).socket ≠ (l.account p).socket :=
      fun heq => hne (List.inj_on_of_nodup_map hsockets hp hamong heq.symm)
    obtain ⟨out, hanswer, -⟩ := @answer_handle server l client input db
    rw [hanswer]
    exact ⟨applyAll_account_of_ne _ hne _, onSocket_of_ne hsocket out⟩
  | writeBack clients client =>
    obtain ⟨rfl, hclient⟩ := hamong
    have hfind : (clients.find? fun c => (l.account client).socket = (l.account c).socket) =
        some client :=
      @findClient_of_nodup (fun c => (l.account c).client) _ client hsockets hclient
    refine ⟨?_, rfl⟩
    rw [perform, writeBack, hfind]
    simp [modify]
  | greet client socket type =>
    have hne : p ≠ client := fun heq => hamong (heq ▸ hp)
    exact ⟨Function.update_of_ne hne _ _, rfl⟩

/-- A player that is logged in stays so and is answered nothing more. -/
theorem answers_of_loggedIn {entries : List Entry} (hp : p ∈ players)
    (hsockets : (players.map fun c => (l.account c).socket).Nodup)
    (hamong : ∀ entry ∈ entries, entry.Among players) (hlogged : (l.account p).loggedIn = true) :
    ((l.replay server entries).account p).loggedIn = true ∧
      onSocket (l.account p).socket (l.answers server entries) = [] := by
  induction entries generalizing l with
  | nil => exact ⟨hlogged, rfl⟩
  | cons entry entries ih =>
    obtain ⟨hfirst, hrest⟩ := List.forall_mem_cons.mp hamong
    have hsettled : (l.perform server entry).account p = l.account p ∧
        onSocket (l.account p).socket (l.answer server entry).toList = [] := by
      by_cases hown : ∃ input db, entry = .handle p input db
      · obtain ⟨input, db, rfl⟩ := hown
        have hlogin : ¬ (input.command = 12 ∧ (l.account p).client.loggedIn = false) := by
          rintro ⟨-, hfalse⟩
          exact Bool.eq_false_iff.mp hfalse hlogged
        rw [answer, Server.answer, if_neg hlogin, perform, handle, Server.handleInput,
          if_neg hlogin]
        exact ⟨rfl, rfl⟩
      · exact perform_other hfirst hp hsockets fun input db heq => hown ⟨input, db, heq⟩
    have hsockets' : (players.map fun c => ((l.perform server entry).account c).socket) =
        players.map fun c => (l.account c).socket :=
      List.map_congr_left fun c hc => perform_socket hfirst hc
    obtain ⟨hkept, hsilent⟩ := ih (l := l.perform server entry) (hsockets' ▸ hsockets) hrest
      (hsettled.1 ▸ hlogged)
    rw [hsettled.1] at hsilent
    exact ⟨hkept, by rw [answers, onSocket_append, hsettled.2, hsilent]; rfl⟩

/-- A player that is not logged in is refused some times, and then accepted if it is logged in
at the end. -/
theorem answers_of_loggedOut {entries : List Entry} (hp : p ∈ players)
    (hsockets : (players.map fun c => (l.account c).socket).Nodup)
    (hamong : ∀ entry ∈ entries, entry.Among players) (hout : (l.account p).loggedIn = false) :
    ∃ n, onSocket (l.account p).socket (l.answers server entries) =
      List.replicate n server.wrongPassword ++
        if ((l.replay server entries).account p).loggedIn = true then [server.correctPassword]
        else [] := by
  induction entries generalizing l with
  | nil =>
    refine ⟨0, ?_⟩
    rw [replay, List.foldl_nil, if_neg (Bool.eq_false_iff.mp hout)]
    rfl
  | cons entry entries ih =>
    obtain ⟨hfirst, hrest⟩ := List.forall_mem_cons.mp hamong
    have hsockets' : (players.map fun c => ((l.perform server entry).account c).socket) =
        players.map fun c => (l.account c).socket :=
      List.map_congr_left fun c hc => perform_socket hfirst hc
    have hsocket := @perform_socket server players l p entry hfirst hp
    rw [answers, onSocket_append, replay, List.foldl_cons, ← replay, ← hsocket]
    by_cases hown : ∃ input db, entry = .handle p input db
    · obtain ⟨input, db, rfl⟩ := hown
      obtain ⟨out, hanswer, hbody⟩ := @answer_handle server l p input db
      have hflag := @handle_loggedIn_iff server l p input db hout
      rw [hanswer] at hflag
      rw [hanswer, hsocket, onSocket_self, ← hsocket]
      cases hlogged : ((l.perform server (.handle p input db)).account p).loggedIn with
      | true =>
        obtain ⟨hkept, hsilent⟩ := answers_of_loggedIn (l := l.perform server (.handle p input db))
          hp (hsockets' ▸ hsockets) hrest hlogged
        have hcorrect : out = some server.correctPassword := by
          obtain ⟨body, hsome, heq⟩ := Option.map_eq_some_iff.mp (hflag.mp hlogged)
          exact hsome.trans (congrArg some (congrArg Prod.snd heq))
        refine ⟨0, ?_⟩
        rw [hsilent, hkept, hcorrect]
        rfl
      | false =>
        obtain ⟨n, hn⟩ := ih (l := l.perform server (.handle p input db))
          (hsockets' ▸ hsockets) hrest hlogged
        rw [hn]
        cases out with
        | none => exact ⟨n, rfl⟩
        | some body =>
          rcases hbody body rfl with rfl | rfl
          · exact ⟨n + 1, rfl⟩
          · exact absurd (hflag.mpr rfl) (Bool.eq_false_iff.mp hlogged)
    · obtain ⟨hsame, hsilent⟩ := @perform_other server players l p entry hfirst hp hsockets
        fun input db heq => hown ⟨input, db, heq⟩
      rw [hsocket, hsilent, List.nil_append, ← hsocket]
      exact ih (l := l.perform server entry) (hsockets' ▸ hsockets) hrest (hsame ▸ hout)

end

end Ledger

/-! ## The answers of a run -/

section

variable {server : Server} {t : Thread} {s s' : Shared} {a : Access}

theorem apply_replies (s : State) (client : ClientId) (effect : Effect) :
    (s.apply client effect).log.filterMap Event.reply =
      s.log.filterMap Event.reply ++ [effect].filterMap Effect.reply := by
  cases effect <;> simp [State.apply, Event.reply, Effect.reply, List.filterMap_cons]

theorem access_replies (h : s.access server t a = some s')
    (hwrite : ∀ client effect, a ≠ .write client effect)
    (hanswer : ∀ env socket ip, a ≠ .answer env socket ip) :
    s'.log.filterMap Event.reply = s.log.filterMap Event.reply := by
  have hrecord : ∀ event : Event, event.reply = none →
      (s.log ++ [event]).filterMap Event.reply = s.log.filterMap Event.reply := by
    intro event hevent
    rw [List.filterMap_append, List.filterMap_cons_none hevent, List.filterMap_nil, List.append_nil]
  cases a with
  | lock =>
    obtain ⟨-, rfl⟩ := Shared.access_lock_iff.mp h
    rfl
  | accept socket =>
    obtain ⟨-, rfl⟩ := Shared.access_accept_iff.mp h
    exact hrecord _ rfl
  | close socket =>
    cases h
    exact hrecord _ rfl
  | handled client input =>
    cases h
    exact hrecord _ rfl
  | push client input =>
    cases h
    exact hrecord _ rfl
  | write client effect => exact absurd rfl (hwrite client effect)
  | answer env socket ip => exact absurd rfl (hanswer env socket ip)
  | writeBack clients client =>
    cases h
    exact congrArg (List.filterMap Event.reply) (Server.writeBack_log clients s.toState client)
  | _ => cases h; rfl

/-- News that a client has left is no answer to a login. -/
theorem announces_told {effect : Effect} (h : effect.Announces server) :
    ([effect].filterMap Effect.reply).filter server.answersLogin = [] := by
  cases effect with
  | send socket out =>
    obtain ⟨name, rfl⟩ := h socket out rfl
    exact List.filter_eq_nil_iff.mpr fun reply hreply => by
      cases List.mem_singleton.mp hreply
      exact Bool.eq_false_iff.mp (server.answersLogin_userLeft socket name)
  | _ => rfl

end

namespace World

variable {server : Server} {players : List ClientId} {w w' : World} {actions : List Action}

/-- A step adds the answers of its entries, and nothing else. -/
theorem step_told {action : Action} (h : step server w action = some w')
    (hw : Outbound server w) :
    w'.told server = w.told server ++ w.accounts.answers server (w.entries action) := by
  cases (stepBy_of_step h).2 with
  | @main env a pc s hstart haccess =>
    unfold told entries accounts
    generalize w.main = main at hstart
    cases Server.startStep_of_start hstart with
    | @input clients todo client input vInput =>
      cases haccess
      rw [List.filter_append, List.filter_append]
      refine congrArg₂ (· ++ ·) (List.append_nil _).symm ?_
      exact (server.handleInput_told _ _ _ _).trans (List.append_nil _).symm
    | write =>
      cases haccess
      refine Eq.trans ?_ (List.append_nil _).symm
      show List.filter _ (List.filterMap _ (State.apply _ _ _).log ++ _) = _
      rw [apply_replies, List.append_assoc, ← List.filterMap_append]
      rfl
    | _ =>
      have hlog := access_replies haccess (fun _ _ heq => by cases heq)
        fun _ _ _ heq => by cases heq
      rw [hlog]
      exact (List.append_nil _).symm
  | @listener env a pc s _ hlistener haccess =>
    have hnone : w.accounts.answers server (w.entries ⟨.listener, env⟩) = [] := by
      show w.accounts.answers server (w.listener.entries w.shared.next env.type) = []
      cases w.listener with
      | hello socket ip input =>
        rw [ListenerPc.entries]
        split <;> rfl
      | _ => rfl
    rw [hnone, List.append_nil]
    unfold told
    dsimp only
    generalize w.listener = listener at hlistener
    cases Server.listenerStep_of_smoListener hlistener with
    | @answer socket ip name input hname =>
      cases haccess
      rw [List.filter_append, List.filter_append, List.filterMap_append, List.filter_append]
      congr 1
      have hhello := server.answersLogin_helloReply socket
      simp [Event.reply, hhello]
    | _ =>
      have hlog := access_replies haccess (fun _ _ heq => by cases heq)
        fun _ _ _ heq => by cases heq
      rw [hlog]
  | @reader env client a pc s _ hreader haccess =>
    refine Eq.trans ?_ (List.append_nil _).symm
    unfold told
    dsimp only
    have hannounces := (smoReader_announces hreader (hw.readers client)).1
    have hkind := Server.smoReader_access hreader
    by_cases hwrite : ∃ result effect, a = .write result effect
    · obtain ⟨result, effect, rfl⟩ := hwrite
      cases haccess
      rw [List.filter_append, List.filter_append]
      congr 1
      show List.filter _ (List.filterMap _ (State.apply _ _ _).log) = _
      rw [apply_replies, List.filter_append, announces_told hannounces, List.append_nil]
    · rw [access_replies haccess (fun result effect heq => hwrite ⟨result, effect, heq⟩)
        fun _ _ _ heq => by rw [heq] at hkind; exact hkind]

theorem run_told (hboot : Boot w) (hrun : run server w actions = some w') :
    w'.told server = w.accounts.answers server (w.history server actions) := by
  have hbegin : w.told server = [] := by
    rw [told, hboot.log, hboot.main]
    rfl
  refine (Transition.run_collect (J := fun v entries =>
    (Serving w.shared.room.players v ∧ Outbound server v) ∧
      v.accounts = w.accounts.replay server entries ∧
      v.told server = w.accounts.answers server entries) ?_ hrun
    ⟨⟨boot_serving hboot, boot_outbound server hboot⟩, rfl, hbegin⟩).2.2
  intro v action v' entries hstep ⟨⟨hserving, houtbound⟩, hreplay, htold⟩
  refine ⟨⟨step_serving hstep hserving, step_outbound hstep houtbound⟩, ?_, ?_⟩
  · rw [step_simulates hstep hserving, hreplay, ← Ledger.replay_append]
  · rw [step_told hstep houtbound, htold, hreplay, ← Ledger.answers_append]

/-- At every point of every run the answers to logins, with those that are decided already, are
the answers of the messages in the history, in this order.  Each message has the answer of its
own decision, made with the database of the step that decides it and against the accounts and
the table of the entries in front of it. -/
theorem run_answers (server : Server) (w w' : World) (actions : List Action) (hboot : Boot w)
    (hrun : run server w actions = some w') :
    w'.told server = w.accounts.answers server (w.history server actions) ∧
      (w.history server actions).filterMap Ledger.Entry.message =
        handledIn w'.shared.log ++ w'.main.inHand :=
  ⟨run_told hboot hrun, (run_histories hboot hrun).1⟩

theorem run_answers_greetWithinLogin :
    ∃ w, run ⟨128, 128, []⟩ loginPlayer greetWithinLogin = some w ∧
      w.told ⟨128, 128, []⟩ = [(4, Server.correctPassword ⟨128, 128, []⟩)] ∧
      w.told ⟨128, 128, []⟩ = loginPlayer.accounts.answers ⟨128, 128, []⟩
        (loginPlayer.history ⟨128, 128, []⟩ greetWithinLogin) ∧
      (loginPlayer.history ⟨128, 128, []⟩ greetWithinLogin).filterMap Ledger.Entry.message =
        handledIn w.shared.log ++ w.main.inHand := by
  have hany : (run ⟨128, 128, []⟩ loginPlayer greetWithinLogin).any (fun w =>
      decide (w.told ⟨128, 128, []⟩ = [(4, Server.correctPassword ⟨128, 128, []⟩)])) = true := by
    decide +kernel
  obtain ⟨w, hrun, hplace⟩ := (Option.any_eq_true _ _).mp hany
  exact ⟨w, hrun, of_decide_eq_true hplace,
    run_answers ⟨128, 128, []⟩ loginPlayer w greetWithinLogin (initial_boot _ _ _) hrun⟩

/-- A player on a socket of its own that is not logged in at the start: at every point of every
run, what was sent on its descriptor number to answer logins is 'Wrong password.' some times,
and after that 'Correct password.' once if and only if it is logged in.  Whether the descriptor
is open at a send, and whose it is then, is not asked. -/
theorem run_session (server : Server) (w w' : World) (actions : List Action) (hboot : Boot w)
    (hsockets : (w.shared.room.players.map fun c => (w.shared.heap c).socket).Nodup)
    (hrun : run server w actions = some w') (p : ClientId) (hp : p ∈ w.shared.room.players)
    (hout : (w.shared.heap p).loggedIn = false) :
    ∃ n, onSocket (w.shared.heap p).socket (w'.told server) =
      List.replicate n server.wrongPassword ++
        if (w'.accounts.account p).loggedIn = true then [server.correctPassword] else [] := by
  obtain ⟨-, hreplay, hamong⟩ := run_replay hboot hrun
  have hanswers := run_told hboot hrun
  have haccount := boot_account hboot
  have hsockets' : (w.shared.room.players.map fun c => (w.accounts.account c).socket).Nodup := by
    simp only [haccount]
    exact hsockets
  have hout' : (w.accounts.account p).loggedIn = false := by
    rw [haccount]
    exact hout
  obtain ⟨n, hn⟩ := @Ledger.answers_of_loggedOut server _ _ p _ hp hsockets' hamong hout'
  rw [haccount, ← hreplay, ← hanswers] at hn
  exact ⟨n, hn⟩

theorem loginGuess_fits : (ascii "eve").length + (ascii "pass").length ≤ 1014 := by
  decide

/-- One player that has sent a wrong password and the right one. -/
def twoTries : World :=
  initial { emptyRoom with players := [0] }
    (fun _ => Client.guest 4 [loginMessage (ascii "eve") (ascii "pass") loginGuess_fits, loginEve])
    [⟨1, ascii "eve", ascii "pw", 0⟩]

/-- The first message is handled, and the second one is decided. -/
def refuseThenAccept : List Action :=
  starting ++ steps .main 9 ++ [⟨.main, admitting⟩] ++ steps .main 3 ++ [⟨.main, admitting⟩]

theorem run_session_refuseThenAccept :
    ∃ w, run ⟨128, 128, []⟩ twoTries refuseThenAccept = some w ∧
      (onSocket 4 (w.told ⟨128, 128, []⟩)).length = 2 ∧
      ∃ n, onSocket 4 (w.told ⟨128, 128, []⟩) =
        List.replicate n (Server.wrongPassword ⟨128, 128, []⟩) ++
          if (w.accounts.account 0).loggedIn = true then [Server.correctPassword ⟨128, 128, []⟩]
          else [] := by
  have hany : (run ⟨128, 128, []⟩ twoTries refuseThenAccept).any (fun w =>
      (onSocket 4 (w.told ⟨128, 128, []⟩)).length = 2) = true := by
    decide +kernel
  obtain ⟨w, hrun, hplace⟩ := (Option.any_eq_true _ _).mp hany
  exact ⟨w, hrun, of_decide_eq_true hplace, run_session ⟨128, 128, []⟩ twoTries w
    refuseThenAccept (initial_boot _ _ _) (List.pairwise_singleton _ _) hrun 0
    (List.mem_singleton_self 0) rfl⟩

end World

end WhiteSmo
