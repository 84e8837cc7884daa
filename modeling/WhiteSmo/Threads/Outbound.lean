import WhiteSmo.Server.Transport
import WhiteSmo.Threads.World

/-!
# What clients are sent

In a run the server sends four texts, on whatever socket: the answer to a hello, the two
answers to a login, and the news that a client has left.  Two of them hold a name, and the
one byte of the header has to be enough for it.
-/

namespace WhiteSmo

/-- A body that the server sends while it runs. -/
inductive Server.Says (server : Server) : Bytes → Prop
  | hello : Says server server.helloReply
  | wrongPassword : Says server server.wrongPassword
  | correctPassword : Says server server.correctPassword
  | userLeft (name : Bytes) : Says server (server.userLeft name)

def Effect.sends : Effect → Bool
  | .send _ _ => true
  | _ => false

/-- What a write sends is one of them. -/
def Effect.Said (server : Server) (effect : Effect) : Prop :=
  ∀ socket out, effect = .send socket out → server.Says out

/-- What a write sends is the news that a client has left. -/
def Effect.Announces (server : Server) (effect : Effect) : Prop :=
  ∀ socket out, effect = .send socket out → ∃ name, out = server.userLeft name

theorem Effect.Announces.said {server : Server} {effect : Effect} (h : effect.Announces server) :
    effect.Said server := by
  intro socket out heq
  obtain ⟨name, rfl⟩ := h socket out heq
  exact .userLeft name

/-- What the log says was sent is one of them. -/
def SaidIn (server : Server) (log : List Event) : Prop :=
  ∀ socket out, .sent socket out ∈ log → server.Says out

/-- The writes that the main thread has decided on. -/
def MainPc.pending : MainPc → List Effect
  | .handle _ _ _ _ effects _ => effects
  | _ => []

/-- The writes that a reader has decided on. -/
def ReaderPc.pending : ReaderPc → List Effect
  | .notify _ effects => effects
  | _ => []

/-- The bodies that were sent on a socket. -/
def sentTo (socket : Socket) (log : List Event) : List Bytes :=
  log.filterMap fun
    | .sent s out => if s = socket then some out else none
    | _ => none

theorem mem_sentTo {socket : Socket} {log : List Event} {out : Bytes} :
    out ∈ sentTo socket log ↔ .sent socket out ∈ log := by
  rw [sentTo, List.mem_filterMap]
  constructor
  · rintro ⟨event, hevent, hout⟩
    cases event with
    | sent s body =>
      dsimp only at hout
      split at hout
      case isTrue hsocket =>
        cases hout
        exact hsocket ▸ hevent
      case isFalse => cases hout
    | _ => cases hout
  · exact fun hevent => ⟨_, hevent, if_pos rfl⟩

namespace Server

variable (server : Server)

theorem announces_of_quiet {effect : Effect} (h : effect.sends = false) :
    effect.Announces server := by
  rintro socket out rfl
  cases h

theorem said_of_quiet {effect : Effect} (h : effect.sends = false) : effect.Said server :=
  (announces_of_quiet server h).said

theorem said_send {socket : Socket} {out : Bytes} (h : server.Says out) :
    (Effect.send socket out).Said server := by
  intro s body heq
  cases heq
  exact h

theorem accept_said (socket : Socket) : ∀ effect ∈ server.accept socket, effect.Said server := by
  rw [accept, List.forall_mem_cons, List.forall_mem_singleton]
  exact ⟨said_send server .correctPassword, said_of_quiet server rfl⟩

theorem refuse_said (socket : Socket) (row : Row) :
    ∀ effect ∈ server.refuse socket row, effect.Said server := by
  unfold refuse
  split
  · rw [List.forall_mem_cons, List.forall_mem_singleton]
    exact ⟨said_of_quiet server rfl,
      said_of_quiet server rfl⟩
  · rw [List.forall_mem_singleton]
    exact said_send server .wrongPassword

theorem afterLoop_said (db : Database) (users : List Row) (client : Client) (name password : Bytes)
    (foundUser : Bool) :
    ∀ effect ∈ server.afterLoop db users client name password foundUser, effect.Said server := by
  unfold afterLoop
  split
  · exact accept_said server client.socket
  · split
    · rw [List.forall_mem_cons, List.forall_mem_singleton]
      exact ⟨said_of_quiet server rfl, said_of_quiet server rfl⟩
    · rw [List.forall_mem_cons, List.forall_mem_cons]
      exact ⟨said_of_quiet server rfl,
        said_of_quiet server rfl, accept_said server client.socket⟩

theorem names_said {effects : List Effect} (h : ∀ effect ∈ effects, effect.Said server)
    (names : List Bytes) :
    ∀ effect ∈ names.map Effect.setName ++ effects, effect.Said server := by
  rw [List.forall_mem_append]
  refine ⟨fun effect heffect => ?_, h⟩
  obtain ⟨name, -, rfl⟩ := List.mem_map.mp heffect
  exact said_of_quiet server rfl

theorem handleInput_said (db : Database) (users : List Row) (client : Client) (input : Packet) :
    ∀ effect ∈ server.handleInput db users client input, effect.Said server := by
  unfold handleInput
  split
  case isFalse => exact fun _ hnil => absurd hnil List.not_mem_nil
  case isTrue =>
    cases credentials input with
    | none =>
      rw [List.forall_mem_singleton]
      exact said_of_quiet server rfl
    | some values =>
      obtain ⟨name, password⟩ := values
      show ∀ effect ∈ server.login db users client name password, effect.Said server
      rcases login_cases server db users client name password with
        ⟨-, names, row, heq⟩ | ⟨-, names, foundUser, -, heq⟩
      · rw [heq]
        exact names_said server (refuse_said server client.socket row) names
      · rw [heq]
        exact names_said server
          (afterLoop_said server db users client name password foundUser) names

theorem disconnectClient_announces (room : Room) (heap : ClientId → Client) (client : Client) :
    ∀ effect ∈ server.disconnectClient room heap client, effect.Announces server := by
  intro effect heffect
  obtain ⟨c, -, rfl⟩ := List.mem_map.mp heffect
  intro socket out heq
  cases heq
  exact ⟨client.name, rfl⟩

end Server

section

variable {server : Server} {t : Thread} {s s' : Shared} {a : Access}

def Access.Said (server : Server) : Access → Prop
  | .write _ effect => effect.Said server
  | _ => True

def Access.Announces (server : Server) : Access → Prop
  | .write _ effect => effect.Announces server
  | _ => True

theorem Access.Announces.said (h : a.Announces server) : a.Said server := by
  cases a with
  | write client effect => exact Effect.Announces.said h
  | _ => trivial

theorem saidIn_append {log log' : List Event} (h : SaidIn server log) (h' : SaidIn server log') :
    SaidIn server (log ++ log') :=
  fun socket out hsent => (List.mem_append.mp hsent).elim (h socket out) (h' socket out)

theorem saidIn_quiet {log : List Event} (h : SaidIn server log) {event : Event}
    (hquiet : ∀ socket out, event ≠ .sent socket out) : SaidIn server (log ++ [event]) :=
  saidIn_append h fun socket out hsent =>
    absurd (List.mem_singleton.mp hsent).symm (hquiet socket out)

theorem access_saidIn (h : s.access server t a = some s') (ha : a.Said server)
    (hlog : SaidIn server s.log) : SaidIn server s'.log := by
  cases a with
  | lock =>
    obtain ⟨-, rfl⟩ := Shared.access_lock_iff.mp h
    exact hlog
  | accept socket =>
    obtain ⟨-, rfl⟩ := Shared.access_accept_iff.mp h
    exact saidIn_quiet hlog fun _ _ heq => by cases heq
  | close socket =>
    cases h
    exact saidIn_quiet hlog fun _ _ heq => by cases heq
  | handled client input =>
    cases h
    exact saidIn_quiet hlog fun _ _ heq => by cases heq
  | push client input =>
    cases h
    exact saidIn_quiet hlog fun _ _ heq => by cases heq
  | write client effect =>
    cases h
    cases effect with
    | send socket out =>
      refine saidIn_append hlog fun s' out' hsent => ?_
      cases List.mem_singleton.mp hsent
      exact ha _ _ rfl
    | disconnect socket => exact saidIn_quiet hlog fun _ _ heq => by cases heq
    | _ => exact hlog
  | writeBack clients client =>
    cases h
    show SaidIn server (Server.writeBack clients s.toState client).log
    rw [Server.writeBack_log]
    exact hlog
  | answer env socket ip =>
    cases h
    refine saidIn_append hlog fun s' out hsent => ?_
    rcases List.mem_cons.mp hsent with heq | hother
    · cases heq
      exact .hello
    · simp at hother
  | _ => cases h; exact hlog

theorem start_said {env : Env} {main pc : MainPc} (hstart : server.start env s main = (a, pc))
    (hmain : ∀ effect ∈ main.pending, effect.Said server) :
    a.Said server ∧ ∀ effect ∈ pc.pending, effect.Said server := by
  have hnothing : ∀ effect ∈ ([] : List Effect), effect.Said server :=
    fun _ hnil => absurd hnil List.not_mem_nil
  cases Server.startStep_of_start hstart with
  | input => exact ⟨trivial, Server.handleInput_said server _ _ _ _⟩
  | write => exact List.forall_mem_cons.mp hmain
  | _ => exact ⟨trivial, hnothing⟩

theorem smoReader_announces {env : Env} {client : ClientId} {reader pc : ReaderPc}
    (hreader : server.smoReader env client s reader = some (a, pc))
    (hpending : ∀ effect ∈ reader.pending, effect.Announces server) :
    a.Announces server ∧ ∀ effect ∈ pc.pending, effect.Announces server := by
  have hnothing : ∀ effect ∈ ([] : List Effect), effect.Announces server :=
    fun _ hnil => absurd hnil List.not_mem_nil
  cases Server.readerStep_of_smoReader hreader with
  | closedLoggedIn => exact ⟨trivial, Server.disconnectClient_announces server _ _ _⟩
  | notify => exact List.forall_mem_cons.mp hpending
  | close | clear => exact ⟨Server.announces_of_quiet server rfl, hnothing⟩
  | _ => exact ⟨trivial, hnothing⟩

end

namespace World

/-- The invariant of a run: what was sent, and what is going to be. -/
structure Outbound (server : Server) (w : World) : Prop where
  log : SaidIn server w.shared.log
  main : ∀ effect ∈ w.main.pending, effect.Said server
  readers : ∀ client, ∀ effect ∈ (w.readers client).pending, effect.Announces server

theorem step_outbound {server : Server} {w w' : World} {action : Action}
    (h : step server w action = some w') (hw : Outbound server w) : Outbound server w' := by
  cases (stepBy_of_step h).2 with
  | main hstart haccess =>
    obtain ⟨hwrite, hpending⟩ := start_said hstart hw.main
    exact ⟨access_saidIn haccess hwrite hw.log, hpending, hw.readers⟩
  | listener _ hlistener haccess =>
    refine ⟨access_saidIn haccess ?_ hw.log, hw.main, hw.readers⟩
    generalize w.listener = listener at hlistener
    cases Server.listenerStep_of_smoListener hlistener <;> trivial
  | @reader env client a pc s _ hreader haccess =>
    obtain ⟨hwrite, hpending⟩ := smoReader_announces hreader (hw.readers client)
    refine ⟨access_saidIn haccess hwrite.said hw.log, hw.main, fun other => ?_⟩
    by_cases hother : other = client
    · subst hother
      simpa using hpending
    · simpa [hother] using hw.readers other

theorem boot_outbound (server : Server) {w : World} (hboot : Boot w) : Outbound server w := by
  refine ⟨fun socket out hsent => ?_, fun effect heffect => ?_, fun client effect heffect => ?_⟩
  · rw [hboot.log] at hsent
    cases hsent
  · rw [hboot.main] at heffect
    cases heffect
  · rw [hboot.readers] at heffect
    cases heffect

/-- The texts are short, names apart. -/
theorem decodable_iff {server : Server} {log : List Event} (hlog : SaidIn server log)
    (socket : Socket) :
    Framing.decode 4 (Framing.encode header (sentTo socket log)) =
        some (sentTo socket log) ↔
      (server.helloReply ∈ sentTo socket log → server.name.length ≤ 253) ∧
        ∀ name, server.userLeft name ∈ sentTo socket log → name.length ≤ 243 := by
  rw [Framing.decode_encode_iff header (by decide) header_length]
  simp only [readLength_header_eq_iff]
  constructor
  · intro h
    refine ⟨fun hhello => ?_, fun name hleft => ?_⟩
    · have hlength := h _ hhello
      rw [Server.helloReply_length] at hlength
      omega
    · have hlength := h _ hleft
      rw [Server.userLeft_length] at hlength
      omega
  · rintro ⟨hhello, hleft⟩ out hout
    have hsays := hlog socket out (mem_sentTo.mp hout)
    cases hsays with
    | hello =>
      rw [Server.helloReply_length]
      have hname := hhello hout
      omega
    | wrongPassword =>
      rw [Server.wrongPassword_length]
      omega
    | correctPassword =>
      rw [Server.correctPassword_length]
      omega
    | userLeft name =>
      rw [Server.userLeft_length]
      have hname := hleft name hout
      omega

/-- At every point of every run, and however the system cuts the bytes: let `part` be the part
of the log that belongs to one connection, in which each `Send` is one step of its thread.
When every one of them has succeeded, the peer decodes what was sent there exactly when the
name of the server has at most 253 bytes, if it was sent there, and each name of a client that
has left at most 243. -/
theorem run_delivered (server : Server) (w w' : World) (actions : List Action) (hboot : Boot w)
    (hrun : run server w actions = some w') (part : List Event) (hpart : part <:+: w'.shared.log)
    (socket : Socket) (outcomes : List Transport.Outcome) (hprogress : Transport.Progresses outcomes)
    (hmany : (Framing.encode header (sentTo socket part)).length ≤ outcomes.length) :
    ∃ sents, Transport.sendAll socket (sentTo socket part) outcomes = some sents ∧
      ((∀ sent ∈ sents, sent.result = some true) →
        (Framing.decode 4 (Transport.wire sents) = some (sentTo socket part) ↔
          (server.helloReply ∈ sentTo socket part → server.name.length ≤ 253) ∧
            ∀ name, server.userLeft name ∈ sentTo socket part → name.length ≤ 243)) := by
  have hw : Outbound server w' :=
    Transition.run_invariant (fun _ _ _ => step_outbound) hrun (boot_outbound server hboot)
  have hlog : SaidIn server part := fun s out hsent => hw.log s out (hpart.subset hsent)
  obtain ⟨sents, hsents⟩ :=
    Option.isSome_iff_exists.mp (@Transport.sendAll_isSome socket _ _ hprogress hmany)
  refine ⟨sents, hsents, fun hsuccess => ?_⟩
  rw [(Transport.wire_eq_iff hsents).2.mpr hsuccess]
  exact decodable_iff hlog socket

/-- The answer to a hello, three bytes at a time. -/
theorem run_delivered_greeting :
    ∃ w, run ⟨128, 128, []⟩ emptyStart (starting ++ accepting ++ greeting) = some w ∧
      sentTo 5 w.shared.log = [Server.helloReply ⟨128, 128, []⟩] ∧
      ∃ sents, Transport.sendAll 5 (sentTo 5 w.shared.log) (List.replicate 9 (.took 3)) =
          some sents ∧
        ((∀ sent ∈ sents, sent.result = some true) →
          (Framing.decode 4 (Transport.wire sents) = some (sentTo 5 w.shared.log) ↔
            (Server.helloReply ⟨128, 128, []⟩ ∈ sentTo 5 w.shared.log →
                ([] : Bytes).length ≤ 253) ∧
              ∀ name, Server.userLeft ⟨128, 128, []⟩ name ∈ sentTo 5 w.shared.log →
                name.length ≤ 243)) := by
  have hany : (run ⟨128, 128, []⟩ emptyStart (starting ++ accepting ++ greeting)).any (fun w =>
      decide (sentTo 5 w.shared.log = [Server.helloReply ⟨128, 128, []⟩])) = true := by
    decide +kernel
  obtain ⟨w, hrun, hplace⟩ := (Option.any_eq_true _ _).mp hany
  have hsent := of_decide_eq_true hplace
  refine ⟨w, hrun, hsent, run_delivered ⟨128, 128, []⟩ emptyStart w _ (initial_boot _ _ _) hrun _
    List.infix_rfl 5 _ (fun limit hlimit => ?_) ?_⟩
  · cases List.eq_of_mem_replicate hlimit
    decide
  · rw [hsent]
    decide +kernel

end World

end WhiteSmo
