import WhiteSmo.Threads.World

/-!
# One message after another

The main thread handles a message in many steps, and the listener and the readers run
between them.  What becomes of the accounts does not depend on where they do: a ledger that
is given whole messages, one after another and in the order of the log, has the same accounts
and the same table at every point of every run.

A message is in the ledger from the step in which its writes are decided.  The writes that
are still to be made belong to it already.
-/

namespace WhiteSmo

/-- The part of a client object that a login is about, and the socket by which `Update`
finds the object. -/
structure Account where
  socket : Socket
  loggedIn : Bool
  roomID : UInt32
  name : Bytes
  type : ClientType
  deriving DecidableEq

def Client.account (c : Client) : Account := ⟨c.socket, c.loggedIn, c.roomID, c.name, c.type⟩

/-- A client object with the account. -/
def Account.client (a : Account) : Client where
  connected := false
  loggedIn := a.loggedIn
  roomID := a.roomID
  vInput := []
  ip := []
  name := a.name
  socket := a.socket
  type := a.type

@[simp] theorem Account.account_client (a : Account) : a.client.account = a := rfl

/-- The accounts and the table, and which messages and which hellos have made them. -/
@[ext]
structure Ledger where
  users : List Row
  account : ClientId → Account
  handled : List (ClientId × Packet)
  answered : List (ClientId × Socket)

namespace Ledger

/-- What is done to a ledger. -/
inductive Entry
  /-- A whole message. -/
  | handle (client : ClientId) (input : Packet) (db : Database)
  /-- One round of the second loop of `Update`. -/
  | writeBack (clients : List ClientId) (client : ClientId)
  /-- A hello that is answered. -/
  | greet (client : ClientId) (socket : Socket) (type : ClientType)

/-- The message that an entry is. -/
def Entry.message : Entry → Option (ClientId × Packet)
  | .handle client input _ => some (client, input)
  | _ => none

def Entry.greeting : Entry → Option (ClientId × Socket)
  | .greet client socket _ => some (client, socket)
  | _ => none

/-- The main thread serves the players, and a hello makes a new object. -/
def Entry.Among (players : List ClientId) : Entry → Prop
  | .handle client _ _ => client ∈ players
  | .writeBack clients client => clients = players ∧ client ∈ players
  | .greet client _ _ => client ∉ players

def modify (l : Ledger) (client : ClientId) (f : Account → Account) : Ledger :=
  { l with account := Function.update l.account client (f (l.account client)) }

/-- What a write of `State.apply` is to a ledger. -/
def apply (client : ClientId) (l : Ledger) : Effect → Ledger
  | .setName name => l.modify client fun a => { a with name := name }
  | .setLoggedIn loggedIn => l.modify client fun a => { a with loggedIn := loggedIn }
  | .setRoomID roomID => l.modify client fun a => { a with roomID := roomID }
  | .setUsers users => { l with users := users }
  | .setConnected _ | .send _ _ | .disconnect _ | .throw | .undefined => l

def applyAll (client : ClientId) (l : Ledger) (effects : List Effect) : Ledger :=
  effects.foldl (apply client) l

def handle (server : Server) (client : ClientId) (input : Packet) (db : Database) (l : Ledger) :
    Ledger :=
  { l with handled := l.handled ++ [(client, input)] }.applyAll client
    (server.handleInput db l.users (l.account client).client input)

def writeBack (clients : List ClientId) (client : ClientId) (l : Ledger) : Ledger :=
  match clients.find? fun c => (l.account client).socket = (l.account c).socket with
  | none => l
  | some result => l.modify result fun a => { l.account client with socket := a.socket }

def greet (client : ClientId) (socket : Socket) (type : ClientType) (l : Ledger) : Ledger :=
  { l with
    account := Function.update l.account client ⟨socket, false, 0, [], type⟩
    answered := l.answered ++ [(client, socket)] }

def perform (server : Server) (l : Ledger) : Entry → Ledger
  | .handle client input db => l.handle server client input db
  | .writeBack clients client => l.writeBack clients client
  | .greet client socket type => l.greet client socket type

/-- The entries one after another, each as a whole. -/
def replay (server : Server) (l : Ledger) (entries : List Entry) : Ledger :=
  entries.foldl (perform server) l

theorem replay_append (server : Server) (l : Ledger) (entries entries' : List Entry) :
    l.replay server (entries ++ entries') = (l.replay server entries).replay server entries' :=
  List.foldl_append

section

variable (l : Ledger) (client : ClientId)

@[simp] theorem applyAll_nil : l.applyAll client [] = l := rfl

@[simp] theorem applyAll_cons (effect : Effect) (effects : List Effect) :
    l.applyAll client (effect :: effects) = (l.apply client effect).applyAll client effects := rfl

theorem apply_account_of_ne {c client : ClientId} (h : c ≠ client) (effect : Effect) :
    (l.apply client effect).account c = l.account c := by
  cases effect <;> simp [apply, modify, h]

theorem applyAll_account_of_ne {c client : ClientId} (h : c ≠ client) (effects : List Effect) :
    (l.applyAll client effects).account c = l.account c := by
  induction effects generalizing l with
  | nil => rfl
  | cons effect effects ih => rw [applyAll_cons, ih, apply_account_of_ne l h]

theorem apply_socket (c : ClientId) (effect : Effect) :
    ((l.apply client effect).account c).socket = (l.account c).socket := by
  by_cases h : c = client
  · subst h
    cases effect <;> simp [apply, modify]
  · rw [apply_account_of_ne l h]

theorem applyAll_socket (c : ClientId) (effects : List Effect) :
    ((l.applyAll client effects).account c).socket = (l.account c).socket := by
  induction effects generalizing l with
  | nil => rfl
  | cons effect effects ih => rw [applyAll_cons, ih, apply_socket]

end

theorem applyAll_handled (l : Ledger) (client : ClientId) (effects : List Effect) :
    (l.applyAll client effects).handled = l.handled := by
  induction effects generalizing l with
  | nil => rfl
  | cons effect effects ih =>
    rw [applyAll_cons, ih]
    cases effect <;> rfl

theorem applyAll_answered (l : Ledger) (client : ClientId) (effects : List Effect) :
    (l.applyAll client effects).answered = l.answered := by
  induction effects generalizing l with
  | nil => rfl
  | cons effect effects ih =>
    rw [applyAll_cons, ih]
    cases effect <;> rfl

theorem writeBack_histories (l : Ledger) (clients : List ClientId) (client : ClientId) :
    (l.writeBack clients client).handled = l.handled ∧
      (l.writeBack clients client).answered = l.answered := by
  unfold writeBack
  split <;> exact ⟨rfl, rfl⟩

theorem replay_handled (server : Server) (l : Ledger) (entries : List Entry) :
    (l.replay server entries).handled = l.handled ++ entries.filterMap Entry.message := by
  induction entries generalizing l with
  | nil => exact (List.append_nil _).symm
  | cons entry entries ih =>
    rw [replay, List.foldl_cons, ← replay, ih]
    cases entry with
    | handle client input db =>
      rw [perform, handle, applyAll_handled, List.append_assoc]
      rfl
    | writeBack clients client => rw [perform, (writeBack_histories l clients client).1]; rfl
    | greet client socket type => rfl

theorem replay_answered (server : Server) (l : Ledger) (entries : List Entry) :
    (l.replay server entries).answered = l.answered ++ entries.filterMap Entry.greeting := by
  induction entries generalizing l with
  | nil => exact (List.append_nil _).symm
  | cons entry entries ih =>
    rw [replay, List.foldl_cons, ← replay, ih]
    cases entry with
    | handle client input db => rw [perform, handle, applyAll_answered]; rfl
    | writeBack clients client => rw [perform, (writeBack_histories l clients client).2]; rfl
    | greet client socket type =>
      rw [perform, greet, List.append_assoc]
      rfl

/-- A new object can come between the writes to another one. -/
theorem apply_greet (l : Ledger) {c client : ClientId} (h : c ≠ client) (socket : Socket)
    (type : ClientType) (effect : Effect) :
    (l.greet c socket type).apply client effect = (l.apply client effect).greet c socket type := by
  cases effect <;>
    simp [apply, greet, modify, Function.update_comm h, Function.update_of_ne (Ne.symm h)]

theorem applyAll_greet (l : Ledger) {c client : ClientId} (h : c ≠ client) (socket : Socket)
    (type : ClientType) (effects : List Effect) :
    (l.greet c socket type).applyAll client effects =
      (l.applyAll client effects).greet c socket type := by
  induction effects generalizing l with
  | nil => rfl
  | cons effect effects ih => rw [applyAll_cons, applyAll_cons, apply_greet l h, ih]

end Ledger

/-! ## The ledger of a state -/

/-- What was handled, in the order of the log. -/
def handledIn (log : List Event) : List (ClientId × Packet) :=
  log.filterMap fun
    | .handled client input => some (client, input)
    | _ => none

/-- Who was greeted, in the order of the log. -/
def answeredIn (log : List Event) : List (ClientId × Socket) :=
  log.filterMap fun
    | .answered client socket => some (client, socket)
    | _ => none

/-- The message that the main thread is handling. -/
def MainPc.inHand : MainPc → List (ClientId × Packet)
  | .handle _ client _ input _ _ => [(client, input)]
  | _ => []

/-- The writes that it has decided on and not made yet. -/
def MainPc.finish (l : Ledger) : MainPc → Ledger
  | .handle _ client _ _ effects _ => l.applyAll client effects
  | _ => l

def State.ledger (s : State) (inHand : List (ClientId × Packet)) : Ledger where
  users := s.users
  account := fun c => (s.heap c).account
  handled := handledIn s.log ++ inHand
  answered := answeredIn s.log

def World.accounts (w : World) : Ledger := w.main.finish (w.shared.ledger w.main.inHand)

namespace State

variable (s : State) (inHand : List (ClientId × Packet)) (client : ClientId)

theorem ledger_modify {f : Client → Client} {g : Account → Account}
    (h : ∀ c, (f c).account = g c.account) :
    (s.modify client f).ledger inHand = (s.ledger inHand).modify client g := by
  have haccount : (fun c => ((s.modify client f).heap c).account) =
      Function.update (fun c => (s.heap c).account) client (g (s.heap client).account) := by
    funext c
    by_cases hc : c = client
    · subst hc
      simp [h]
    · simp [modify_heap_of_ne s hc, hc]
  rw [ledger, haccount]
  rfl

theorem ledger_modify_same {f : Client → Client} (h : ∀ c, (f c).account = c.account) :
    (s.modify client f).ledger inHand = s.ledger inHand := by
  rw [s.ledger_modify inHand client (g := id) h, Ledger.modify]
  simp

theorem ledger_record {event : Event} (hhandled : handledIn [event] = [])
    (hanswered : answeredIn [event] = []) :
    (s.record event).ledger inHand = s.ledger inHand := by
  have hhandled' : handledIn (s.log ++ [event]) = handledIn s.log := by
    rw [handledIn, List.filterMap_append, ← handledIn, ← handledIn, hhandled, List.append_nil]
  have hanswered' : answeredIn (s.log ++ [event]) = answeredIn s.log := by
    rw [answeredIn, List.filterMap_append, ← answeredIn, ← answeredIn, hanswered,
      List.append_nil]
  rw [ledger, record_log, hhandled', hanswered']
  rfl

/-- A write to an object is the same write to its account. -/
theorem ledger_apply (effect : Effect) :
    (s.apply client effect).ledger inHand = (s.ledger inHand).apply client effect := by
  cases effect with
  | setName name => exact s.ledger_modify inHand client (g := fun a => { a with name }) fun _ => rfl
  | setLoggedIn loggedIn =>
    exact s.ledger_modify inHand client (g := fun a => { a with loggedIn }) fun _ => rfl
  | setRoomID roomID =>
    exact s.ledger_modify inHand client (g := fun a => { a with roomID }) fun _ => rfl
  | setConnected connected => exact s.ledger_modify_same inHand client fun _ => rfl
  | send socket out => exact s.ledger_record inHand rfl rfl
  | disconnect socket => exact s.ledger_record inHand rfl rfl
  | setUsers users => rfl
  | throw => rfl
  | undefined => rfl

theorem ledger_applyAll (effects : List Effect) :
    (s.applyAll client effects).ledger inHand = (s.ledger inHand).applyAll client effects := by
  induction effects generalizing s with
  | nil => rfl
  | cons effect effects ih =>
    rw [Ledger.applyAll_cons, ← ledger_apply, ← ih]
    rfl

/-- `Update` finds the same object in the ledger. -/
theorem ledger_writeBack (clients : List ClientId) :
    (Server.writeBack clients s client).ledger inHand =
      (s.ledger inHand).writeBack clients client := by
  have hfind : (clients.find? fun c => ((s.ledger inHand).account client).socket =
      ((s.ledger inHand).account c).socket) = findClient s.heap clients client := rfl
  unfold Server.writeBack Ledger.writeBack
  rw [hfind]
  cases findClient s.heap clients client with
  | none => rfl
  | some result => exact s.ledger_modify inHand result fun _ => rfl

end State

/-! ## What the threads do to it -/

/-- The accesses that a ledger shows. -/
def Access.aboutAccounts : Access → Bool
  | .write _ _ | .handled _ _ | .writeBack _ _ | .answer _ _ _ => true
  | _ => false

/-- The writes that a ledger shows. -/
def Effect.aboutAccounts : Effect → Bool
  | .setName _ | .setLoggedIn _ | .setRoomID _ | .setUsers _ => true
  | _ => false

theorem Ledger.apply_of_not_about (l : Ledger) (client : ClientId) {effect : Effect}
    (h : effect.aboutAccounts = false) : l.apply client effect = l := by
  cases effect <;> first | rfl | cases h

/-- What a step of the main thread from here is to a ledger: a message in the step that
decides its writes, and a write-back. -/
def MainPc.entries (db : Database) : MainPc → List Ledger.Entry
  | .inputs _ client _ (input :: _) => [.handle client input db]
  | .back clients client _ => [.writeBack clients client]
  | _ => []

/-- What a step of the listener is to it: the hello section, unless it throws. -/
def ListenerPc.entries (next : ClientId) (type : ClientType) : ListenerPc → List Ledger.Entry
  | .hello socket _ input => if (helloName input).isSome then [.greet next socket type] else []
  | _ => []

/-- What a step is to a ledger. -/
def World.entries (w : World) (action : Action) : List Ledger.Entry :=
  match action.thread with
  | .main => w.main.entries action.env.db
  | .listener => w.listener.entries w.shared.next action.env.type
  | .reader _ => []

/-- The entries of the steps of a run, each from the step that makes it. -/
def World.history (server : Server) (w : World) (actions : List Action) : List Ledger.Entry :=
  Transition.collect (step server) entries w actions

theorem access_ledger {server : Server} {t : Thread} {s s' : Shared} {a : Access}
    (h : s.access server t a = some s') (hother : a.aboutAccounts = false)
    (inHand : List (ClientId × Packet)) : s'.ledger inHand = s.ledger inHand := by
  cases a with
  | lock =>
    obtain ⟨-, rfl⟩ := Shared.access_lock_iff.mp h
    rfl
  | accept socket =>
    obtain ⟨-, rfl⟩ := Shared.access_accept_iff.mp h
    exact s.ledger_record inHand rfl rfl
  | close socket =>
    cases h
    exact s.ledger_record inHand rfl rfl
  | clearInput client =>
    cases h
    exact s.ledger_modify_same inHand client fun _ => rfl
  | push client input =>
    cases h
    refine (State.ledger_record _ inHand rfl rfl).trans ?_
    exact s.ledger_modify_same inHand client fun _ => rfl
  | write | handled | writeBack | answer => cases hother
  | _ => cases h; rfl

theorem access_next {server : Server} {t : Thread} {s s' : Shared} {a : Access}
    (h : s.access server t a = some s') (hother : ∀ env socket ip, a ≠ .answer env socket ip) :
    s'.next = s.next := by
  cases a with
  | lock =>
    obtain ⟨-, rfl⟩ := Shared.access_lock_iff.mp h
    rfl
  | accept socket =>
    obtain ⟨-, rfl⟩ := Shared.access_accept_iff.mp h
    rfl
  | answer env socket ip => exact absurd rfl (hother env socket ip)
  | _ => cases h; rfl

/-- Writes of which only the last one logs the client in. -/
inductive Settling : List Effect → Prop
  | nil : Settling []
  | other {effect : Effect} {effects : List Effect} (hother : ∀ b, effect ≠ .setLoggedIn b)
      (hrest : Settling effects) : Settling (effect :: effects)
  | loggedIn : Settling [.setLoggedIn true]

theorem Settling.names {effects : List Effect} (h : Settling effects) (names : List Bytes) :
    Settling (names.map Effect.setName ++ effects) := by
  induction names with
  | nil => exact h
  | cons name names ih => exact .other (fun _ heq => by cases heq) ih

namespace Server

theorem refuse_settling (server : Server) (socket : Socket) (row : Row) :
    Settling (server.refuse socket row) := by
  unfold refuse
  split
  · exact .other (fun _ heq => by cases heq) (.other (fun _ heq => by cases heq) .nil)
  · exact .other (fun _ heq => by cases heq) .nil

theorem afterLoop_settling (server : Server) (db : Database) (users : List Row) (client : Client)
    (name password : Bytes) (foundUser : Bool) :
    Settling (server.afterLoop db users client name password foundUser) := by
  have haccept : Settling (server.accept client.socket) :=
    .other (fun _ heq => by cases heq) .loggedIn
  unfold afterLoop
  split
  · exact haccept
  · split
    · exact .other (fun _ heq => by cases heq) (.other (fun _ heq => by cases heq) .nil)
    · exact .other (fun _ heq => by cases heq) (.other (fun _ heq => by cases heq) haccept)

theorem handleInput_settling (server : Server) (db : Database) (users : List Row) (client : Client)
    (input : Packet) : Settling (server.handleInput db users client input) := by
  unfold handleInput
  split
  case isFalse => exact .nil
  case isTrue =>
    cases credentials input with
    | none => exact .other (fun _ heq => by cases heq) .nil
    | some values =>
      obtain ⟨name, password⟩ := values
      show Settling (server.login db users client name password)
      rcases login_cases server db users client name password with
        ⟨-, names, row, heq⟩ | ⟨-, names, foundUser, -, heq⟩
      · rw [heq]
        exact (refuse_settling server client.socket row).names names
      · rw [heq]
        exact (afterLoop_settling server db users client name password foundUser).names names

/-- A client that is logged in is not written to. -/
theorem handleInput_of_loggedIn {server : Server} {db : Database} {users : List Row}
    {client : Client} {input : Packet} (h : client.loggedIn = true) :
    server.handleInput db users client input = [] := by
  rw [handleInput, if_neg]
  intro hlogin
  rw [h] at hlogin
  cases hlogin.2

end Server

/-- The locals of the main thread are players, and nothing is left to be written to one that
is logged in. -/
def MainPc.Serves (players : List ClientId) (account : ClientId → Account) : MainPc → Prop
  | .leave clients => clients = players
  | .turns clients todo | .backs clients todo | .backed clients todo =>
    clients = players ∧ todo ⊆ players
  | .copy clients client todo | .clear clients client _ todo _ | .taken clients client todo _
  | .inputs clients client todo _ | .back clients client todo =>
    clients = players ∧ client ∈ players ∧ todo ⊆ players
  | .handle clients client todo _ effects _ =>
    (clients = players ∧ client ∈ players ∧ todo ⊆ players) ∧ Settling effects ∧
      ((account client).loggedIn = true → effects = [])
  | _ => True

/-- `DisconnectClient` writes to no account. -/
def ReaderPc.Tells : ReaderPc → Prop
  | .notify _ effects => ∀ effect ∈ effects, effect.aboutAccounts = false
  | _ => True

namespace World

/-- The invariant of a run. -/
structure Serving (players : List ClientId) (w : World) : Prop where
  room : w.shared.room.players = players
  fresh : ∀ c ∈ players, c < w.shared.next
  main : w.main.Serves players fun c => (w.shared.heap c).account
  readers : ∀ client, (w.readers client).Tells

variable {server : Server} {env : Env} {players : List ClientId} {w w' : World} {s : Shared}
  {a : Access} {actions : List Action}

theorem Serves.congr {pc : MainPc} {account account' : ClientId → Account}
    (h : pc.Serves players account) (haccount : ∀ c ∈ players, account' c = account c) :
    pc.Serves players account' := by
  cases pc with
  | handle clients client todo input effects vInput =>
    obtain ⟨hclients, hsettling, hlogged⟩ := h
    exact ⟨hclients, hsettling, haccount client hclients.2.1 ▸ hlogged⟩
  | _ => exact h

theorem account_of_ledger {s s' : Shared} {inHand : List (ClientId × Packet)}
    (h : s'.ledger inHand = s.ledger inHand) (c : ClientId) :
    (s'.heap c).account = (s.heap c).account :=
  congrFun (congrArg Ledger.account h) c

theorem start_serves {pc : MainPc} (hstart : server.start env w.shared w.main = (a, pc))
    (haccess : w.shared.access server .main a = some s) (hw : Serving players w) :
    pc.Serves players fun c => (s.heap c).account := by
  have hmain := hw.main
  have hquiet : a.aboutAccounts = false → ∀ pc : MainPc,
      (pc.Serves players fun c => (w.shared.heap c).account) →
        pc.Serves players fun c => (s.heap c).account :=
    fun hother pc hpc => Serves.congr hpc fun c _ =>
      account_of_ledger (access_ledger haccess hother []) c
  generalize w.main = main at hstart hmain
  cases Server.startStep_of_start hstart with
  | manager => exact hquiet rfl _ hw.room
  | leave => exact hquiet rfl _ ⟨hmain, hmain ▸ List.Subset.refl _⟩
  | turnsEnd => exact hquiet rfl _ ⟨hmain.1, hmain.1 ▸ List.Subset.refl _⟩
  | turn | back =>
    obtain ⟨hclient, htodo⟩ := List.cons_subset.mp hmain.2
    exact hquiet rfl _ ⟨hmain.1, hclient, htodo⟩
  | notFound | copy | clear | taken | backed => exact hquiet rfl _ hmain
  | inputsEnd => exact hquiet rfl _ ⟨hmain.1, hmain.2.2⟩
  | input =>
    exact hquiet rfl _ ⟨hmain, Server.handleInput_settling _ _ _ _ _,
      fun hlogged => Server.handleInput_of_loggedIn hlogged⟩
  | handled => exact hmain.1
  | @write clients todo client input effect effects vInput =>
    cases haccess
    obtain ⟨hclients, hsettling, hlogged⟩ := hmain
    refine ⟨hclients, ?_⟩
    cases hsettling with
    | loggedIn => exact ⟨.nil, fun _ => rfl⟩
    | other hother hrest =>
      refine ⟨hrest, fun htrue => ?_⟩
      have hsame : ((w.shared.apply client effect).heap client).loggedIn =
          (w.shared.heap client).loggedIn := by
        cases effect with
        | setLoggedIn b => exact absurd rfl (hother b)
        | _ => simp [State.apply]
      cases hlogged (hsame.symm.trans htrue)
  | writeBack => exact ⟨hmain.1, hmain.2.2⟩
  | _ => trivial

/-- What a reader or the listener does to an object that is there is not about its account. -/
theorem smoReader_ledger {client : ClientId} {pc : ReaderPc}
    (hreader : server.smoReader env client w.shared (w.readers client) = some (a, pc))
    (haccess : w.shared.access server (.reader client) a = some s)
    (htells : (w.readers client).Tells) :
    pc.Tells ∧ ∀ inHand, s.ledger inHand = w.shared.ledger inHand := by
  have hwrite : ∀ result effect, effect.aboutAccounts = false → a = .write result effect →
      ∀ inHand, s.ledger inHand = w.shared.ledger inHand := by
    intro result effect hother heq inHand
    subst heq
    cases haccess
    exact (w.shared.ledger_apply inHand result effect).trans
      (Ledger.apply_of_not_about _ result hother)
  generalize w.readers client = reader at hreader htells
  cases Server.readerStep_of_smoReader hreader with
  | closedLoggedIn =>
    refine ⟨fun effect heffect => ?_, access_ledger haccess rfl⟩
    obtain ⟨c, -, rfl⟩ := List.mem_map.mp heffect
    rfl
  | notify =>
    obtain ⟨hfirst, hrest⟩ := List.forall_mem_cons.mp htells
    exact ⟨hrest, hwrite _ _ hfirst rfl⟩
  | close | clear => exact ⟨trivial, hwrite _ _ rfl rfl⟩
  | _ => exact ⟨trivial, access_ledger haccess rfl⟩

theorem smoListener_ledger {pc : ListenerPc}
    (hlistener : Server.smoListener env w.shared w.listener = some (a, pc))
    (haccess : w.shared.access server .listener a = some s) :
    (s.next = w.shared.next ∧ w.listener.entries w.shared.next env.type = [] ∧
        ∀ inHand, s.ledger inHand = w.shared.ledger inHand) ∨
      s.next = w.shared.next + 1 ∧ ∃ socket,
        w.listener.entries w.shared.next env.type = [.greet w.shared.next socket env.type] ∧
        ∀ inHand, s.ledger inHand =
          (w.shared.ledger inHand).greet w.shared.next socket env.type := by
  generalize w.listener = listener at hlistener
  cases Server.listenerStep_of_smoListener hlistener with
  | @answer socket ip name input hname =>
    cases haccess
    refine Or.inr ⟨rfl, socket, ?_, fun inHand => ?_⟩
    · rw [ListenerPc.entries, hname]
      rfl
    have hhandled : handledIn (w.shared.log ++ [.sent socket server.helloReply,
        .setIP w.shared.next ip w.shared.currentIP, .answered w.shared.next socket]) =
        handledIn w.shared.log := by
      simp [handledIn]
    have hanswered : answeredIn (w.shared.log ++ [.sent socket server.helloReply,
        .setIP w.shared.next ip w.shared.currentIP, .answered w.shared.next socket]) =
        answeredIn w.shared.log ++ [(w.shared.next, socket)] := by
      simp [answeredIn]
    rw [State.ledger, State.ledger, hhandled, hanswered, Ledger.greet]
    simp only [Ledger.mk.injEq, true_and, and_true]
    refine funext fun c => ?_
    by_cases hc : c = w.shared.next
    · subst hc
      simp [Server.greet, Client.account]
    · simp [hc]
  | @helloThrow socket ip input hname =>
    have hnext : s.next = w.shared.next := access_next haccess fun _ _ _ heq => by cases heq
    refine Or.inl ⟨hnext, ?_, access_ledger haccess rfl⟩
    rw [ListenerPc.entries, hname]
    rfl
  | _ =>
    have hnext : s.next = w.shared.next := access_next haccess fun _ _ _ heq => by cases heq
    exact Or.inl ⟨hnext, rfl, access_ledger haccess rfl⟩

theorem step_serving {action : Action} (h : step server w action = some w')
    (hw : Serving players w) : Serving players w' := by
  have hroom : w'.shared.room.players = players := by rw [step_room h]; exact hw.room
  cases (stepBy_of_step h).2 with
  | @main env a pc s hstart haccess =>
    refine ⟨hroom, fun c hc => ?_, start_serves hstart haccess hw, hw.readers⟩
    have hmain := Server.start_access server env w.shared w.main
    rw [hstart] at hmain
    rw [access_next haccess fun _ _ _ heq => by rw [heq] at hmain; exact hmain]
    exact hw.fresh c hc
  | listener _ hlistener haccess =>
    rcases smoListener_ledger hlistener haccess with ⟨hnext, -, hsame⟩ | ⟨hnext, socket, -, hgreet⟩
    · refine ⟨hroom, fun c hc => ?_, Serves.congr hw.main fun c _ =>
        account_of_ledger (hsame []) c, hw.readers⟩
      rw [hnext]
      exact hw.fresh c hc
    · refine ⟨hroom, fun c hc => ?_, Serves.congr hw.main fun c hc => ?_, hw.readers⟩
      · rw [hnext]
        exact Nat.lt_succ_of_lt (hw.fresh c hc)
      · have haccount := congrFun (congrArg Ledger.account (hgreet [])) c
        exact haccount.trans (Function.update_of_ne (Nat.ne_of_lt (hw.fresh c hc)) _ _)
  | @reader env client a pc s _ hreader haccess =>
    obtain ⟨htells, hsame⟩ := smoReader_ledger hreader haccess (hw.readers client)
    refine ⟨hroom, fun c hc => ?_, Serves.congr hw.main fun c _ =>
      account_of_ledger (hsame []) c, fun other => ?_⟩
    · have hkind := Server.smoReader_access hreader
      rw [access_next haccess fun _ _ _ heq => by rw [heq] at hkind; exact hkind]
      exact hw.fresh c hc
    · by_cases hother : other = client
      · subst hother
        simpa using htells
      · simpa [hother] using hw.readers other

/-- The main thread and the listener make entries among the players and outside of them. -/
theorem entries_among {action : Action} (hw : Serving players w) :
    ∀ entry ∈ w.entries action, entry.Among players := by
  obtain ⟨thread, env⟩ := action
  have hmain := hw.main
  cases thread with
  | main =>
    show ∀ entry ∈ w.main.entries env.db, entry.Among players
    generalize w.main = main at hmain
    cases main with
    | inputs clients client todo vInput =>
      cases vInput with
      | nil => exact fun _ hnil => absurd hnil List.not_mem_nil
      | cons input vInput => exact List.forall_mem_singleton.mpr hmain.2.1
    | back clients client todo => exact List.forall_mem_singleton.mpr ⟨hmain.1, hmain.2.1⟩
    | _ => exact fun _ hnil => absurd hnil List.not_mem_nil
  | listener =>
    show ∀ entry ∈ w.listener.entries w.shared.next env.type, entry.Among players
    cases w.listener with
    | hello socket ip input =>
      rw [ListenerPc.entries]
      split
      · have hfresh : w.shared.next ∉ players := fun hmem => Nat.lt_irrefl _ (hw.fresh _ hmem)
        exact List.forall_mem_singleton.mpr hfresh
      · exact fun _ hnil => absurd hnil List.not_mem_nil
    | _ => exact fun _ hnil => absurd hnil List.not_mem_nil
  | reader client => exact fun _ hnil => absurd hnil List.not_mem_nil

/-- Every step does to the ledger what its entries do. -/
theorem step_simulates {action : Action} (h : step server w action = some w')
    (hw : Serving players w) : w'.accounts = w.accounts.replay server (w.entries action) := by
  cases (stepBy_of_step h).2 with
  | @main env a pc s hstart haccess =>
    unfold accounts entries
    generalize w.main = main at hstart
    cases Server.startStep_of_start hstart with
    | @input clients todo client input vInput =>
      -- the message takes effect here, as a whole
      cases haccess
      show (State.ledger _ _).applyAll _ _ = Ledger.applyAll _ _ _
      congr 1
      simp [State.ledger, MainPc.inHand, MainPc.finish]
    | @handled clients todo client input vInput =>
      cases haccess
      show State.ledger _ _ = State.ledger _ _
      simp [State.ledger, Shared.onState, MainPc.inHand, handledIn, answeredIn]
    | @write clients todo client input effect effects vInput =>
      cases haccess
      show (State.ledger _ _).applyAll _ _ = _
      exact congrArg (Ledger.applyAll client · effects) (w.shared.ledger_apply _ client effect)
    | @writeBack clients todo client =>
      cases haccess
      exact w.shared.ledger_writeBack [] client clients
    | _ => exact access_ledger haccess rfl []
  | @listener env a pc s _ hlistener haccess =>
    rcases smoListener_ledger hlistener haccess with
      ⟨-, hentries, hsame⟩ | ⟨-, socket, hentries, hgreet⟩
    · show _ = w.accounts.replay server (w.listener.entries w.shared.next env.type)
      rw [accounts, hsame, hentries]
      rfl
    · show _ = w.accounts.replay server (w.listener.entries w.shared.next env.type)
      rw [accounts, hgreet, hentries, accounts]
      have hmain := hw.main
      dsimp only
      generalize w.main = main at hmain
      cases main with
      | handle clients client todo input effects vInput =>
        exact Ledger.applyAll_greet _ (Nat.ne_of_gt (hw.fresh client hmain.1.2.1)) _ _ _
      | _ => rfl
  | @reader env client a pc s _ hreader haccess =>
    rw [accounts, (smoReader_ledger hreader haccess (hw.readers client)).2]
    rfl

theorem boot_serving (hboot : Boot w) : Serving w.shared.room.players w := by
  refine ⟨rfl, hboot.players, ?_, fun client => ?_⟩
  · rw [hboot.main]
    trivial
  · rw [hboot.readers]
    trivial

theorem accounts_histories (w : World) :
    w.accounts.handled = handledIn w.shared.log ++ w.main.inHand ∧
      w.accounts.answered = answeredIn w.shared.log := by
  rw [accounts]
  cases w.main with
  | handle clients client todo input effects vInput =>
    exact ⟨Ledger.applyAll_handled _ _ _, Ledger.applyAll_answered _ _ _⟩
  | _ => exact ⟨rfl, rfl⟩

theorem boot_histories (hboot : Boot w) : w.accounts.handled = [] ∧ w.accounts.answered = [] := by
  have hledger := accounts_histories w
  rw [hboot.main, hboot.log] at hledger
  exact hledger

/-- The ledger of any point of a run is that of the start with the history up to it. -/
theorem run_replay (hboot : Boot w) (hrun : run server w actions = some w') :
    Serving w.shared.room.players w' ∧
      w'.accounts = w.accounts.replay server (w.history server actions) ∧
      ∀ entry ∈ w.history server actions, entry.Among w.shared.room.players := by
  refine Transition.run_collect (J := fun v entries => Serving w.shared.room.players v ∧
    v.accounts = w.accounts.replay server entries ∧
      ∀ entry ∈ entries, entry.Among w.shared.room.players) ?_ hrun
    ⟨boot_serving hboot, rfl, fun _ hnil => absurd hnil List.not_mem_nil⟩
  intro v action v' entries hstep ⟨hv, hreplay, hamong⟩
  refine ⟨step_serving hstep hv, ?_, List.forall_mem_append.mpr ⟨hamong, entries_among hv⟩⟩
  rw [step_simulates hstep hv, hreplay, ← Ledger.replay_append]

/-- The history has the messages and the hellos of the log. -/
theorem run_histories (hboot : Boot w) (hrun : run server w actions = some w') :
    (w.history server actions).filterMap Ledger.Entry.message =
        handledIn w'.shared.log ++ w'.main.inHand ∧
      (w.history server actions).filterMap Ledger.Entry.greeting = answeredIn w'.shared.log := by
  have hreplay := (run_replay hboot hrun).2.1
  obtain ⟨hhandled, hanswered⟩ := accounts_histories w'
  rw [hreplay, Ledger.replay_handled, (boot_histories hboot).1, List.nil_append] at hhandled
  rw [hreplay, Ledger.replay_answered, (boot_histories hboot).2, List.nil_append] at hanswered
  exact ⟨hhandled, hanswered⟩

/-- Whatever the order of the steps of all threads, the accounts and the table are those of
whole messages handled one after another, in the order in which the log has them, with the
second loops of `Update` and the hellos between them.  Each message has the database of the
step that decides its writes. -/
theorem run_serial (server : Server) (w w' : World) (actions : List Action) (hboot : Boot w)
    (hrun : run server w actions = some w') :
    w'.accounts = w.accounts.replay server (w.history server actions) ∧
      (w.history server actions).filterMap Ledger.Entry.message =
        handledIn w'.shared.log ++ w'.main.inHand ∧
      (w.history server actions).filterMap Ledger.Entry.greeting = answeredIn w'.shared.log :=
  ⟨(run_replay hboot hrun).2.1, run_histories hboot hrun⟩

def admitting : Env :=
  { idle with
    db := ⟨fun _ users => .steps users false, true, fun _ users => some users, true,
      fun _ users => users⟩ }

theorem loginEve_fits : (ascii "eve").length + (ascii "pw").length ≤ 1014 := by
  decide

def loginEve : Packet := loginMessage (ascii "eve") (ascii "pw") loginEve_fits

/-- One player on socket 4 that has sent its login. -/
def loginPlayer : World :=
  initial { emptyRoom with players := [0] } (fun _ => Client.guest 4 [loginEve])
    [⟨1, ascii "eve", ascii "pw", 0⟩]

/-- A hello is answered between two writes of a login. -/
def greetWithinLogin : List Action :=
  starting ++ steps .main 9 ++ [⟨.main, admitting⟩] ++ steps .main 1 ++ accepting ++ greeting ++
    steps .main 2

theorem run_serial_greetWithinLogin :
    ∃ w, run ⟨128, 128, []⟩ loginPlayer greetWithinLogin = some w ∧
      ((w.shared.heap 0).loggedIn = true ∧ w.main.inHand.length = 1 ∧
        answeredIn w.shared.log = [(1, 5)]) ∧
      w.accounts = loginPlayer.accounts.replay ⟨128, 128, []⟩
        (loginPlayer.history ⟨128, 128, []⟩ greetWithinLogin) ∧
      (loginPlayer.history ⟨128, 128, []⟩ greetWithinLogin).filterMap Ledger.Entry.message =
        handledIn w.shared.log ++ w.main.inHand ∧
      (loginPlayer.history ⟨128, 128, []⟩ greetWithinLogin).filterMap Ledger.Entry.greeting =
        answeredIn w.shared.log := by
  have hany : (run ⟨128, 128, []⟩ loginPlayer greetWithinLogin).any (fun w =>
      decide ((w.shared.heap 0).loggedIn = true ∧ w.main.inHand.length = 1 ∧
        answeredIn w.shared.log = [(1, 5)])) = true := by
    decide +kernel
  obtain ⟨w, hrun, hplace⟩ := (Option.any_eq_true _ _).mp hany
  exact ⟨w, hrun, of_decide_eq_true hplace,
    run_serial ⟨128, 128, []⟩ loginPlayer w greetWithinLogin (initial_boot _ _ _) hrun⟩

end World

end WhiteSmo
