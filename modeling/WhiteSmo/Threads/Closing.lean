import Mathlib.Data.List.Nodup
import WhiteSmo.Library.Descriptors
import WhiteSmo.Threads.Queues

/-!
# Closed sockets

Three places hand a socket to `Disconnect`: the listener for a connection that says
no hello, `Update` for a banned login, and a reader whose peer is gone.  The last
two write `connected = false` behind the close, and only a reader reads the flag
before it, ahead of its `Receive`.

A close is safe when the flag is still set and no other thread is between its own
close and that write.  A run of such closes closes nothing twice.
-/

namespace WhiteSmo

/-- What an event does to a descriptor. -/
def Event.use : Event → Option (Descriptors.Use Socket)
  | .accepted socket => some (.opening socket)
  | .closed socket => some (.closing socket)
  | _ => none

def uses (log : List Event) : List (Descriptors.Use Socket) := log.filterMap Event.use

theorem uses_append (log : List Event) (event : Event) :
    uses (log ++ [event]) = uses log ++ event.use.toList := by
  rw [uses, List.filterMap_append]
  cases h : event.use <;> simp [uses, h]

/-- The client whose socket the next step closes. -/
def MainPc.disconnects : MainPc → Option ClientId
  | .handle _ client _ _ (.disconnect _ :: _) _ => some client
  | _ => none

def ReaderPc.disconnects : ReaderPc → Option ClientId
  | .close result => some result
  | _ => none

/-- The client whose socket has been closed and whose flag is still to be written. -/
def MainPc.closing : MainPc → Option ClientId
  | .handle _ client _ _ (.setConnected false :: _) _ => some client
  | _ => none

def ReaderPc.closing : ReaderPc → Option ClientId
  | .closed result | .notify result _ | .clear result => some result
  | _ => none

/-- The accepted socket that the listener has neither greeted nor refused. -/
def ListenerPc.pending : ListenerPc → Option Socket
  | .logLock socket _ | .log socket _ | .logUnlock socket _ | .receive socket _
  | .command socket _ _ | .wait socket _ _ | .helloLock socket _ _ | .hello socket _ _
  | .refuse socket => some socket
  | _ => none

namespace World

/-- The property of a run: no socket is closed twice between two acceptances. -/
def ClosedOnce (log : List Event) : Prop := ∀ socket, Descriptors.closes socket (uses log) ≤ 1

def disconnects (w : World) : Thread → Option ClientId
  | .main => w.main.disconnects
  | .listener => none
  | .reader client => (w.readers client).disconnects

/-- Some thread has closed the socket of the client and not yet written its flag. -/
def Closing (w : World) (c : ClientId) : Prop :=
  w.main.closing = some c ∨ ∃ r ∈ w.shared.readerThreads, (w.readers r).closing = some c

instance (w : World) (c : ClientId) : Decidable (Closing w c) :=
  inferInstanceAs (Decidable (_ ∨ ∃ r ∈ w.shared.readerThreads, _))

def Live (w : World) (c : ClientId) : Prop :=
  (w.shared.heap c).connected = true ∧ ¬ Closing w c

instance (w : World) (c : ClientId) : Decidable (Live w c) := inferInstanceAs (Decidable (_ ∧ _))

/-- If the step closes the socket of a client, then the client is connected and no
thread is closing it. -/
def ClosesLive (w : World) (action : Action) : Prop := ∀ c ∈ w.disconnects action.thread, Live w c

instance (w : World) (action : Action) : Decidable (ClosesLive w action) :=
  inferInstanceAs (Decidable (∀ c ∈ w.disconnects action.thread, Live w c))

/-- Who may still close what: a player that is live its own socket, and the listener
the one it has accepted last. -/
def Owns (players : List ClientId) (w : World) : Option ClientId × Socket → Prop
  | (some c, socket) => c ∈ players ∧ (w.shared.heap c).socket = socket ∧ Live w c
  | (none, socket) => w.listener.pending = some socket

def ledger (players : List ClientId) (w : World) :
    Descriptors.Ledger (Option ClientId) Socket where
  owned := {x | Owns players w x}
  opened := w.shared.opened
  uses := uses w.shared.log

end World

/-! ## The writes of one handling -/

/-- The writes that are about neither a descriptor nor a flag. -/
def Effect.aboutSockets : Effect → Bool
  | .setConnected _ | .disconnect _ => true
  | _ => false

/-- Writes in which a close is of `socket` and `connected = false` follows it. -/
inductive Orderly (socket : Socket) : List Effect → Prop
  | nil : Orderly socket []
  | other {effect : Effect} {effects : List Effect} (hother : effect.aboutSockets = false)
      (hrest : Orderly socket effects) : Orderly socket (effect :: effects)
  | disconnect {effects : List Effect} (hrest : Orderly socket effects) :
      Orderly socket (.disconnect socket :: .setConnected false :: effects)
  | setConnected {effects : List Effect} (hrest : Orderly socket effects) :
      Orderly socket (.setConnected false :: effects)

theorem Orderly.of_others {socket : Socket} {effects : List Effect}
    (h : ∀ effect ∈ effects, effect.aboutSockets = false) : Orderly socket effects := by
  induction effects with
  | nil => exact .nil
  | cons effect effects ih =>
    obtain ⟨hfirst, hrest⟩ := List.forall_mem_cons.mp h
    exact .other hfirst (ih hrest)

theorem Orderly.names {socket : Socket} {effects : List Effect} (h : Orderly socket effects)
    (names : List Bytes) : Orderly socket (names.map Effect.setName ++ effects) := by
  induction names with
  | nil => exact h
  | cons name names ih => exact .other rfl ih

namespace Server

theorem refuse_orderly (server : Server) (socket : Socket) (row : Row) :
    Orderly socket (server.refuse socket row) := by
  unfold refuse
  split
  · exact .disconnect .nil
  · exact .other rfl .nil

theorem afterLoop_orderly (server : Server) (db : Database) (users : List Row) (client : Client)
    (name password : Bytes) (foundUser : Bool) (socket : Socket) :
    Orderly socket (server.afterLoop db users client name password foundUser) := by
  refine Orderly.of_others ?_
  unfold afterLoop accept
  split
  · simp [Effect.aboutSockets]
  · split <;> simp [Effect.aboutSockets]

/-- Only the ban closes, and it closes the socket of the client. -/
theorem handleInput_orderly (server : Server) (db : Database) (users : List Row) (client : Client)
    (input : Packet) : Orderly client.socket (server.handleInput db users client input) := by
  unfold handleInput
  split
  case isFalse => exact .nil
  case isTrue =>
    cases credentials input with
    | none => exact .other rfl .nil
    | some values =>
      obtain ⟨name, password⟩ := values
      show Orderly client.socket (server.login db users client name password)
      rcases login_cases server db users client name password with
        ⟨-, names, row, heq⟩ | ⟨-, names, foundUser, -, heq⟩
      · rw [heq]
        exact (refuse_orderly server client.socket row).names names
      · rw [heq]
        exact (afterLoop_orderly server db users client name password foundUser _).names names

theorem disconnectClient_others (server : Server) (room : Room) (heap : ClientId → Client)
    (client : Client) :
    ∀ effect ∈ server.disconnectClient room heap client, effect.aboutSockets = false := by
  intro effect hmem
  obtain ⟨c, -, rfl⟩ := List.mem_map.mp hmem
  rfl

/-- With distinct sockets the second loop writes to each player what it has read
from it. -/
theorem writeBack_of_nodup {clients : List ClientId} {s : State} {client : ClientId}
    (hnodup : (clients.map fun c => (s.heap c).socket).Nodup) (hmem : client ∈ clients) :
    writeBack clients s client = s :=
  writeBack_of_findClient (findClient_of_nodup hnodup hmem)

end Server

/-- Every close in the locals of the main thread is of the socket of its client. -/
def MainPc.Orderly (heap : ClientId → Client) : MainPc → Prop
  | .handle _ client _ _ effects _ => WhiteSmo.Orderly (heap client).socket effects
  | _ => True

/-- A reader works on a player, and what it sends closes nothing. -/
def ReaderPc.Finds (players : List ClientId) : ReaderPc → Prop
  | .searchUnlock (some result) | .test result | .receive result | .lock result _
  | .again result _ | .close result | .closed result | .clear result | .push result _ =>
    result ∈ players
  | .notify result effects =>
    result ∈ players ∧ ∀ effect ∈ effects, effect.aboutSockets = false
  | _ => True

/-! ## One access -/

/-- The accesses that open a descriptor, close one or write a flag. -/
def Access.aboutSockets : Access → Bool
  | .accept _ | .close _ | .writeBack _ _ => true
  | .write _ effect => effect.aboutSockets
  | _ => false

/-- Two states with the same open descriptors, in which no flag has been set. -/
structure SameSockets (s s' : Shared) : Prop where
  socket : ∀ c < s.next, (s'.heap c).socket = (s.heap c).socket
  connected : ∀ c < s.next, (s'.heap c).connected = true → (s.heap c).connected = true
  readers : s.readerThreads ⊆ s'.readerThreads
  opened : s'.opened = s.opened
  uses : uses s'.log = uses s.log

section

variable {server : Server} {t : Thread} {s s' : Shared} {a : Access}

theorem uses_append_none {log : List Event} {event : Event} (h : event.use = none) :
    uses (log ++ [event]) = uses log := by
  rw [uses_append, h, Option.toList_none, List.append_nil]

theorem apply_sameSockets {client : ClientId} {effect : Effect}
    (h : effect.aboutSockets = false ∨ effect = .setConnected false) :
    SameSockets s { s.onState (·.apply client effect) with opened := effect.opened s.opened } := by
  refine ⟨fun c _ => State.apply_socket _ client c effect, fun c _ hconnected => ?_,
    List.Subset.refl _, ?_, ?_⟩
  · have hconnected : ((s.toState.apply client effect).heap c).connected = true := hconnected
    by_cases hc : c = client
    · subst hc
      cases effect with
      | setConnected connected =>
        rcases h with h | h
        · cases h
        · cases h
          simp [State.apply] at hconnected
      | _ => simpa [State.apply] using hconnected
    · rwa [State.apply_heap_of_ne _ hc] at hconnected
  · cases effect <;> first | rfl | simp [Effect.aboutSockets] at h
  · cases effect <;> first | rfl | exact uses_append_none rfl | simp [Effect.aboutSockets] at h

theorem access_sameSockets (h : s.access server t a = some s') (hother : a.aboutSockets = false) :
    SameSockets s s' := by
  cases a with
  | lock =>
    obtain ⟨-, rfl⟩ := Shared.access_lock_iff.mp h
    exact ⟨fun _ _ => rfl, fun _ _ h => h, List.Subset.refl _, rfl, rfl⟩
  | write client effect =>
    cases h
    exact apply_sameSockets (Or.inl hother)
  | clearInput client =>
    cases h
    refine ⟨fun c _ => ?_, fun c _ hconnected => ?_, List.Subset.refl _, rfl, rfl⟩
    · simp only [Shared.onState, State.modify_heap]
      split <;> rfl
    · simp only [Shared.onState, State.modify_heap] at hconnected
      split at hconnected <;> exact hconnected
  | handled client input =>
    cases h
    exact ⟨fun _ _ => rfl, fun _ _ h => h, List.Subset.refl _, rfl, uses_append_none rfl⟩
  | push client input =>
    cases h
    refine ⟨fun c _ => ?_, fun c _ hconnected => ?_, List.Subset.refl _, rfl,
      uses_append_none rfl⟩
    · simp only [Shared.onState, State.record_heap, State.modify_heap]
      split <;> rfl
    · simp only [Shared.onState, State.record_heap, State.modify_heap] at hconnected
      split at hconnected <;> exact hconnected
  | answer env socket ip =>
    cases h
    refine ⟨fun c hc => ?_, fun c hc hconnected => ?_, List.subset_append_left _ _, rfl, ?_⟩
    · simp [Nat.ne_of_lt hc]
    · simpa [Nat.ne_of_lt hc] using hconnected
    · simp [uses, Event.use]
  | accept socket => cases hother
  | close socket => cases hother
  | writeBack clients client => cases hother
  | _ =>
    cases h
    exact ⟨fun _ _ => rfl, fun _ _ h => h, List.Subset.refl _, rfl, rfl⟩

theorem access_socket (h : s.access server t a = some s') :
    ∀ c < s.next, (s'.heap c).socket = (s.heap c).socket := by
  cases hqueues : a.aboutQueues with
  | false => exact (access_sameQueues h hqueues).socket
  | true =>
    have hother : a.aboutSockets = false := by
      cases a with
      | clearInput client => rfl
      | handled client input => rfl
      | push client input => rfl
      | _ => cases hqueues
    exact (access_sameSockets h hother).socket

end

theorem Conserved.orderly {players : List ClientId} {q : ClientId → List Packet} {s s' : Shared}
    {main : MainPc} (h : Conserved players q s main) (horderly : main.Orderly s.heap)
    (hsocket : ∀ c < s.next, (s'.heap c).socket = (s.heap c).socket) : main.Orderly s'.heap := by
  cases main with
  | handle clients client todo input effects vInput =>
    show Orderly (s'.heap client).socket effects
    rw [hsocket client (h.fresh client h.sees.2.1)]
    exact horderly
  | _ => trivial

namespace World

/-! ## One step of the ledger -/

section

variable {players : List ClientId} {q : ClientId → List Packet} {w w' : World} {s : Shared}

/-- A step that opens and closes nothing and ends no closing without the flag. -/
theorem ledger_keep (hfresh : ∀ c ∈ players, c < w.shared.next)
    (hsame : SameSockets w.shared w'.shared)
    (hclosing : ∀ c, Closing w c → (w'.shared.heap c).connected = true → Closing w' c)
    (hpending : ∀ socket, w'.listener.pending = some socket → w.listener.pending = some socket) :
    (ledger players w).Moves (ledger players w') := by
  refine .keep (fun x hx => ?_) hsame.opened hsame.uses
  obtain ⟨owner, socket⟩ := x
  cases owner with
  | none => exact hpending socket hx
  | some c =>
    obtain ⟨hc, hsocket, hconnected, hnot⟩ := hx
    refine ⟨hc, (hsame.socket c (hfresh c hc)).symm.trans hsocket,
      hsame.connected c (hfresh c hc) hconnected, fun hclose => ?_⟩
    exact hnot (hclosing c hclose hconnected)

theorem main_keep {pc : MainPc} (hfresh : ∀ c ∈ players, c < w.shared.next)
    (hsame : SameSockets w.shared s)
    (hclosing : ∀ c, w.main.closing = some c → (s.heap c).connected = false) :
    (ledger players w).Moves (ledger players { w with shared := s, main := pc }) := by
  refine ledger_keep hfresh hsame (fun c hclose hconnected => ?_) fun _ h => h
  rcases hclose with hmain | ⟨r, hr, hreader⟩
  · have hconnected : (s.heap c).connected = true := hconnected
    rw [hclosing c hmain] at hconnected
    cases hconnected
  · exact Or.inr ⟨r, hsame.readers hr, hreader⟩

theorem listener_keep {pc : ListenerPc} (hfresh : ∀ c ∈ players, c < w.shared.next)
    (hsame : SameSockets w.shared s)
    (hpending : ∀ socket, pc.pending = some socket → w.listener.pending = some socket) :
    (ledger players w).Moves (ledger players { w with shared := s, listener := pc }) := by
  refine ledger_keep hfresh hsame (fun c hclose _ => ?_) hpending
  rcases hclose with hmain | ⟨r, hr, hreader⟩
  · exact Or.inl hmain
  · exact Or.inr ⟨r, hsame.readers hr, hreader⟩

theorem reader_keep {client : ClientId} {pc : ReaderPc}
    (hfresh : ∀ c ∈ players, c < w.shared.next) (hsame : SameSockets w.shared s)
    (hclosing : ∀ c, (w.readers client).closing = some c →
      (s.heap c).connected = true → pc.closing = some c) :
    (ledger players w).Moves
      (ledger players { w with shared := s, readers := Function.update w.readers client pc }) := by
  refine ledger_keep hfresh hsame (fun c hclose hconnected => ?_) fun _ h => h
  rcases hclose with hmain | ⟨r, hr, hreader⟩
  · exact Or.inl hmain
  · refine Or.inr ⟨r, hsame.readers hr, ?_⟩
    by_cases hclient : r = client
    · subst hclient
      show (Function.update w.readers r pc r).closing = some c
      rw [Function.update_self]
      exact hclosing c hreader hconnected
    · show (Function.update w.readers client pc r).closing = some c
      rw [Function.update_of_ne hclient]
      exact hreader

theorem ledger_close {c : ClientId} (hc : c ∈ players) (hlive : Live w c)
    (hshared : w'.shared =
      { w.shared.onState (·.apply c (.disconnect (w.shared.heap c).socket)) with
        opened := Function.update w.shared.opened (w.shared.heap c).socket false })
    (hclosed : Closing w' c) (hclosing : ∀ d, Closing w d → Closing w' d)
    (hpending : w'.listener = w.listener) :
    (ledger players w).Moves (ledger players w') := by
  refine .closing (some c) (w.shared.heap c).socket ⟨hc, rfl, hlive⟩ (fun x hx => ?_) ?_ ?_
  · obtain ⟨owner, socket⟩ := x
    cases owner with
    | none =>
      have hx : w'.listener.pending = some socket := hx
      rw [hpending] at hx
      exact ⟨hx, fun heq => by cases heq⟩
    | some d =>
      obtain ⟨hd, hsocket, hconnected, hnot⟩ := hx
      rw [hshared] at hsocket hconnected
      refine ⟨⟨hd, hsocket, hconnected, fun hclose => hnot (hclosing d hclose)⟩, fun heq => ?_⟩
      cases heq
      exact hnot hclosed
  · show w'.shared.opened = _
    rw [hshared]
    rfl
  · show uses w'.shared.log = _
    rw [hshared]
    exact uses_append _ _

end

/-! ## The threads -/

section

variable {server : Server} {env : Env} {players : List ClientId} {q : ClientId → List Packet}
  {w : World} {s : Shared} {a : Access}

theorem start_orderly {pc : MainPc} (hstart : server.start env w.shared w.main = (a, pc))
    (haccess : w.shared.access server .main a = some s)
    (h : w.main.Orderly w.shared.heap) : pc.Orderly s.heap := by
  generalize w.main = main at hstart h
  cases Server.startStep_of_start hstart with
  | @input clients todo client input vInput =>
    cases haccess
    exact Server.handleInput_orderly server env.db _ _ input
  | @write clients todo client input effect effects vInput =>
    cases haccess
    show Orderly ((w.shared.toState.apply client effect).heap client).socket effects
    rw [State.apply_socket]
    cases h with
    | other _ hrest => exact hrest
    | disconnect hrest => exact .setConnected hrest
    | setConnected hrest => exact hrest
  | _ => trivial

theorem start_moves {pc : MainPc} (hstart : server.start env w.shared w.main = (a, pc))
    (haccess : w.shared.access server .main a = some s)
    (hconserved : Conserved players q w.shared w.main) (horderly : w.main.Orderly w.shared.heap)
    (hlive : ClosesLive w ⟨.main, env⟩) :
    (ledger players w).Moves (ledger players { w with shared := s, main := pc }) := by
  have hfresh := hconserved.fresh
  have hsees := hconserved.sees
  obtain ⟨shared, main, listener, readers⟩ := w
  dsimp only at *
  cases Server.startStep_of_start hstart with
  | @write clients todo client input effect effects vInput =>
    cases haccess
    cases horderly with
    | other hother hrest =>
      refine main_keep hfresh (apply_sameSockets (Or.inl hother)) fun c heq => ?_
      cases effect with
      | setConnected connected => cases hother
      | _ => cases heq
    | disconnect hrest =>
      refine ledger_close hsees.2.1 (hlive client rfl) rfl (Or.inl rfl) (fun d hclose => ?_) rfl
      rcases hclose with hmain | hreader
      · cases hmain
      · exact Or.inr hreader
    | setConnected hrest =>
      refine main_keep hfresh (apply_sameSockets (Or.inr rfl)) fun c heq => ?_
      cases heq
      show ((shared.toState.apply client (.setConnected false)).heap client).connected = false
      simp [State.apply]
  | @writeBack clients todo client =>
    obtain ⟨rfl, hclient, -⟩ := hsees
    cases haccess
    rw [Shared.onState, Server.writeBack_of_nodup hconserved.sockets hclient]
    exact main_keep hfresh ⟨fun _ _ => rfl, fun _ _ h => h, List.Subset.refl _, rfl, rfl⟩
      fun _ heq => by cases heq
  | _ => exact main_keep hfresh (access_sameSockets haccess rfl) fun _ heq => by cases heq

theorem smoListener_moves {pc : ListenerPc}
    (hlistener : Server.smoListener env w.shared w.listener = some (a, pc))
    (haccess : w.shared.access server .listener a = some s)
    (hfresh : ∀ c ∈ players, c < w.shared.next) :
    (ledger players w).Moves (ledger players { w with shared := s, listener := pc }) := by
  obtain ⟨shared, main, listener, readers⟩ := w
  dsimp only at *
  cases Server.listenerStep_of_smoListener hlistener with
  | @accept socket address port hlistened =>
    obtain ⟨hfree, rfl⟩ := Shared.access_accept_iff.mp haccess
    refine .opening none socket hfree (fun x hx => ?_) rfl (uses_append _ _)
    obtain ⟨owner, fd⟩ := x
    cases owner with
    | none =>
      cases hx
      exact Or.inl rfl
    | some c => exact Or.inr hx
  | @refuse socket =>
    cases haccess
    refine .closing none socket rfl (fun x hx => ?_) rfl (uses_append _ _)
    obtain ⟨owner, fd⟩ := x
    cases owner with
    | none => cases hx
    | some c => exact ⟨hx, fun heq => by cases heq⟩
  | running hrunning | stopped hrunning | nobody hlistened | answer hname | helloUnlock =>
    exact listener_keep hfresh (access_sameSockets haccess rfl) fun _ h => by cases h
  | _ => exact listener_keep hfresh (access_sameSockets haccess rfl) fun _ h => h

theorem mem_of_findClient {heap : ClientId → Client} {clients : List ClientId}
    {client result : ClientId} (h : findClient heap clients client = some result) :
    result ∈ clients :=
  List.mem_of_find?_eq_some h

theorem smoReader_finds {client : ClientId} {pc pc' : ReaderPc}
    (hreader : server.smoReader env client s pc = some (a, pc')) (hroom : s.room.players = players)
    (h : pc.Finds players) : pc'.Finds players := by
  subst hroom
  have hagain : ∀ result ∈ s.room.players,
      (findClient s.heap s.room.getPlayers client).getD result ∈ s.room.players := by
    intro result hresult
    cases hfind : findClient s.heap s.room.getPlayers client with
    | none => exact hresult
    | some found => exact mem_of_findClient hfind
  cases Server.readerStep_of_smoReader hreader with
  | search =>
    cases hfind : findClient s.heap s.room.getPlayers client with
    | none => trivial
    | some result => exact mem_of_findClient hfind
  | againClosed => exact hagain _ h
  | againData => exact hagain _ h
  | closedLoggedIn hlogged => exact ⟨h, Server.disconnectClient_others server _ _ _⟩
  | notified => exact h.1
  | notify => exact ⟨h.1, (List.forall_mem_cons.mp h.2).2⟩
  | found | connected hconnected | receiveClosed hreceived | receiveData hreceived | lock | close
  | closedLoggedOut hlogged => exact h
  | _ => trivial

theorem smoReader_moves {client : ClientId} {pc : ReaderPc}
    (hcreated : client ∈ w.shared.readerThreads)
    (hreader : server.smoReader env client w.shared (w.readers client) = some (a, pc))
    (haccess : w.shared.access server (.reader client) a = some s)
    (hfresh : ∀ c ∈ players, c < w.shared.next) (hfinds : (w.readers client).Finds players)
    (hlive : ClosesLive w ⟨.reader client, env⟩) :
    (ledger players w).Moves
      (ledger players { w with shared := s, readers := Function.update w.readers client pc }) := by
  have hdisconnects : ∀ c, (w.readers client).disconnects = some c → Live w c := hlive
  generalize hpc : w.readers client = pc₀ at hreader hfinds hdisconnects
  cases Server.readerStep_of_smoReader hreader with
  | @close result =>
    cases haccess
    have hself : (Function.update w.readers client (.closed result) client).closing =
        some result := by
      rw [Function.update_self]
      rfl
    refine ledger_close hfinds (hdisconnects result rfl) rfl
      (Or.inr ⟨client, hcreated, hself⟩) (fun d hclose => ?_) rfl
    rcases hclose with hmain | ⟨r, hr, hclosing⟩
    · exact Or.inl hmain
    · refine Or.inr ⟨r, hr, ?_⟩
      have hne : r ≠ client := by
        intro heq
        rw [heq, hpc] at hclosing
        cases hclosing
      show (Function.update w.readers client (.closed result) r).closing = some d
      rw [Function.update_of_ne hne]
      exact hclosing
  | clear =>
    cases haccess
    refine reader_keep hfresh (apply_sameSockets (Or.inr rfl)) fun c heq hconnected => ?_
    rw [hpc] at heq
    cases heq
    simp [Shared.onState, State.apply] at hconnected
  | notify =>
    have hother := (List.forall_mem_cons.mp hfinds.2).1
    refine reader_keep hfresh (access_sameSockets haccess hother) fun c heq _ => ?_
    rw [hpc] at heq
    exact heq
  | closedLoggedIn hlogged | closedLoggedOut hlogged | notified =>
    refine reader_keep hfresh (access_sameSockets haccess rfl) fun c heq _ => ?_
    rw [hpc] at heq
    exact heq
  | _ =>
    refine reader_keep hfresh (access_sameSockets haccess rfl) fun c heq _ => ?_
    rw [hpc] at heq
    cases heq

end

/-! ## Runs -/

/-- The invariant of a run. -/
structure Guarded (players : List ClientId) (q : ClientId → List Packet) (w : World) : Prop where
  balanced : Balanced players q w
  orderly : w.main.Orderly w.shared.heap
  finds : ∀ r, (w.readers r).Finds players
  sound : (ledger players w).Sound

theorem step_guarded {server : Server} {players : List ClientId} {q : ClientId → List Packet}
    {w w' : World} {action : Action} (hlive : ClosesLive w action)
    (h : step server w action = some w') (hw : Guarded players q w) : Guarded players q w' := by
  have hbalanced := step_balanced h hw.balanced
  have hconserved := hw.balanced.conserved
  cases (stepBy_of_step h).2 with
  | main hstart haccess =>
    exact ⟨hbalanced, start_orderly hstart haccess hw.orderly, hw.finds,
      hw.sound.moves (start_moves hstart haccess hconserved hw.orderly hlive)⟩
  | listener _ hlistener haccess =>
    exact ⟨hbalanced, hconserved.orderly hw.orderly (access_socket haccess), hw.finds,
      hw.sound.moves (smoListener_moves hlistener haccess hconserved.fresh)⟩
  | @reader _ client _ pc _ hcreated hreader haccess =>
    refine ⟨hbalanced, hconserved.orderly hw.orderly (access_socket haccess), fun r => ?_,
      hw.sound.moves (smoReader_moves hcreated hreader haccess hconserved.fresh (hw.finds client)
        hlive)⟩
    by_cases hr : r = client
    · subst hr
      simpa using smoReader_finds hreader hconserved.room (hw.finds r)
    · simpa [hr] using hw.finds r

/-- With the players' sockets open and distinct nothing is closed yet. -/
theorem boot_guarded {w : World} (hboot : Boot w)
    (hsockets : (w.shared.room.players.map fun c => (w.shared.heap c).socket).Nodup)
    (hopen : ∀ c ∈ w.shared.room.players, (w.shared.heap c).connected = true →
      w.shared.opened (w.shared.heap c).socket = true) :
    Guarded w.shared.room.players (fun c => (w.shared.heap c).vInput) w := by
  have hnothing : ∀ socket, Descriptors.closes socket (uses w.shared.log) = 0 := by
    rw [hboot.log]
    exact fun _ => rfl
  refine ⟨boot_balanced hboot hsockets, ?_, fun r => ?_, ⟨fun o socket howns => ?_,
    fun o o' socket howns howns' => ?_, fun socket => ?_, fun socket _ => hnothing socket⟩⟩
  · rw [hboot.main]
    trivial
  · rw [hboot.readers]
    trivial
  · cases o with
    | none =>
      have howns : w.listener.pending = some socket := howns
      rw [hboot.listener] at howns
      cases howns
    | some c =>
      obtain ⟨hc, rfl, hconnected, -⟩ := howns
      exact hopen c hc hconnected
  · have hnone : ∀ o, Owns w.shared.room.players w (o, socket) → ∃ c ∈ w.shared.room.players,
        o = some c ∧ (w.shared.heap c).socket = socket := by
      intro o howns
      cases o with
      | none =>
        have howns : w.listener.pending = some socket := howns
        rw [hboot.listener] at howns
        cases howns
      | some c => exact ⟨c, howns.1, rfl, howns.2.1⟩
    obtain ⟨c, hc, rfl, hsocket⟩ := hnone o howns
    obtain ⟨c', hc', rfl, hsocket'⟩ := hnone o' howns'
    rw [List.inj_on_of_nodup_map hsockets hc hc' (hsocket.trans hsocket'.symm)]
  · show Descriptors.closes socket (uses w.shared.log) ≤ 1
    rw [hnothing]
    exact Nat.zero_le 1

/-- In every run in which the socket of a client is closed only while the client is
connected and nobody else is closing it, no socket is closed twice between two
acceptances. -/
theorem closed_once (server : Server) (w w' : World) (actions : List Action) (hboot : Boot w)
    (hsockets : (w.shared.room.players.map fun c => (w.shared.heap c).socket).Nodup)
    (hopen : ∀ c ∈ w.shared.room.players, (w.shared.heap c).connected = true →
      w.shared.opened (w.shared.heap c).socket = true)
    (hrun : run server w actions = some w')
    (hmeets : Transition.Meets (step server) ClosesLive w actions) :
    ClosedOnce w'.shared.log :=
  (Transition.run_invariant_of_meets (fun _ _ _ hlive hstep => step_guarded hlive hstep) hrun
    hmeets (boot_guarded hboot hsockets hopen)).sound.once

def bannedRow : Row := ⟨1, ascii "eve", ascii "pw", 1⟩

def banning : Env :=
  { idle with
    db := ⟨fun _ users => .steps users false, true, fun _ users => some users, true,
      fun _ users => users⟩ }

/-- One player on socket 5 that has sent its login. -/
def bannedPlayer : World :=
  initial { emptyRoom with players := [0] }
    (fun _ => Client.guest 5 [loginMessage (ascii "eve") (ascii "pw") (by decide)]) [bannedRow]

/-- `Update` up to the ban and its writes. -/
def ban : List Action := starting ++ steps .main 9 ++ [⟨.main, banning⟩] ++ steps .main 4

theorem closed_once_ban :
    ∃ w, run ⟨128, 128, []⟩ bannedPlayer ban = some w ∧ .closed 5 ∈ w.shared.log ∧
      ClosedOnce w.shared.log := by
  have hlog : (run ⟨128, 128, []⟩ bannedPlayer ban).any
      (fun w => decide (.closed 5 ∈ w.shared.log)) = true := by
    decide +kernel
  obtain ⟨w, hrun, hclosed⟩ := (Option.any_eq_true _ _).mp hlog
  exact ⟨w, hrun, of_decide_eq_true hclosed, closed_once ⟨128, 128, []⟩ bannedPlayer w ban
    (initial_boot _ _ _) (List.pairwise_singleton _ _) (by decide) hrun (by decide +kernel)⟩

/-- The reader of the player tests the flag before the ban and sees the end of the
connection behind it. -/
def banBehindTest : List Action :=
  steps (.reader 0) 4 ++ ban ++ [⟨.reader 0, { idle with received := .closed }⟩] ++
    steps (.reader 0) 3

theorem banned_socket_closed_twice :
    Boot bannedPlayer ∧ ∃ w, run ⟨128, 128, []⟩ bannedPlayer banBehindTest = some w ∧
      ¬ ClosedOnce w.shared.log := by
  refine ⟨initial_boot _ _ _, ?_⟩
  have hlog : (run ⟨128, 128, []⟩ bannedPlayer banBehindTest).any
      (fun w => decide (Descriptors.closes 5 (uses w.shared.log) = 2)) = true := by
    decide +kernel
  obtain ⟨w, hrun, htwice⟩ := (Option.any_eq_true _ _).mp hlog
  refine ⟨w, hrun, fun honce => ?_⟩
  have hle := honce 5
  rw [of_decide_eq_true htwice] at hle
  exact absurd hle (by decide)

end World
end WhiteSmo
