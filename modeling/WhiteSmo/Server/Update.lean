import Mathlib.Data.List.Nodup
import Mathlib.Logic.Function.Basic
import WhiteSmo.Server.Login

/-!
# One pass of `Server::Update`

The pass as the main thread runs it: for each player the queue is taken and its
messages are handled, and a second loop writes each client back.  What the
database does is given for each message of the pass in the order of handling.

A pass also records its handlings, each with the state before and after.
-/

namespace WhiteSmo

/-- Whether the process still runs. -/
inductive Fate
  | alive
  /-- An exception left a thread function: `std::terminate`. -/
  | terminated
  | undefined
  deriving DecidableEq

/-- What the threads have done so far. -/
inductive Event
  | accepted (socket : Socket)
  | sent (socket : Socket) (out : Bytes)
  | closed (socket : Socket)
  | pushed (client : ClientId) (input : Packet)
  | handled (client : ClientId) (input : Packet)
  | setIP (client : ClientId) (extracted recorded : Bytes)
  | answered (client : ClientId) (socket : Socket)
  deriving DecidableEq

/-- What the handling of a message can change. -/
structure State where
  heap : ClientId → Client
  users : List Row
  log : List Event
  fate : Fate

namespace State

def modify (s : State) (client : ClientId) (f : Client → Client) : State :=
  { s with heap := Function.update s.heap client (f (s.heap client)) }

def record (s : State) (event : Event) : State := { s with log := s.log ++ [event] }

def apply (client : ClientId) (s : State) : Effect → State
  | .setName name => s.modify client fun c => { c with name := name }
  | .setConnected connected => s.modify client fun c => { c with connected := connected }
  | .setLoggedIn loggedIn => s.modify client fun c => { c with loggedIn := loggedIn }
  | .setRoomID roomID => s.modify client fun c => { c with roomID := roomID }
  | .setUsers users => { s with users := users }
  | .send socket out => s.record (.sent socket out)
  | .disconnect socket => s.record (.closed socket)
  | .throw => { s with fate := .terminated }
  | .undefined => { s with fate := .undefined }

def applyAll (client : ClientId) (s : State) (effects : List Effect) : State :=
  effects.foldl (apply client) s

section

variable (s : State) (client c : ClientId)

@[simp] theorem modify_users (f : Client → Client) : (s.modify client f).users = s.users := rfl
@[simp] theorem modify_log (f : Client → Client) : (s.modify client f).log = s.log := rfl
@[simp] theorem modify_fate (f : Client → Client) : (s.modify client f).fate = s.fate := rfl
@[simp] theorem record_heap (e : Event) : (s.record e).heap = s.heap := rfl
@[simp] theorem record_users (e : Event) : (s.record e).users = s.users := rfl
@[simp] theorem record_log (e : Event) : (s.record e).log = s.log ++ [e] := rfl
@[simp] theorem record_fate (e : Event) : (s.record e).fate = s.fate := rfl

@[simp] theorem modify_heap_self (f : Client → Client) :
    (s.modify client f).heap client = f (s.heap client) := by
  simp [modify]

theorem modify_heap (f : Client → Client) :
    (s.modify client f).heap c = if c = client then f (s.heap c) else s.heap c := by
  by_cases h : c = client
  · subst h
    simp [modify]
  · simp [modify, h]

theorem modify_heap_of_ne {c client : ClientId} (h : c ≠ client) (f : Client → Client) :
    (s.modify client f).heap c = s.heap c := by
  simp [modify, h]

@[simp] theorem applyAll_nil : s.applyAll client [] = s := rfl

@[simp] theorem applyAll_cons (effect : Effect) (effects : List Effect) :
    s.applyAll client (effect :: effects) = (s.apply client effect).applyAll client effects := rfl

theorem applyAll_append (first second : List Effect) :
    s.applyAll client (first ++ second) = (s.applyAll client first).applyAll client second :=
  List.foldl_append

theorem modify_modify (f g : Client → Client) :
    (s.modify client f).modify client g = s.modify client (g ∘ f) := by
  simp [modify]

theorem applyAll_setName (names : List Bytes) :
    s.applyAll client (names.map Effect.setName) =
      s.modify client fun c => { c with name := names.getLastD c.name } := by
  induction names generalizing s with
  | nil => simp [modify]
  | cons name names ih =>
    rw [List.map_cons, applyAll_cons, ih, apply, modify_modify]
    cases names <;> rfl

/-- The handling of a client's message writes no other client. -/
theorem apply_heap_of_ne {c client : ClientId} (h : c ≠ client) (effect : Effect) :
    (s.apply client effect).heap c = s.heap c := by
  cases effect <;> simp [apply, modify_heap_of_ne s h]

theorem apply_vInput (effect : Effect) :
    ((s.apply client effect).heap c).vInput = (s.heap c).vInput := by
  by_cases h : c = client
  · subst h
    cases effect <;> simp [apply]
  · rw [apply_heap_of_ne s h]

theorem apply_socket (effect : Effect) :
    ((s.apply client effect).heap c).socket = (s.heap c).socket := by
  by_cases h : c = client
  · subst h
    cases effect <;> simp [apply]
  · rw [apply_heap_of_ne s h]

theorem applyAll_heap_of_ne {c client : ClientId} (h : c ≠ client) (effects : List Effect) :
    (s.applyAll client effects).heap c = s.heap c := by
  induction effects generalizing s with
  | nil => rfl
  | cons effect effects ih => rw [applyAll_cons, ih, apply_heap_of_ne s h]

theorem applyAll_vInput (effects : List Effect) :
    ((s.applyAll client effects).heap c).vInput = (s.heap c).vInput := by
  induction effects generalizing s with
  | nil => rfl
  | cons effect effects ih => rw [applyAll_cons, ih, apply_vInput]

theorem applyAll_socket (effects : List Effect) :
    ((s.applyAll client effects).heap c).socket = (s.heap c).socket := by
  induction effects generalizing s with
  | nil => rfl
  | cons effect effects ih => rw [applyAll_cons, ih, apply_socket]

end

end State

/-- `*std::find_if(clients.begin(), clients.end(), ...)` by socket. -/
def findClient (heap : ClientId → Client) (clients : List ClientId) (client : ClientId) :
    Option ClientId :=
  clients.find? fun c => (heap client).socket = (heap c).socket

theorem findClient_of_distinct {heap : ClientId → Client} {clients : List ClientId}
    {client : ClientId}
    (hdistinct : ∀ c ∈ clients, (heap client).socket = (heap c).socket → client = c)
    (hmem : client ∈ clients) : findClient heap clients client = some client := by
  cases hfind : findClient heap clients client with
  | none =>
    have hnone := List.find?_eq_none.mp hfind client hmem
    exact absurd (by simp) hnone
  | some result =>
    have hsocket : (heap client).socket = (heap result).socket := by
      simpa using List.find?_some hfind
    rw [hdistinct result (List.mem_of_find?_eq_some hfind) hsocket]

theorem findClient_of_nodup {heap : ClientId → Client} {clients : List ClientId} {client : ClientId}
    (hnodup : (clients.map fun c => (heap c).socket).Nodup) (hmem : client ∈ clients) :
    findClient heap clients client = some client :=
  findClient_of_distinct (fun _ hc heq => List.inj_on_of_nodup_map hnodup hmem hc heq) hmem

/-- A message that was handled, with the database it met. -/
structure Handling where
  client : ClientId
  input : Packet
  db : Database
  before : State
  after : State

/-- The state of the main thread between two writes of a pass, with the
handlings so far. -/
structure Pass where
  state : State
  done : List Handling

/-- What a pass finds: the players and the client objects as the other threads
have left them. -/
structure Turn where
  clients : List ClientId
  heap : ClientId → Client

namespace Server

variable (server : Server) (dbs : Nat → Database)

/-- One round of `for (std::string input : vInput)`. -/
def handleNext (client : ClientId) (p : Pass) (input : Packet) : Pass :=
  if p.state.fate = .alive then
    let db := dbs p.done.length
    let effects := server.handleInput db p.state.users (p.state.heap client) input
    let after := (p.state.applyAll client effects).record (.handled client input)
    ⟨after, p.done ++ [⟨client, input, db, p.state, after⟩]⟩
  else p

/-- One round of the first loop over `clients`.  The queue is that of the first
client with the same socket. -/
def clientTurn (clients : List ClientId) (p : Pass) (client : ClientId) : Pass :=
  match findClient p.state.heap clients client with
  | none => p
  | some result =>
    let vInput := (p.state.heap result).vInput
    vInput.foldl (server.handleNext dbs client)
      { p with state := p.state.modify result fun c => { c with vInput := [] } }

/-- One round of the second loop. -/
def writeBack (clients : List ClientId) (s : State) (client : ClientId) : State :=
  match findClient s.heap clients client with
  | none => s
  | some c =>
    let current := s.heap client
    s.modify c fun c =>
      { c with
        connected := current.connected
        loggedIn := current.loggedIn
        roomID := current.roomID
        name := current.name
        type := current.type }

/-- A player that is found itself is written back to itself. -/
theorem writeBack_of_findClient {clients : List ClientId} {s : State} {client : ClientId}
    (h : findClient s.heap clients client = some client) : writeBack clients s client = s := by
  rw [writeBack, h]
  simp [State.modify]

theorem writeBack_vInput (clients : List ClientId) (s : State) (client c : ClientId) :
    ((writeBack clients s client).heap c).vInput = (s.heap c).vInput := by
  unfold writeBack
  cases findClient s.heap clients client with
  | none => rfl
  | some result =>
    by_cases hc : c = result
    · subst hc
      rw [State.modify_heap_self]
    · rw [State.modify_heap_of_ne _ hc]

theorem writeBack_socket (clients : List ClientId) (s : State) (client c : ClientId) :
    ((writeBack clients s client).heap c).socket = (s.heap c).socket := by
  unfold writeBack
  cases findClient s.heap clients client with
  | none => rfl
  | some result =>
    by_cases hc : c = result
    · subst hc
      rw [State.modify_heap_self]
    · rw [State.modify_heap_of_ne _ hc]

theorem writeBack_log (clients : List ClientId) (s : State) (client : ClientId) :
    (writeBack clients s client).log = s.log := by
  unfold writeBack
  cases findClient s.heap clients client <;> rfl

/-- `Server::Update` from the copy of the player list on. -/
def update (clients : List ClientId) (p : Pass) : Pass :=
  let q := clients.foldl (fun p client =>
    if p.state.fate = .alive then server.clientTurn dbs clients p client else p) p
  if q.state.fate = .alive then { q with state := clients.foldl (writeBack clients) q.state } else q

/-- Passes one after another, while the process runs. -/
def serve (p : Pass) (turns : List Turn) : Pass :=
  turns.foldl (fun p turn =>
    if p.state.fate = .alive then
      server.update dbs turn.clients { p with state := { p.state with heap := turn.heap } }
    else p) p

end Server

/-! ## The invariant rule of a pass

Outside the handling of messages a pass writes client objects only.  What
survives any change of the heap and the handling of one message therefore
survives a pass, and a sequence of passes. -/

namespace Server

section

variable {server : Server} {dbs : Nat → Database} {P : Pass → Prop}
  (hheap : ∀ (p : Pass) (heap : ClientId → Client), P p →
    P { p with state := { p.state with heap := heap } })
  (hnext : ∀ (p : Pass) (client : ClientId) (input : Packet), p.state.fate = .alive → P p →
    P (server.handleNext dbs client p input))

include hnext in
theorem handleNext_invariant (client : ClientId) (p : Pass) (input : Packet) (h : P p) :
    P (server.handleNext dbs client p input) := by
  by_cases halive : p.state.fate = .alive
  · exact hnext p client input halive h
  · rwa [handleNext, if_neg halive]

include hheap hnext

theorem clientTurn_invariant (clients : List ClientId) (p : Pass) (client : ClientId) (h : P p) :
    P (server.clientTurn dbs clients p client) := by
  unfold clientTurn
  cases findClient p.state.heap clients client with
  | none => exact h
  | some result =>
    exact List.foldlRecOn _ _ (hheap p _ h) fun p hp input _ =>
      handleNext_invariant hnext client p input hp

omit hnext in
theorem writeBack_invariant (clients : List ClientId) (p : Pass) (client : ClientId) (h : P p) :
    P { p with state := writeBack clients p.state client } := by
  unfold writeBack
  cases findClient p.state.heap clients client with
  | none => exact h
  | some c => exact hheap p _ h

theorem update_invariant (clients : List ClientId) (p : Pass) (h : P p) :
    P (server.update dbs clients p) := by
  unfold update
  have hloop : P (clients.foldl (fun p client =>
      if p.state.fate = .alive then server.clientTurn dbs clients p client else p) p) := by
    refine List.foldlRecOn clients _ h fun p hp client _ => ?_
    by_cases halive : p.state.fate = .alive
    · rw [if_pos halive]
      exact clientTurn_invariant hheap hnext clients p client hp
    · rwa [if_neg halive]
  generalize clients.foldl _ p = q at hloop
  by_cases halive : q.state.fate = .alive
  · rw [if_pos halive]
    exact List.foldlRecOn (motive := fun s => P { q with state := s }) clients _ hloop
      fun s hs client _ => writeBack_invariant hheap clients { q with state := s } client hs
  · rwa [if_neg halive]

/-- What holds at the start, whatever the client objects are, and survives the
handling of one message holds after every sequence of passes. -/
theorem serve_invariant (p : Pass) (turns : List Turn) (h : P p) :
    P (server.serve dbs p turns) := by
  refine List.foldlRecOn turns _ h fun p hp turn _ => ?_
  by_cases halive : p.state.fate = .alive
  · rw [if_pos halive]
    exact update_invariant hheap hnext turn.clients _ (hheap p turn.heap hp)
  · rwa [if_neg halive]

end

/-- A handling as the loop makes it. -/
structure Handles (server : Server) (dbs : Nat → Database) (h : Handling) : Prop where
  alive : h.before.fate = .alive
  db_eq : ∃ k, h.db = dbs k
  after_eq : h.after = (h.before.applyAll h.client (server.handleInput h.db h.before.users
    (h.before.heap h.client) h.input)).record (.handled h.client h.input)

/-- What one round of the inner loop does while the process runs. -/
theorem handleNext_alive (server : Server) (dbs : Nat → Database) {p : Pass} (client : ClientId)
    (input : Packet) (halive : p.state.fate = .alive) :
    ∃ h, server.Handles dbs h ∧ h.before = p.state ∧
      server.handleNext dbs client p input = ⟨h.after, p.done ++ [h]⟩ := by
  let db := dbs p.done.length
  let effects := server.handleInput db p.state.users (p.state.heap client) input
  let after := (p.state.applyAll client effects).record (.handled client input)
  exact ⟨⟨client, input, db, p.state, after⟩, ⟨halive, ⟨_, rfl⟩, rfl⟩, rfl, if_pos halive⟩

theorem handleNext_handles {server : Server} {dbs : Nat → Database} {p : Pass}
    (client : ClientId) (input : Packet) (halive : p.state.fate = .alive)
    (hp : ∀ h ∈ p.done, server.Handles dbs h) :
    ∀ h ∈ (server.handleNext dbs client p input).done, server.Handles dbs h := by
  obtain ⟨h', hh', -, heq⟩ := handleNext_alive server dbs client input halive
  intro h hh
  rw [heq, List.mem_append, List.mem_singleton] at hh
  rcases hh with hh | rfl
  · exact hp h hh
  · exact hh'

theorem handles_of_mem_serve {server : Server} {dbs : Nat → Database} {s : State}
    {turns : List Turn} {h : Handling} (hdone : h ∈ (server.serve dbs ⟨s, []⟩ turns).done) :
    server.Handles dbs h :=
  serve_invariant (P := fun p => ∀ h ∈ p.done, server.Handles dbs h) (fun _ _ hp => hp)
    (fun _ client input halive hp => handleNext_handles client input halive hp) ⟨s, []⟩ turns
    (fun _ hnil => absurd hnil List.not_mem_nil) h hdone

/-! ### Where the handled messages come from -/

section

variable {server : Server} {dbs : Nat → Database} {Q : Packet → Prop} {clients : List ClientId}

/-- `Q` holds of what is queued and of what has been handled. -/
def Queued (Q : Packet → Prop) (clients : List ClientId) (p : Pass) : Prop :=
  (∀ c ∈ clients, ∀ input ∈ (p.state.heap c).vInput, Q input) ∧ ∀ h ∈ p.done, Q h.input

theorem handleNext_queued (client : ClientId) {p : Pass} {input : Packet} (hinput : Q input)
    (hp : Queued Q clients p) : Queued Q clients (server.handleNext dbs client p input) := by
  unfold handleNext
  split
  case isTrue =>
    constructor
    · intro c hc queued hqueued
      rw [State.record_heap, State.applyAll_vInput] at hqueued
      exact hp.1 c hc queued hqueued
    · intro h hh
      rcases List.mem_append.mp hh with hh | hh
      · exact hp.2 h hh
      · rw [List.mem_singleton.mp hh]
        exact hinput
  case isFalse => exact hp

theorem clientTurn_queued (client : ClientId) {p : Pass} (hp : Queued Q clients p) :
    Queued Q clients (server.clientTurn dbs clients p client) := by
  unfold clientTurn
  cases hfind : findClient p.state.heap clients client with
  | none => exact hp
  | some result =>
    have hresult : result ∈ clients := List.mem_of_find?_eq_some hfind
    refine List.foldlRecOn _ _ ⟨?_, hp.2⟩ fun q hq input hinput => ?_
    · intro c hc input hinput
      by_cases hc' : c = result
      · rw [hc', State.modify_heap_self] at hinput
        exact absurd hinput List.not_mem_nil
      · rw [State.modify_heap_of_ne _ hc'] at hinput
        exact hp.1 c hc input hinput
    · exact handleNext_queued client (hp.1 result hresult input hinput) hq

theorem update_queued {p : Pass} (hp : Queued Q clients p) :
    ∀ h ∈ (server.update dbs clients p).done, Q h.input := by
  have hloop : Queued Q clients (clients.foldl (fun p client =>
      if p.state.fate = .alive then server.clientTurn dbs clients p client else p) p) := by
    refine List.foldlRecOn clients _ hp fun p hp client _ => ?_
    by_cases halive : p.state.fate = .alive
    · rw [if_pos halive]
      exact clientTurn_queued client hp
    · rwa [if_neg halive]
  unfold update
  dsimp only
  split <;> exact hloop.2

/-- What holds of every message queued for a player holds of every message handled. -/
theorem serve_queued {p : Pass} {turns : List Turn} (hp : ∀ h ∈ p.done, Q h.input)
    (hturns : ∀ turn ∈ turns, ∀ c ∈ turn.clients, ∀ input ∈ (turn.heap c).vInput, Q input) :
    ∀ h ∈ (server.serve dbs p turns).done, Q h.input := by
  refine List.foldlRecOn (motive := fun p : Pass => ∀ h ∈ p.done, Q h.input) turns _ hp
    fun p hp turn hturn => ?_
  by_cases halive : p.state.fate = .alive
  · rw [if_pos halive]
    exact update_queued ⟨hturns turn hturn, hp⟩
  · rwa [if_neg halive]

end

theorem serve_update (server : Server) (dbs : Nat → Database) (clients : List ClientId)
    (p : Pass) (halive : p.state.fate = .alive) :
    server.serve dbs p [⟨clients, p.state.heap⟩] = server.update dbs clients p := by
  rw [serve, List.foldl_cons, List.foldl_nil, if_pos halive]

theorem findClient_singleton (heap : ClientId → Client) (client : ClientId) :
    findClient heap [client] client = some client := by
  simp [findClient]

theorem serve_singleton (server : Server) (dbs : Nat → Database) (p : Pass) (client : ClientId)
    (heap : ClientId → Client) (halive : p.state.fate = .alive) :
    (server.serve dbs p [⟨[client], heap⟩]).done =
      ((heap client).vInput.foldl (server.handleNext dbs client)
        ⟨({ p.state with heap := heap } : State).modify client
          (fun c => { c with vInput := [] }), p.done⟩).done := by
  simp only [serve, List.foldl_cons, List.foldl_nil, halive, if_true, update, clientTurn,
    findClient_singleton]
  split <;> rfl

theorem writeBack_users (clients : List ClientId) (s : State) (client : ClientId) :
    (writeBack clients s client).users = s.users := by
  unfold writeBack
  cases findClient s.heap clients client <;> rfl

theorem serve_singleton_users (server : Server) (dbs : Nat → Database) (p : Pass)
    (client : ClientId) (heap : ClientId → Client) (halive : p.state.fate = .alive) :
    (server.serve dbs p [⟨[client], heap⟩]).state.users =
      ((heap client).vInput.foldl (server.handleNext dbs client)
        ⟨({ p.state with heap := heap } : State).modify client
          (fun c => { c with vInput := [] }), p.done⟩).state.users := by
  simp only [serve, List.foldl_cons, List.foldl_nil, halive, if_true, update, clientTurn,
    findClient_singleton]
  split
  · exact writeBack_users _ _ _
  · rfl

theorem exists_handling_singleton (server : Server) (dbs : Nat → Database) (s : State)
    (client : ClientId) (heap : ClientId → Client) (input : Packet) (halive : s.fate = .alive)
    (hqueue : (heap client).vInput = [input]) :
    ∃ h ∈ (server.serve dbs ⟨s, []⟩ [⟨[client], heap⟩]).done,
      h.client = client ∧ h.input = input ∧ h.db = dbs 0 ∧ h.before.users = s.users ∧
        h.before.heap client = { heap client with vInput := [] } ∧
        (server.serve dbs ⟨s, []⟩ [⟨[client], heap⟩]).state.users = h.after.users := by
  rw [serve_singleton server dbs ⟨s, []⟩ client heap halive,
    serve_singleton_users server dbs ⟨s, []⟩ client heap halive, hqueue, List.foldl_cons,
    List.foldl_nil, handleNext, State.modify_fate, if_pos halive]
  refine ⟨_, List.mem_singleton_self _, rfl, rfl, rfl, rfl, ?_, rfl⟩
  simp [State.modify]

end Server

/-- A client that has not logged in, with its queue. -/
def Client.guest (socket : Socket) (vInput : List Packet) : Client where
  connected := true
  loggedIn := false
  roomID := 0
  vInput := vInput
  ip := []
  name := []
  socket := socket
  type := .guest

end WhiteSmo
