import WhiteSmo.Library.Mutex
import WhiteSmo.Server.Update

/-!
# What the threads share

Three kinds of threads run: the main thread in `Start`, the listener, and one
reader for each client that was greeted.  They share the client objects, the room,
`_mutex`, `_running` and the fields of `ServerManager`.  Sockets are descriptors
of the operating system, which hands out a number that is not open.

Each step of a thread is one `Access`: a lock, an unlock, a call to the socket
library, a write outside the lock, or the writes of one critical section that no
unlocked read of another thread can tell apart.
-/

namespace WhiteSmo

inductive Thread
  | main
  | listener
  | reader (client : ClientId)
  deriving DecidableEq

structure Shared extends State where
  room : Room
  running : Bool
  mutex : Option Thread
  currentIP : Bytes
  connecting : Bool
  /-- `_mainThread`, the thread of the listener, has been created. -/
  mainThread : Bool
  readerThreads : List ClientId
  /-- The next client object. -/
  next : ClientId
  /-- The descriptors that are open. -/
  opened : Socket → Bool

/-- What the calls of one step return, and what the fields are that no constructor
sets. -/
structure Env where
  db : Database
  /-- Which argument of `Update` is evaluated first. -/
  ipFirst : Bool
  /-- A new connection with the address and the port of its peer. -/
  listened : Option (Socket × Bytes × Bytes)
  received : Received
  connected : Bool
  type : ClientType

inductive Access
  /-- Nothing shared is written. -/
  | silent
  | lock
  | unlock
  | createListener
  | setRunning
  /-- The first section of `Update`. -/
  | manager (ip : Bytes) (connecting : Bool)
  /-- The section of `logPrinter`. -/
  | logged (ip : Bytes)
  | clearInput (client : ClientId)
  | write (client : ClientId) (effect : Effect)
  | handled (client : ClientId) (input : Packet)
  | writeBack (clients : List ClientId) (client : ClientId)
  | accept (socket : Socket)
  | close (socket : Socket)
  | throw
  /-- The hello section; `ip` is the address extracted for the socket. -/
  | answer (env : Env) (socket : Socket) (ip : Bytes)
  | push (client : ClientId) (input : Packet)

/-- The `Client c` of the hello section. -/
def Server.greet (env : Env) (socket : Socket) (ip : Bytes) : Client where
  connected := env.connected
  loggedIn := false
  roomID := 0
  vInput := []
  ip := ip
  name := []
  socket := socket
  type := env.type

/-- The descriptors that are open behind a write. -/
def Effect.opened (opened : Socket → Bool) : Effect → Socket → Bool
  | .disconnect socket => Function.update opened socket false
  | _ => opened

namespace Shared

variable (server : Server) (t : Thread) (s : Shared)

def onState (f : State → State) : Shared := { s with toState := f s.toState }

def disconnect (socket : Socket) : Shared :=
  { s.onState (·.record (.closed socket)) with opened := Function.update s.opened socket false }

/-- One access of thread `t`, if it does not have to wait. -/
def access : Access → Option Shared
  | .silent => some s
  | .lock => if s.mutex = none then some { s with mutex := some t } else none
  | .unlock => some { s with mutex := none }
  | .createListener => some { s with mainThread := true }
  | .setRunning => some { s with running := true }
  | .manager ip connecting =>
    some { s with
      currentIP := ip
      connecting := if s.connecting = false then connecting else s.connecting }
  | .logged ip => some { s with currentIP := ip, connecting := true }
  | .clearInput client => some (s.onState (·.modify client fun c => { c with vInput := [] }))
  | .write client effect =>
    some { s.onState (·.apply client effect) with opened := effect.opened s.opened }
  | .handled client input => some (s.onState (·.record (.handled client input)))
  | .writeBack clients client => some (s.onState (Server.writeBack clients · client))
  | .accept socket =>
    if s.opened socket then none
    else
      some { s.onState (·.record (.accepted socket)) with
        opened := Function.update s.opened socket true }
  | .close socket => some (s.disconnect socket)
  | .throw => some { s with fate := .terminated }
  | .answer env socket ip =>
    some { s with
      heap := Function.update s.heap s.next (Server.greet env socket s.currentIP)
      log := s.log ++ [.sent socket server.helloReply, .setIP s.next ip s.currentIP,
        .answered s.next socket]
      connecting := false
      readerThreads := s.readerThreads ++ [s.next]
      next := s.next + 1 }
  | .push client input =>
    some (s.onState fun s => (s.modify client fun c =>
      { c with vInput := c.vInput ++ [input] }).record (.pushed client input))

variable {server t s} {s' : Shared} {a : Access}

theorem access_lock_iff : s.access server t .lock = some s' ↔
    s.mutex = none ∧ s' = { s with mutex := some t } := by
  by_cases hfree : s.mutex = none
  · simp [access, hfree, eq_comm]
  · simp [access, hfree]

theorem access_accept_iff {socket : Socket} : s.access server t (.accept socket) = some s' ↔
    s.opened socket = false ∧ s' = { s.onState (·.record (.accepted socket)) with
      opened := Function.update s.opened socket true } := by
  cases hopen : s.opened socket with
  | true => simp [access, hopen]
  | false => simp [access, hopen, eq_comm]

/-- `GetPlayers` hands out copies, so that no access changes the room. -/
theorem access_room (h : s.access server t a = some s') : s'.room = s.room := by
  cases a with
  | lock =>
    obtain ⟨-, rfl⟩ := access_lock_iff.mp h
    rfl
  | accept socket =>
    obtain ⟨-, rfl⟩ := access_accept_iff.mp h
    rfl
  | _ => cases h; rfl

end Shared

/-- Whether a thread that was between its lock and its unlock, or was not, is so
behind an access.  `none` if the access cannot be made there. -/
def Access.holds : Access → Bool → Option Bool
  | .lock, held => if held then none else some true
  | .unlock, held => if held then some false else none
  | _, held => some held

theorem Shared.access_moves {server : Server} {t : Thread} {s s' : Shared} {a : Access}
    {held held' : Bool} (h : s.access server t a = some s') (hheld : a.holds held = some held') :
    Mutex.Moves t s.mutex held s'.mutex held' := by
  cases a with
  | lock =>
    obtain ⟨hfree, rfl⟩ := access_lock_iff.mp h
    cases held <;> cases hheld
    rw [hfree]
    exact .acquire
  | unlock =>
    cases h
    cases held <;> cases hheld
    exact .release
  | accept socket =>
    obtain ⟨-, rfl⟩ := access_accept_iff.mp h
    cases hheld
    exact .keep
  | _ => cases h; cases hheld; exact .keep

end WhiteSmo
