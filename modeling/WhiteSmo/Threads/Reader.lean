import WhiteSmo.Threads.Shared

/-!
# A reader

`SMOReader` for one client.  The search goes through the players as `GetPlayers`
returns them.  The removal at the end works on such copies as well, and leaves the
room as it is.
-/

namespace WhiteSmo

/-- Where a reader is.  `result` is the client that the search has found. -/
inductive ReaderPc
  | searchLock
  | search
  | searchUnlock (result : Option ClientId)
  | test (result : ClientId)
  | receive (result : ClientId)
  /-- `chunk` is `none` when `Receive` has returned 0. -/
  | lock (result : ClientId) (chunk : Option Chunk)
  | again (result : ClientId) (chunk : Option Chunk)
  | close (result : ClientId)
  | closed (result : ClientId)
  /-- In `DisconnectClient`, with what it still sends. -/
  | notify (result : ClientId) (effects : List Effect)
  | clear (result : ClientId)
  | push (result : ClientId) (chunk : Chunk)
  | unlock
  | eraseLock
  | erase
  | eraseUnlock
  | finished
  deriving DecidableEq

/-- Between a lock and its unlock. -/
def ReaderPc.holds : ReaderPc → Bool
  | .search | .searchUnlock _ | .again _ _ | .close _ | .closed _ | .notify _ _ | .clear _
  | .push _ _ | .unlock | .erase | .eraseUnlock => true
  | _ => false

/-- The accesses of readers. -/
def Access.ByReader : Access → Prop
  | .silent | .lock | .unlock | .write _ _ | .push _ _ => True
  | _ => False

namespace Server

/-- One step of `Server::SMOReader`. -/
def smoReader (server : Server) (env : Env) (client : ClientId) (s : Shared) :
    ReaderPc → Option (Access × ReaderPc)
  | .searchLock => some (.lock, .search)
  | .search => some (.silent, .searchUnlock (findClient s.heap s.room.getPlayers client))
  | .searchUnlock none => some (.unlock, .searchLock)
  | .searchUnlock (some result) => some (.unlock, .test result)
  | .test result =>
    if (s.heap result).connected then some (.silent, .receive result) else some (.silent, .eraseLock)
  | .receive result =>
    match env.received with
    | .failed => some (.silent, .searchLock)
    | .closed => some (.silent, .lock result none)
    | .data chunk => some (.silent, .lock result (some chunk))
  | .lock result chunk => some (.lock, .again result chunk)
  | .again result chunk =>
    -- a search without success keeps the old result
    let result := (findClient s.heap s.room.getPlayers client).getD result
    match chunk with
    | none => some (.silent, .close result)
    | some chunk => some (.silent, .push result chunk)
  | .close result => some (.write result (.disconnect (s.heap result).socket), .closed result)
  | .closed result =>
    if (s.heap result).loggedIn then
      some (.silent, .notify result (server.disconnectClient s.room s.heap (s.heap result)))
    else some (.silent, .clear result)
  | .notify result [] => some (.silent, .clear result)
  | .notify result (effect :: effects) => some (.write result effect, .notify result effects)
  | .clear result => some (.write result (.setConnected false), .unlock)
  | .push result chunk => some (.push result (Packet.ofChunk chunk), .unlock)
  | .unlock => some (.unlock, .searchLock)
  | .eraseLock => some (.lock, .erase)
  | .erase => some (.silent, .eraseUnlock)
  | .eraseUnlock => some (.unlock, .finished)
  | .finished => none

/-- What one step of a reader is. -/
inductive ReaderStep (server : Server) (env : Env) (client : ClientId) (s : Shared) :
    ReaderPc → Access → ReaderPc → Prop
  | searchLock : ReaderStep server env client s .searchLock .lock .search
  | search : ReaderStep server env client s .search .silent
      (.searchUnlock (findClient s.heap s.room.getPlayers client))
  | missing : ReaderStep server env client s (.searchUnlock none) .unlock .searchLock
  | found {result : ClientId} :
      ReaderStep server env client s (.searchUnlock (some result)) .unlock (.test result)
  | connected {result : ClientId} (hconnected : (s.heap result).connected = true) :
      ReaderStep server env client s (.test result) .silent (.receive result)
  | disconnected {result : ClientId} (hconnected : (s.heap result).connected = false) :
      ReaderStep server env client s (.test result) .silent .eraseLock
  | receiveFailed {result : ClientId} (hreceived : env.received = .failed) :
      ReaderStep server env client s (.receive result) .silent .searchLock
  | receiveClosed {result : ClientId} (hreceived : env.received = .closed) :
      ReaderStep server env client s (.receive result) .silent (.lock result none)
  | receiveData {result : ClientId} {chunk : Chunk} (hreceived : env.received = .data chunk) :
      ReaderStep server env client s (.receive result) .silent (.lock result (some chunk))
  | lock {result : ClientId} {chunk : Option Chunk} :
      ReaderStep server env client s (.lock result chunk) .lock (.again result chunk)
  | againClosed {result : ClientId} :
      ReaderStep server env client s (.again result none) .silent
        (.close ((findClient s.heap s.room.getPlayers client).getD result))
  | againData {result : ClientId} {chunk : Chunk} :
      ReaderStep server env client s (.again result (some chunk)) .silent
        (.push ((findClient s.heap s.room.getPlayers client).getD result) chunk)
  | close {result : ClientId} :
      ReaderStep server env client s (.close result)
        (.write result (.disconnect (s.heap result).socket)) (.closed result)
  | closedLoggedIn {result : ClientId} (hlogged : (s.heap result).loggedIn = true) :
      ReaderStep server env client s (.closed result) .silent
        (.notify result (server.disconnectClient s.room s.heap (s.heap result)))
  | closedLoggedOut {result : ClientId} (hlogged : (s.heap result).loggedIn = false) :
      ReaderStep server env client s (.closed result) .silent (.clear result)
  | notified {result : ClientId} :
      ReaderStep server env client s (.notify result []) .silent (.clear result)
  | notify {result : ClientId} {effect : Effect} {effects : List Effect} :
      ReaderStep server env client s (.notify result (effect :: effects)) (.write result effect)
        (.notify result effects)
  | clear {result : ClientId} :
      ReaderStep server env client s (.clear result) (.write result (.setConnected false)) .unlock
  | push {result : ClientId} {chunk : Chunk} :
      ReaderStep server env client s (.push result chunk) (.push result (Packet.ofChunk chunk))
        .unlock
  | unlock : ReaderStep server env client s .unlock .unlock .searchLock
  | eraseLock : ReaderStep server env client s .eraseLock .lock .erase
  | erase : ReaderStep server env client s .erase .silent .eraseUnlock
  | eraseUnlock : ReaderStep server env client s .eraseUnlock .unlock .finished

section

variable {server : Server} {env : Env} {client : ClientId} {s : Shared} {pc pc' : ReaderPc}
  {a : Access}

theorem readerStep_of_smoReader (h : server.smoReader env client s pc = some (a, pc')) :
    ReaderStep server env client s pc a pc' := by
  cases pc with
  | searchLock => cases h; exact .searchLock
  | search => cases h; exact .search
  | searchUnlock result =>
    cases result with
    | none => cases h; exact .missing
    | some result => cases h; exact .found
  | test result =>
    cases hconnected : (s.heap result).connected <;> simp only [smoReader, hconnected] at h <;>
      cases h
    · exact .disconnected hconnected
    · exact .connected hconnected
  | receive result =>
    cases hreceived : env.received <;> simp only [smoReader, hreceived] at h <;> cases h
    · exact .receiveFailed hreceived
    · exact .receiveClosed hreceived
    · exact .receiveData hreceived
  | lock result chunk => cases h; exact .lock
  | again result chunk =>
    cases chunk with
    | none => cases h; exact .againClosed
    | some chunk => cases h; exact .againData
  | close result => cases h; exact .close
  | closed result =>
    cases hlogged : (s.heap result).loggedIn <;> simp only [smoReader, hlogged] at h <;> cases h
    · exact .closedLoggedOut hlogged
    · exact .closedLoggedIn hlogged
  | notify result effects =>
    cases effects with
    | nil => cases h; exact .notified
    | cons effect effects => cases h; exact .notify
  | clear result => cases h; exact .clear
  | push result chunk => cases h; exact .push
  | unlock => cases h; exact .unlock
  | eraseLock => cases h; exact .eraseLock
  | erase => cases h; exact .erase
  | eraseUnlock => cases h; exact .eraseUnlock
  | finished => cases h

theorem smoReader_holds (h : server.smoReader env client s pc = some (a, pc')) :
    a.holds pc.holds = some pc'.holds := by
  cases readerStep_of_smoReader h <;> rfl

theorem smoReader_access (h : server.smoReader env client s pc = some (a, pc')) : a.ByReader := by
  cases readerStep_of_smoReader h <;> trivial

end

end Server
end WhiteSmo
