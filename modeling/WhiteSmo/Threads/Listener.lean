import Mathlib.Data.List.TakeWhile
import WhiteSmo.Threads.Shared

/-!
# The listener

`SMOListener`, and `logPrinter` as `CTCPServer::Listen` calls it with the address
of a new peer.  Other texts of the socket library do not contain `Incoming
connection from`, and `logPrinter` does nothing with them.
-/

namespace WhiteSmo

/-- The log text of `CTCPServer::Listen`, with the peer as `inet_ntoa` and `ntohs`
give it. -/
def logText (address port : Bytes) : Bytes :=
  ascii "[TCPServer][Info] Incoming connection from '" ++ address ++ ascii "' port '" ++ port ++
    ascii "'"

/-- What `logPrinter` keeps of its text: what is between the first quote and the
next one.  The second `erase` throws when there is no other quote. -/
def extractIP (text : Bytes) : Option Bytes :=
  let rest := if 39 ∈ text then (text.dropWhile (· ≠ 39)).drop 1 else text
  if 39 ∈ rest then some (rest.takeWhile (· ≠ 39)) else none

/-- `std::string(input, input[6]+2).erase(0,6)` for a signed `char`.  A negative
length is a huge `size_t`, for which the constructor throws. -/
def helloName (input : Packet) : Option Bytes :=
  let n := (input.bytes.getD 6 0).toInt8.toInt + 2
  if n < 0 then none else some ((input.bytes.take n.toNat).drop 6)

theorem extractIP_logText {address port : Bytes} (haddress : 39 ∉ address) :
    extractIP (logText address port) = some address := by
  have hhead : ∀ b ∈ ascii "[TCPServer][Info] Incoming connection from ",
      decide (b ≠ 39) = true := by
    decide +kernel
  have haddress' : ∀ b ∈ address, decide (b ≠ 39) = true := by
    intro b hb
    have hne : b ≠ 39 := fun heq => haddress (heq ▸ hb)
    simpa using hne
  have hopen : ascii "[TCPServer][Info] Incoming connection from '" =
      ascii "[TCPServer][Info] Incoming connection from " ++ [39] := by decide +kernel
  have hclose : ascii "' port '" = 39 :: ascii " port '" := by decide +kernel
  have htext : logText address port = ascii "[TCPServer][Info] Incoming connection from " ++
      39 :: (address ++ 39 :: (ascii " port '" ++ port ++ ascii "'")) := by
    simp [logText, hopen, hclose]
  have hrest : ((logText address port).dropWhile (· ≠ 39)).drop 1 =
      address ++ 39 :: (ascii " port '" ++ port ++ ascii "'") := by
    rw [htext, List.dropWhile_append_of_pos hhead]
    rfl
  have hquote : 39 ∈ logText address port := by
    rw [htext]
    exact List.mem_append_right _ List.mem_cons_self
  rw [extractIP, if_pos hquote, hrest, if_pos (List.mem_append_right _ List.mem_cons_self),
    List.takeWhile_append_of_pos haddress']
  simp

/-- Where the listener is.  `ip` is the address that `logPrinter` extracted for the
connection; the source does not keep it. -/
inductive ListenerPc
  | test
  | listen
  | logLock (socket : Socket) (text : Bytes)
  | log (socket : Socket) (text : Bytes)
  | logUnlock (socket : Socket) (ip : Bytes)
  | receive (socket : Socket) (ip : Bytes)
  | command (socket : Socket) (ip : Bytes) (input : Packet)
  | wait (socket : Socket) (ip : Bytes) (input : Packet)
  | helloLock (socket : Socket) (ip : Bytes) (input : Packet)
  | hello (socket : Socket) (ip : Bytes) (input : Packet)
  | helloUnlock
  | refuse (socket : Socket)
  | finished
  deriving DecidableEq

/-- Between a lock and its unlock. -/
def ListenerPc.holds : ListenerPc → Bool
  | .log _ _ | .logUnlock _ _ | .hello _ _ _ | .helloUnlock => true
  | _ => false

namespace Server

/-- One step of `Server::SMOListener`. -/
def smoListener (env : Env) (s : Shared) : ListenerPc → Option (Access × ListenerPc)
  | .test => if s.running then some (.silent, .listen) else some (.silent, .finished)
  | .listen =>
    match env.listened with
    | none => some (.silent, .test)
    | some (socket, address, port) => some (.accept socket, .logLock socket (logText address port))
  | .logLock socket text => some (.lock, .log socket text)
  | .log socket text =>
    match extractIP text with
    | none => some (.throw, .log socket text)
    | some ip => some (.logged ip, .logUnlock socket ip)
  | .logUnlock socket ip => some (.unlock, .receive socket ip)
  | .receive socket ip => some (.silent, .command socket ip (Packet.ofReceived env.received))
  | .command socket ip input =>
    if input.command = 2 then some (.silent, .wait socket ip input)
    else some (.silent, .refuse socket)
  | .wait socket ip input =>
    if s.connecting then some (.silent, .helloLock socket ip input)
    else some (.silent, .wait socket ip input)
  | .helloLock socket ip input => some (.lock, .hello socket ip input)
  | .hello socket ip input =>
    match helloName input with
    | none => some (.throw, .hello socket ip input)
    | some _ => some (.answer env socket ip, .helloUnlock)
  | .helloUnlock => some (.unlock, .test)
  | .refuse socket => some (.close socket, .test)
  | .finished => none

/-- What one step of the listener is. -/
inductive ListenerStep (env : Env) (s : Shared) : ListenerPc → Access → ListenerPc → Prop
  | running (hrunning : s.running = true) : ListenerStep env s .test .silent .listen
  | stopped (hrunning : s.running = false) : ListenerStep env s .test .silent .finished
  | nobody (hlistened : env.listened = none) : ListenerStep env s .listen .silent .test
  | accept {socket : Socket} {address port : Bytes}
      (hlistened : env.listened = some (socket, address, port)) :
      ListenerStep env s .listen (.accept socket) (.logLock socket (logText address port))
  | logLock {socket : Socket} {text : Bytes} :
      ListenerStep env s (.logLock socket text) .lock (.log socket text)
  | logThrow {socket : Socket} {text : Bytes} (htext : extractIP text = none) :
      ListenerStep env s (.log socket text) .throw (.log socket text)
  | logged {socket : Socket} {text ip : Bytes} (htext : extractIP text = some ip) :
      ListenerStep env s (.log socket text) (.logged ip) (.logUnlock socket ip)
  | logUnlock {socket : Socket} {ip : Bytes} :
      ListenerStep env s (.logUnlock socket ip) .unlock (.receive socket ip)
  | receive {socket : Socket} {ip : Bytes} :
      ListenerStep env s (.receive socket ip) .silent
        (.command socket ip (Packet.ofReceived env.received))
  | hello {socket : Socket} {ip : Bytes} {input : Packet} (hcommand : input.command = 2) :
      ListenerStep env s (.command socket ip input) .silent (.wait socket ip input)
  | other {socket : Socket} {ip : Bytes} {input : Packet} (hcommand : input.command ≠ 2) :
      ListenerStep env s (.command socket ip input) .silent (.refuse socket)
  | waited {socket : Socket} {ip : Bytes} {input : Packet} (hconnecting : s.connecting = true) :
      ListenerStep env s (.wait socket ip input) .silent (.helloLock socket ip input)
  | wait {socket : Socket} {ip : Bytes} {input : Packet} (hconnecting : s.connecting = false) :
      ListenerStep env s (.wait socket ip input) .silent (.wait socket ip input)
  | helloLock {socket : Socket} {ip : Bytes} {input : Packet} :
      ListenerStep env s (.helloLock socket ip input) .lock (.hello socket ip input)
  | helloThrow {socket : Socket} {ip : Bytes} {input : Packet} (hname : helloName input = none) :
      ListenerStep env s (.hello socket ip input) .throw (.hello socket ip input)
  | answer {socket : Socket} {ip name : Bytes} {input : Packet}
      (hname : helloName input = some name) :
      ListenerStep env s (.hello socket ip input) (.answer env socket ip) .helloUnlock
  | helloUnlock : ListenerStep env s .helloUnlock .unlock .test
  | refuse {socket : Socket} : ListenerStep env s (.refuse socket) (.close socket) .test

section

variable {env : Env} {s : Shared} {pc pc' : ListenerPc} {a : Access}

theorem listenerStep_of_smoListener (h : smoListener env s pc = some (a, pc')) :
    ListenerStep env s pc a pc' := by
  cases pc with
  | test =>
    cases hrunning : s.running <;> simp only [smoListener, hrunning] at h <;> cases h
    · exact .stopped hrunning
    · exact .running hrunning
  | listen =>
    cases hlistened : env.listened <;> simp only [smoListener, hlistened] at h <;> cases h
    · exact .nobody hlistened
    · exact .accept hlistened
  | logLock socket text => cases h; exact .logLock
  | log socket text =>
    cases htext : extractIP text <;> simp only [smoListener, htext] at h <;> cases h
    · exact .logThrow htext
    · exact .logged htext
  | logUnlock socket ip => cases h; exact .logUnlock
  | receive socket ip => cases h; exact .receive
  | command socket ip input =>
    by_cases hcommand : input.command = 2 <;> simp only [smoListener, hcommand] at h <;> cases h
    · exact .hello hcommand
    · exact .other hcommand
  | wait socket ip input =>
    cases hconnecting : s.connecting <;> simp only [smoListener, hconnecting] at h <;> cases h
    · exact .wait hconnecting
    · exact .waited hconnecting
  | helloLock socket ip input => cases h; exact .helloLock
  | hello socket ip input =>
    cases hname : helloName input <;> simp only [smoListener, hname] at h <;> cases h
    · exact .helloThrow hname
    · exact .answer hname
  | helloUnlock => cases h; exact .helloUnlock
  | refuse socket => cases h; exact .refuse
  | finished => cases h

theorem smoListener_holds (h : smoListener env s pc = some (a, pc')) :
    a.holds pc.holds = some pc'.holds := by
  cases listenerStep_of_smoListener h <;> rfl

end

end Server
end WhiteSmo
