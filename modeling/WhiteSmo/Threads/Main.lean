import WhiteSmo.Threads.Shared

/-!
# The main thread

`Start`, and `Update` as it is called from there.  The handling of a message is
the list of writes that `handleInput` gives for the state in which it begins, made
one by one.  What it reads of a client while it goes on, only it writes.
-/

namespace WhiteSmo

/-- Where the main thread is, with the locals that are still in use. -/
inductive MainPc
  | create
  | spawn
  | setRunning
  /-- The arguments of `Update`, read without the lock in either order. -/
  | arguments
  | ipRead (ip : Bytes)
  | connectingRead (connecting : Bool)
  | enter (ip : Bytes) (connecting : Bool)
  | entered (ip : Bytes) (connecting : Bool)
  | leave (clients : List ClientId)
  /-- The head of the first loop over `clients`. -/
  | turns (clients todo : List ClientId)
  | copy (clients : List ClientId) (client : ClientId) (todo : List ClientId)
  | clear (clients : List ClientId) (client result : ClientId) (todo : List ClientId)
    (vInput : List Packet)
  | taken (clients : List ClientId) (client : ClientId) (todo : List ClientId)
    (vInput : List Packet)
  /-- The head of the loop over `vInput`. -/
  | inputs (clients : List ClientId) (client : ClientId) (todo : List ClientId)
    (vInput : List Packet)
  | handle (clients : List ClientId) (client : ClientId) (todo : List ClientId) (input : Packet)
    (effects : List Effect) (vInput : List Packet)
  /-- The head of the second loop. -/
  | backs (clients todo : List ClientId)
  | back (clients : List ClientId) (client : ClientId) (todo : List ClientId)
  | backed (clients todo : List ClientId)
  deriving DecidableEq

/-- Between a lock and its unlock. -/
def MainPc.holds : MainPc → Bool
  | .entered _ _ | .leave _ | .copy _ _ _ | .clear _ _ _ _ _ | .taken _ _ _ _ | .back _ _ _
  | .backed _ _ => true
  | _ => false

/-- The accesses of the main thread at a place.  It writes to the manager in one place. -/
def Access.ByMain (pc : MainPc) : Access → Prop
  | .manager ip connecting => pc = .entered ip connecting
  | .logged _ | .accept _ | .close _ | .throw | .answer _ _ _ | .push _ _ => False
  | _ => True

namespace Server

/-- One step of `Server::Start`. -/
def start (server : Server) (env : Env) (s : Shared) : MainPc → Access × MainPc
  | .create => (.silent, .spawn)
  | .spawn => (.createListener, .setRunning)
  | .setRunning => (.setRunning, .arguments)
  | .arguments =>
    if env.ipFirst then (.silent, .ipRead s.currentIP) else (.silent, .connectingRead s.connecting)
  | .ipRead ip => (.silent, .enter ip s.connecting)
  | .connectingRead connecting => (.silent, .enter s.currentIP connecting)
  -- from here on `Update`
  | .enter ip connecting => (.lock, .entered ip connecting)
  | .entered ip connecting => (.manager ip connecting, .leave s.room.getPlayers)
  | .leave clients => (.unlock, .turns clients clients)
  | .turns clients [] => (.silent, .backs clients clients)
  | .turns clients (client :: todo) => (.lock, .copy clients client todo)
  | .copy clients client todo =>
    match findClient s.heap clients client with
    | none => (.silent, .taken clients client todo [])
    | some result => (.silent, .clear clients client result todo (s.heap result).vInput)
  | .clear clients client result todo vInput =>
    (.clearInput result, .taken clients client todo vInput)
  | .taken clients client todo vInput => (.unlock, .inputs clients client todo vInput)
  | .inputs clients _ todo [] => (.silent, .turns clients todo)
  | .inputs clients client todo (input :: vInput) =>
    (.silent, .handle clients client todo input
      (server.handleInput env.db s.users (s.heap client) input) vInput)
  | .handle clients client todo input [] vInput =>
    (.handled client input, .inputs clients client todo vInput)
  | .handle clients client todo input (effect :: effects) vInput =>
    (.write client effect, .handle clients client todo input effects vInput)
  | .backs _ [] => (.silent, .arguments)
  | .backs clients (client :: todo) => (.lock, .back clients client todo)
  | .back clients client todo => (.writeBack clients client, .backed clients todo)
  | .backed clients todo => (.unlock, .backs clients todo)

/-- What one step of the main thread is. -/
inductive StartStep (server : Server) (env : Env) (s : Shared) : MainPc → Access → MainPc → Prop
  | create : StartStep server env s .create .silent .spawn
  | spawn : StartStep server env s .spawn .createListener .setRunning
  | setRunning : StartStep server env s .setRunning .setRunning .arguments
  | ipFirst (hfirst : env.ipFirst = true) :
      StartStep server env s .arguments .silent (.ipRead s.currentIP)
  | connectingFirst (hfirst : env.ipFirst = false) :
      StartStep server env s .arguments .silent (.connectingRead s.connecting)
  | ipRead {ip : Bytes} : StartStep server env s (.ipRead ip) .silent (.enter ip s.connecting)
  | connectingRead {connecting : Bool} :
      StartStep server env s (.connectingRead connecting) .silent (.enter s.currentIP connecting)
  | enter {ip : Bytes} {connecting : Bool} :
      StartStep server env s (.enter ip connecting) .lock (.entered ip connecting)
  | manager {ip : Bytes} {connecting : Bool} :
      StartStep server env s (.entered ip connecting) (.manager ip connecting)
        (.leave s.room.getPlayers)
  | leave {clients : List ClientId} :
      StartStep server env s (.leave clients) .unlock (.turns clients clients)
  | turnsEnd {clients : List ClientId} :
      StartStep server env s (.turns clients []) .silent (.backs clients clients)
  | turn {clients todo : List ClientId} {client : ClientId} :
      StartStep server env s (.turns clients (client :: todo)) .lock (.copy clients client todo)
  | notFound {clients todo : List ClientId} {client : ClientId}
      (hfind : findClient s.heap clients client = none) :
      StartStep server env s (.copy clients client todo) .silent (.taken clients client todo [])
  | copy {clients todo : List ClientId} {client result : ClientId}
      (hfind : findClient s.heap clients client = some result) :
      StartStep server env s (.copy clients client todo) .silent
        (.clear clients client result todo (s.heap result).vInput)
  | clear {clients todo : List ClientId} {client result : ClientId} {vInput : List Packet} :
      StartStep server env s (.clear clients client result todo vInput) (.clearInput result)
        (.taken clients client todo vInput)
  | taken {clients todo : List ClientId} {client : ClientId} {vInput : List Packet} :
      StartStep server env s (.taken clients client todo vInput) .unlock
        (.inputs clients client todo vInput)
  | inputsEnd {clients todo : List ClientId} {client : ClientId} :
      StartStep server env s (.inputs clients client todo []) .silent (.turns clients todo)
  | input {clients todo : List ClientId} {client : ClientId} {input : Packet}
      {vInput : List Packet} :
      StartStep server env s (.inputs clients client todo (input :: vInput)) .silent
        (.handle clients client todo input
          (server.handleInput env.db s.users (s.heap client) input) vInput)
  | handled {clients todo : List ClientId} {client : ClientId} {input : Packet}
      {vInput : List Packet} :
      StartStep server env s (.handle clients client todo input [] vInput) (.handled client input)
        (.inputs clients client todo vInput)
  | write {clients todo : List ClientId} {client : ClientId} {input : Packet} {effect : Effect}
      {effects : List Effect} {vInput : List Packet} :
      StartStep server env s (.handle clients client todo input (effect :: effects) vInput)
        (.write client effect) (.handle clients client todo input effects vInput)
  | backsEnd {clients : List ClientId} :
      StartStep server env s (.backs clients []) .silent .arguments
  | back {clients todo : List ClientId} {client : ClientId} :
      StartStep server env s (.backs clients (client :: todo)) .lock (.back clients client todo)
  | writeBack {clients todo : List ClientId} {client : ClientId} :
      StartStep server env s (.back clients client todo) (.writeBack clients client)
        (.backed clients todo)
  | backed {clients todo : List ClientId} :
      StartStep server env s (.backed clients todo) .unlock (.backs clients todo)

theorem startStep (server : Server) (env : Env) (s : Shared) (pc : MainPc) :
    StartStep server env s pc (server.start env s pc).1 (server.start env s pc).2 := by
  cases pc with
  | create => exact .create
  | spawn => exact .spawn
  | setRunning => exact .setRunning
  | arguments =>
    cases hfirst : env.ipFirst <;> simp only [start, hfirst]
    · exact .connectingFirst hfirst
    · exact .ipFirst hfirst
  | ipRead ip => exact .ipRead
  | connectingRead connecting => exact .connectingRead
  | enter ip connecting => exact .enter
  | entered ip connecting => exact .manager
  | leave clients => exact .leave
  | turns clients todo =>
    cases todo with
    | nil => exact .turnsEnd
    | cons client todo => exact .turn
  | copy clients client todo =>
    cases hfind : findClient s.heap clients client <;> simp only [start, hfind]
    · exact .notFound hfind
    · exact .copy hfind
  | clear clients client result todo vInput => exact .clear
  | taken clients client todo vInput => exact .taken
  | inputs clients client todo vInput =>
    cases vInput with
    | nil => exact .inputsEnd
    | cons input vInput => exact .input
  | handle clients client todo input effects vInput =>
    cases effects with
    | nil => exact .handled
    | cons effect effects => exact .write
  | backs clients todo =>
    cases todo with
    | nil => exact .backsEnd
    | cons client todo => exact .back
  | back clients client todo => exact .writeBack
  | backed clients todo => exact .backed

theorem startStep_of_start {server : Server} {env : Env} {s : Shared} {pc pc' : MainPc} {a : Access}
    (h : server.start env s pc = (a, pc')) : StartStep server env s pc a pc' := by
  have hstep := startStep server env s pc
  rwa [h] at hstep

theorem start_holds (server : Server) (env : Env) (s : Shared) (pc : MainPc) :
    (server.start env s pc).1.holds pc.holds = some (server.start env s pc).2.holds := by
  generalize hstart : server.start env s pc = r
  obtain ⟨a, pc'⟩ := r
  cases startStep_of_start hstart <;> rfl

theorem start_access (server : Server) (env : Env) (s : Shared) (pc : MainPc) :
    (server.start env s pc).1.ByMain pc := by
  generalize hstart : server.start env s pc = r
  obtain ⟨a, pc'⟩ := r
  cases startStep_of_start hstart <;> first | rfl | trivial

end Server
end WhiteSmo
