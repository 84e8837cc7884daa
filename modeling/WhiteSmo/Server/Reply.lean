import WhiteSmo.Library.Framing
import WhiteSmo.Server.Data

/-!
# Messages to clients

Every send site of the server builds a body `out`, puts a header in front of it
and hands both to `CTCPServer::Send`.  The bodies are collected here under the
function that builds them, and a call is the list of writes it makes, in order.

The header is three zero bytes and `out.size()` narrowed to a `char`.
`outbound_decodable_iff` says for which calls a reader of the stream recovers
the bodies: those whose body has at most 255 bytes.
-/

namespace WhiteSmo

/-- A write of the server.  A function is the list of its writes in the order in
which the source makes them; the client is the one it was called for. -/
inductive Effect
  | setName (name : Bytes)
  | setConnected (connected : Bool)
  | setLoggedIn (loggedIn : Bool)
  | setRoomID (roomID : UInt32)
  | setUsers (users : List Row)
  /-- `_connection->Send(socket, header + out)` -/
  | send (socket : Socket) (out : Bytes)
  | disconnect (socket : Socket)
  /-- An exception leaves the function. -/
  | throw
  /-- The source has no defined behaviour from here on. -/
  | undefined
  deriving DecidableEq

/-- `std::string(3, '\0') + std::string(1, static_cast<char>(out.size()))` -/
def header (n : Nat) : Bytes := List.replicate 3 0 ++ [UInt8.ofNat n]

namespace Server

variable (server : Server)

/-- `static_cast<char>(_protocolVersion + offset)` -/
def replyByte (offset : UInt32) : UInt8 := (server.protocolVersion + offset).toUInt8

def helloReply : Bytes :=
  [server.replyByte 2] ++ [server.version.toUInt8] ++ server.name

def wrongPassword : Bytes := [server.replyByte 12] ++ [0] ++ [1] ++ ascii "Wrong password."

def correctPassword : Bytes :=
  [server.replyByte 12] ++ List.replicate 2 0 ++ ascii "Correct password."

def userJoined (name : Bytes) : Bytes := [server.replyByte 7] ++ ascii "User joined: " ++ name

def userLeft (name : Bytes) : Bytes := [server.replyByte 7] ++ ascii "User Left: " ++ name

def roomReply (room : Room) (value : Bytes) : Bytes :=
  let roomNames := room.name ++ [0] ++ room.description ++ [0]
  let roomStates := [UInt8.ofInt room.state]
  let roomFlags := [if room.flag then 1 else 0]
  [server.replyByte 12] ++ [1] ++ [0] ++ value ++ [0] ++ [1] ++ [1] ++
    roomNames ++ roomStates ++ roomFlags

/-- The clients that both notifiers go through: in the room of `client` by the
two integers, and not of its name. -/
def others (room : Room) (heap : ClientId → Client) (client : Client) : List ClientId :=
  room.getPlayers.filter fun c =>
    ¬ ((heap c).roomID ≠ client.roomID ∨ (heap c).name = client.name)

/-- `Server::ConnectClient`.  The text names the recipient. -/
def connectClient (room : Room) (heap : ClientId → Client) (client : Client) : List Effect :=
  (others room heap client).map fun c =>
    .send (heap c).socket (server.userJoined (heap c).name)

/-- `Server::DisconnectClient`.  The text goes to the client that left. -/
def disconnectClient (room : Room) (heap : ClientId → Client) (client : Client) : List Effect :=
  (others room heap client).map fun _ =>
    .send client.socket (server.userLeft client.name)

/-- `Server::JoinRoom`.  `values[2]` is read only when the room has a password
and without a check; `values.at(0)` is read after the room has been entered. -/
def joinRoom (room : Room) (client : Client) (values : List Bytes) : List Effect :=
  let enter :=
    .setRoomID room.id ::
      match values with
      | [] => [.throw]
      | value :: _ => [.send client.socket (server.roomReply room value)]
  if room.password = [] then enter
  else
    match values[2]? with
    | none => [.undefined]
    | some value => if room.password = value then enter else []

/-! ### Lengths of the bodies -/

theorem helloReply_length : server.helloReply.length = server.name.length + 2 := by
  simp [helloReply]

theorem wrongPassword_length : server.wrongPassword.length = 18 := by
  simp [wrongPassword, ascii]

theorem correctPassword_length : server.correctPassword.length = 20 := by
  simp [correctPassword, ascii]

theorem userJoined_length (name : Bytes) : (server.userJoined name).length = name.length + 14 := by
  simp [userJoined, ascii]

theorem userLeft_length (name : Bytes) : (server.userLeft name).length = name.length + 12 := by
  simp [userLeft, ascii]

theorem roomReply_length (room : Room) (value : Bytes) :
    (server.roomReply room value).length =
      value.length + room.name.length + room.description.length + 10 := by
  simp [roomReply]
  omega

end Server

/-! ## The stream of one socket -/

/-- A place of the source that sends. -/
inductive Call
  | hello (socket : Socket)
  | wrongPassword (socket : Socket)
  | correctPassword (socket : Socket)
  | connectClient (room : Room) (heap : ClientId → Client) (client : Client)
  | disconnectClient (room : Room) (heap : ClientId → Client) (client : Client)
  | joinRoom (room : Room) (client : Client) (values : List Bytes)

namespace Call

def effects (server : Server) : Call → List Effect
  | .hello socket => [.send socket server.helloReply]
  | .wrongPassword socket => [.send socket server.wrongPassword]
  | .correctPassword socket => [.send socket server.correctPassword]
  | .connectClient room heap client => server.connectClient room heap client
  | .disconnectClient room heap client => server.disconnectClient room heap client
  | .joinRoom room client values => server.joinRoom room client values

/-- The bodies that `effects` sends on `socket`. -/
def sentOn (socket : Socket) (effects : List Effect) : List Bytes :=
  effects.filterMap fun
    | .send s out => if s = socket then some out else none
    | _ => none

/-- The bodies sent on `socket` by calls made one after another. -/
def bodies (server : Server) (socket : Socket) (calls : List Call) : List Bytes :=
  calls.flatMap fun call => sentOn socket (call.effects server)

/-- What the peer of `socket` receives. -/
def stream (server : Server) (socket : Socket) (calls : List Call) : Bytes :=
  Framing.encode header (bodies server socket calls)

/-- Whether every text that a call puts on `socket` is short enough for the one
length byte of its message. -/
def Fits (server : Server) (socket : Socket) : Call → Prop
  | .hello s => s = socket → server.name.length ≤ 253
  | .wrongPassword _ | .correctPassword _ => True
  | .connectClient room heap client =>
    ∀ c ∈ Server.others room heap client, (heap c).socket = socket → (heap c).name.length ≤ 241
  | .disconnectClient room heap client =>
    client.socket = socket → Server.others room heap client ≠ [] → client.name.length ≤ 243
  | .joinRoom room client values =>
    client.socket = socket → room.password = [] ∨ values[2]? = some room.password →
      ∀ value ∈ values.head?,
        value.length + room.name.length + room.description.length ≤ 245

end Call

theorem header_length (n : Nat) : (header n).length = 4 := by simp [header]

theorem readLength_header (n : Nat) : Framing.readLength (header n) = n % 256 := by
  simp [header, Framing.readLength, List.replicate]

theorem readLength_header_eq_iff (n : Nat) : Framing.readLength (header n) = n ↔ n ≤ 255 := by
  rw [readLength_header]
  omega

namespace Call

theorem mem_sentOn {socket : Socket} {effects : List Effect} {out : Bytes} :
    out ∈ sentOn socket effects ↔ .send socket out ∈ effects := by
  simp only [sentOn, List.mem_filterMap]
  constructor
  · rintro ⟨effect, hmem, h⟩
    cases effect <;> simp at h
    case send s data =>
      obtain ⟨rfl, rfl⟩ := h
      exact hmem
  · intro h
    exact ⟨_, h, by simp⟩

theorem mem_joinRoom_send {server : Server} {room : Room} {client : Client} {values : List Bytes}
    {socket : Socket} {out : Bytes} :
    .send socket out ∈ server.joinRoom room client values ↔
      client.socket = socket ∧ (room.password = [] ∨ values[2]? = some room.password) ∧
        ∃ value ∈ values.head?, out = server.roomReply room value := by
  have henter : Effect.send socket out ∈ (.setRoomID room.id ::
      match values with
      | [] => [Effect.throw]
      | value :: _ => [.send client.socket (server.roomReply room value)]) ↔
      client.socket = socket ∧ ∃ value ∈ values.head?, out = server.roomReply room value := by
    cases values with
    | nil => simp
    | cons value rest => simp [eq_comm]
  unfold Server.joinRoom
  by_cases hpass : room.password = []
  · simp only [hpass, if_true, henter, true_or, true_and]
  · simp only [hpass, if_false, false_or]
    cases hthird : values[2]? with
    | none => simp
    | some third =>
      by_cases heq : room.password = third
      · simp only [heq, if_true, henter, true_and]
      · simp [heq, Ne.symm heq]

theorem fits_iff (server : Server) (socket : Socket) (call : Call) :
    call.Fits server socket ↔ ∀ out ∈ sentOn socket (call.effects server), out.length ≤ 255 := by
  simp only [mem_sentOn]
  cases call with
  | hello s =>
    simp only [effects, Fits, List.mem_singleton, Effect.send.injEq]
    constructor
    · rintro h out ⟨rfl, rfl⟩
      rw [Server.helloReply_length]
      have := h rfl
      omega
    · rintro h rfl
      have := h _ ⟨rfl, rfl⟩
      rw [Server.helloReply_length] at this
      omega
  | wrongPassword s =>
    simp only [effects, Fits, List.mem_singleton, Effect.send.injEq, true_iff]
    rintro out ⟨-, rfl⟩
    rw [Server.wrongPassword_length]
    omega
  | correctPassword s =>
    simp only [effects, Fits, List.mem_singleton, Effect.send.injEq, true_iff]
    rintro out ⟨-, rfl⟩
    rw [Server.correctPassword_length]
    omega
  | connectClient room heap client =>
    simp only [effects, Fits, Server.connectClient, List.mem_map, Effect.send.injEq]
    constructor
    · rintro h out ⟨c, hc, hs, rfl⟩
      rw [Server.userJoined_length]
      have := h c hc hs
      omega
    · intro h c hc hs
      have := h _ ⟨c, hc, hs, rfl⟩
      rw [Server.userJoined_length] at this
      omega
  | disconnectClient room heap client =>
    simp only [effects, Fits, Server.disconnectClient, List.mem_map, Effect.send.injEq]
    constructor
    · rintro h out ⟨c, hc, hs, rfl⟩
      rw [Server.userLeft_length]
      have := h hs (List.ne_nil_of_mem hc)
      omega
    · intro h hs hne
      obtain ⟨c, hc⟩ := List.exists_mem_of_ne_nil _ hne
      have := h _ ⟨c, hc, hs, rfl⟩
      rw [Server.userLeft_length] at this
      omega
  | joinRoom room client values =>
    simp only [effects, Fits, mem_joinRoom_send]
    constructor
    · rintro h out ⟨hs, hadmitted, value, hvalue, rfl⟩
      rw [Server.roomReply_length]
      have := h hs hadmitted value hvalue
      omega
    · intro h hs hadmitted value hvalue
      have := h _ ⟨hs, hadmitted, value, hvalue, rfl⟩
      rw [Server.roomReply_length] at this
      omega

/-- The reader of a socket recovers what was sent on it exactly when every call
fits. -/
theorem outbound_decodable_iff (server : Server) (socket : Socket) (calls : List Call) :
    Framing.decode 4 (stream server socket calls) = some (bodies server socket calls) ↔
      ∀ call ∈ calls, call.Fits server socket := by
  rw [stream, Framing.decode_encode_iff header (by decide) header_length]
  simp only [readLength_header_eq_iff, fits_iff, bodies, List.mem_flatMap]
  constructor
  · intro h call hcall out hout
    exact h out ⟨call, hcall, hout⟩
  · rintro h out ⟨call, hcall, hout⟩
    exact h call hcall out hout

/-- A server name of 254 bytes makes the hello reply 256 bytes long, and its
header announces an empty body. -/
theorem long_name_not_decodable :
    let server : Server := ⟨128, 128, List.replicate 254 65⟩
    Framing.decode 4 (stream server 5 [.hello 5]) ≠ some (bodies server 5 [.hello 5]) := by
  intro server h
  rw [stream, Framing.decode_encode_iff header (by decide) header_length] at h
  have hsent : server.helloReply ∈ bodies server 5 [.hello 5] := by
    simp [bodies, effects, sentOn]
  have hlen := (readLength_header_eq_iff _).mp (h _ hsent)
  rw [Server.helloReply_length, List.length_replicate] at hlen
  omega

end Call
end WhiteSmo
