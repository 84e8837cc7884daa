import WhiteSmo.Library.Delimited

/-!
# Data of the server

Clients, the room, the rows of the `Users` table and the buffers that the socket
library fills.  Strings of the source are byte lists, and `std::string` from a
literal is `ascii`.  A `Client*` is a `ClientId`; the objects themselves are in a
heap, so that two pointers can be compared and two objects can carry one socket.
-/

namespace WhiteSmo

abbrev Bytes := List UInt8

/-- The bytes of a string literal of the source. -/
def ascii (s : String) : Bytes := s.toList.map fun c => UInt8.ofNat c.toNat

/-- `ASocket::Socket` is a file descriptor. -/
abbrev Socket := Int

abbrev ClientId := Nat

/-- What one `recv` delivers: between 1 and 1024 bytes. -/
structure Chunk where
  bytes : Bytes
  nonempty : bytes ≠ []
  fits : bytes.length ≤ 1024
  deriving DecidableEq

/-- The result of `CTCPServer::Receive(..., 1024, false)`: negative, zero, or the
number of bytes it put into the buffer. -/
inductive Received
  | failed
  | closed
  | data (chunk : Chunk)
  deriving DecidableEq

/-- A buffer `char input[1024] = {}` after a `Receive`. -/
structure Packet where
  bytes : Bytes
  size : bytes.length = 1024
  deriving DecidableEq

namespace Packet

/-- The received bytes, followed by the zeros the buffer was initialised with. -/
def ofChunk (chunk : Chunk) : Packet where
  bytes := Delimited.fill 1024 0 chunk.bytes
  size := Delimited.fill_length chunk.fits

def ofReceived : Received → Packet
  | .failed | .closed => ⟨List.replicate 1024 0, List.length_replicate⟩
  | .data chunk => ofChunk chunk

/-- `input[4]`, the byte that `SMOListener` compares and `Update` switches on. -/
def command (input : Packet) : UInt8 := input.bytes.getD 4 0

/-- What `SMOListener` and the switch of `Update` see of a message: the command and
the bytes behind it, to the end of the buffer. -/
def message (input : Packet) : UInt8 × Bytes := (input.command, input.bytes.drop 5)

/-- The bytes in front of a message are those of what was received. -/
theorem ofChunk_getD {chunk : Chunk} {lead rest : Bytes} (h : chunk.bytes = lead ++ rest) {i : Nat}
    (hi : i < lead.length) : (ofChunk chunk).bytes.getD i 0 = lead.getD i 0 := by
  show (Delimited.fill 1024 0 chunk.bytes).getD i 0 = _
  rw [Delimited.fill, h, List.append_assoc, List.getD_eq_getElem?_getD,
    List.getElem?_append_left hi, ← List.getD_eq_getElem?_getD]

theorem command_ofChunk {chunk : Chunk} {lead rest : Bytes} {c : UInt8} (hlead : lead.length = 4)
    (h : chunk.bytes = lead ++ c :: rest) : (ofChunk chunk).command = c := by
  have hsplit : chunk.bytes = (lead ++ [c]) ++ rest := by
    rw [h, List.append_assoc]
    rfl
  have hfour : 4 < (lead ++ [c]).length := by
    rw [List.length_append, List.length_singleton, hlead]
    omega
  rw [command, ofChunk_getD hsplit hfour, List.getD_eq_getElem?_getD,
    List.getElem?_append_right (by omega), hlead]
  rfl

theorem drop_four (input : Packet) : input.bytes.drop 4 = input.command :: input.bytes.drop 5 := by
  have hlt : 4 < input.bytes.length := by rw [input.size]; omega
  rw [List.drop_eq_getElem_cons hlt, command, List.getD_eq_getElem?_getD,
    List.getElem?_eq_getElem hlt, Option.getD_some]

end Packet

inductive ClientType
  | guest
  | user
  | admin
  deriving DecidableEq

structure Client where
  connected : Bool
  loggedIn : Bool
  roomID : UInt32
  vInput : List Packet
  ip : Bytes
  name : Bytes
  socket : Socket
  type : ClientType

/-- `Room`, without the owner, which nothing sets or reads. -/
structure Room where
  id : UInt32
  flag : Bool
  state : Int
  name : Bytes
  description : Bytes
  password : Bytes
  players : List ClientId

namespace Room

/-- `Room::GetPlayers` returns the list by value. -/
def getPlayers (room : Room) : List ClientId := room.players

end Room

/-- The settings that `Server` keeps from its constructor on and that its
messages use. -/
structure Server where
  version : UInt32
  protocolVersion : UInt32
  name : Bytes

/-- A row of `Users(UserName CHAR, Password CHAR, Banned int)`, as `getColumn` hands it
back: a text stops at the first NUL, and of an integer there are the low 32 bits. -/
structure Row where
  rowid : Int
  userName : Bytes
  password : Bytes
  banned : Int32
  deriving DecidableEq

end WhiteSmo
