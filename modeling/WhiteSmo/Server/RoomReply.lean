import WhiteSmo.Library.Field
import WhiteSmo.Server.Entry

/-!
# The body that `JoinRoom` sends

The body is put together from four expressions.  Read as a sequence of fields it is
`roomBody`, so a reader that knows the fields gets back what was put in.
-/

namespace WhiteSmo

/-- A number from 0 to 255. -/
def stateByte : Field UInt8 Int :=
  Field.one.image (fun b => b.toNat) UInt8.ofInt (fun state => 0 ≤ state ∧ state ≤ 255) (by
    rintro state ⟨hlow, hhigh⟩
    refine ⟨trivial, ?_⟩
    rw [UInt8.ofInt, UInt8.toNat_ofNat']
    omega)

def flagByte : Field UInt8 Bool :=
  Field.one.image (fun b => b ≠ 0) (fun flag => if flag then 1 else 0) (fun _ => True) (by
    intro flag _
    cases flag <;> exact ⟨trivial, rfl⟩)

/-- The fields in the order in which they stand: the command byte, two bytes, a text, two
bytes, two texts, the state and the flag. -/
def roomBody : Field UInt8 (UInt8 × Bytes × Bytes × Bytes × Bytes × Bytes × Int × Bool) :=
  Field.one.seq <| (Field.fixed 2).seq <| (Field.terminated 0).seq <| (Field.fixed 2).seq <|
    (Field.terminated 0).seq <| (Field.terminated 0).seq <| stateByte.seq flagByte

/-- No text has a NUL, and the state fits one byte. -/
structure Room.Plain (room : Room) (value : Bytes) : Prop where
  value : 0 ∉ value
  name : 0 ∉ room.name
  description : 0 ∉ room.description
  state : 0 ≤ room.state ∧ room.state ≤ 255

namespace Server

variable {server : Server} {room : Room} {value : Bytes}

variable (server room value) in
/-- What `JoinRoom` puts into the body. -/
def roomFields : UInt8 × Bytes × Bytes × Bytes × Bytes × Bytes × Int × Bool :=
  (server.replyByte 12, [1, 0], value, [1, 1], room.name, room.description, room.state, room.flag)

variable (server room value) in
theorem roomReply_eq_put :
    server.roomReply room value = roomBody.put (server.roomFields room value) := by
  show _ = [server.replyByte 12] ++ ([1, 0] ++ ((value ++ [0]) ++ ([1, 1] ++
    ((room.name ++ [0]) ++ ((room.description ++ [0]) ++ ([UInt8.ofInt room.state] ++
      [if room.flag then 1 else 0]))))))
  simp only [roomReply, List.append_assoc, List.cons_append, List.nil_append]

variable (server) in
theorem roomFields_legal (h : room.Plain value) :
    roomBody.Legal (server.roomFields room value) :=
  ⟨trivial, rfl, h.value, rfl, h.name, h.description, h.state, trivial⟩

theorem get_roomReply (h : room.Plain value) :
    roomBody.get (server.roomReply room value) = some (server.roomFields room value, []) := by
  rw [roomReply_eq_put]
  exact roomBody.get_put_nil (server.roomFields_legal h)

theorem roomReply_injective {room' : Room} {value' : Bytes} (h : room.Plain value)
    (h' : room'.Plain value') (heq : server.roomReply room' value' = server.roomReply room value) :
    value' = value ∧ room'.name = room.name ∧ room'.description = room.description ∧
      room'.state = room.state ∧ room'.flag = room.flag := by
  rw [roomReply_eq_put, roomReply_eq_put] at heq
  have hlegal := server.roomFields_legal h
  have hlegal' := server.roomFields_legal h'
  have hfields := roomBody.put_injective hlegal' hlegal heq
  simp only [roomFields, Prod.mk.injEq] at hfields
  obtain ⟨-, -, hvalue, -, hname, hdescription, hstate, hflag⟩ := hfields
  exact ⟨hvalue, hname, hdescription, hstate, hflag⟩

/-- The body that a call sends is read back to its last byte, and a call that sends the same
body puts the same into it. -/
theorem joinRoom_body_decodes {client : Client} {values : List Bytes} {socket : Socket}
    {out : Bytes} (hvalue : values.head? = some value) (hplain : room.Plain value)
    (hsend : .send socket out ∈ server.joinRoom room client values) :
    roomBody.get out =
      some ((server.replyByte 12, [1, 0], value, [1, 1], room.name, room.description, room.state,
        room.flag), []) ∧
    ∀ (room' : Room) (client' : Client) (values' : List Bytes) (value' : Bytes) (socket' : Socket),
      values'.head? = some value' → room'.Plain value' →
      .send socket' out ∈ server.joinRoom room' client' values' →
        value' = value ∧ room'.name = room.name ∧ room'.description = room.description ∧
          room'.state = room.state ∧ room'.flag = room.flag := by
  have hout : ∀ {room : Room} {client : Client} {values : List Bytes} {value : Bytes}
      {socket : Socket}, values.head? = some value →
      .send socket out ∈ server.joinRoom room client values →
        out = server.roomReply room value := by
    intro room client values value socket hvalue hsend
    obtain ⟨-, -, first, hfirst, rfl⟩ := Call.mem_joinRoom_send.mp hsend
    rw [hvalue, Option.mem_some_iff] at hfirst
    rw [hfirst]
  refine ⟨?_, fun room' client' values' value' socket' hvalue' hplain' hsend' => ?_⟩
  · rw [hout hvalue hsend]
    exact get_roomReply hplain
  · exact roomReply_injective hplain hplain' ((hout hvalue' hsend').symm.trans (hout hvalue hsend))

/-- A room without a description, and an empty first value. -/
theorem joinRoom_body_decodes_empty :
    let server : Server := ⟨128, 128, ascii "White Elephant 2024"⟩
    let room : Room := { openRoom with name := ascii "WE2024", state := 200, flag := true }
    let out := server.roomReply room []
    roomBody.get out = some ((140, [1, 0], [], [1, 1], ascii "WE2024", [], 200, true), []) ∧
    ∀ (room' : Room) (client' : Client) (values' : List Bytes) (value' : Bytes) (socket' : Socket),
      values'.head? = some value' → room'.Plain value' →
      .send socket' out ∈ server.joinRoom room' client' values' →
        value' = [] ∧ room'.name = room.name ∧ room'.description = room.description ∧
          room'.state = room.state ∧ room'.flag = room.flag := by
  intro server room out
  have hplain : room.Plain [] := ⟨by decide, by decide +kernel, by decide, by decide⟩
  have hsend : .send 5 out ∈ server.joinRoom room (elsewhere.heap 0) [[]] := by decide +kernel
  exact joinRoom_body_decodes rfl hplain hsend

end Server
end WhiteSmo
