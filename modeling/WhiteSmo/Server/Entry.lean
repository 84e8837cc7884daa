import WhiteSmo.Server.Update

/-!
# Entering the room

`JoinRoom` writes the client's number, reads the first value and sends, in this order.
The third value is read without a check and the first one with a check that throws.
-/

namespace WhiteSmo

/-- The condition under which `JoinRoom` enters. -/
def Room.Admits (room : Room) (values : List Bytes) : Prop :=
  room.password = [] ∨ values[2]? = some room.password

instance (room : Room) (values : List Bytes) : Decidable (room.Admits values) :=
  inferInstanceAs (Decidable (_ ∨ _))

namespace Server

/-- What a call of `JoinRoom` does. -/
inductive JoinRoomBy (server : Server) (room : Room) (client : Client) :
    List Bytes → List Effect → Prop
  | entered {value : Bytes} {rest : List Bytes} (hadmits : room.Admits (value :: rest)) :
      JoinRoomBy server room client (value :: rest)
        [.setRoomID room.id, .send client.socket (server.roomReply room value)]
  | thrown (hpass : room.password = []) :
      JoinRoomBy server room client [] [.setRoomID room.id, .throw]
  | refused {values : List Bytes} (hpass : room.password ≠ []) (hthird : 3 ≤ values.length)
      (hadmits : ¬ room.Admits values) : JoinRoomBy server room client values []
  | outOfRange {values : List Bytes} (hpass : room.password ≠ []) (hthird : values.length < 3) :
      JoinRoomBy server room client values [.undefined]

variable (server : Server) (room : Room)

theorem joinRoomBy (client : Client) (values : List Bytes) :
    JoinRoomBy server room client values (server.joinRoom room client values) := by
  unfold joinRoom
  by_cases hpass : room.password = []
  · rw [if_pos hpass]
    cases values with
    | nil => exact .thrown hpass
    | cons value rest => exact .entered (Or.inl hpass)
  · rw [if_neg hpass]
    cases hthird : values[2]? with
    | none => exact .outOfRange hpass (by rw [List.getElem?_eq_none_iff] at hthird; omega)
    | some third =>
      dsimp only
      obtain ⟨hlen, -⟩ := List.getElem?_eq_some_iff.mp hthird
      by_cases heq : room.password = third
      · have hadmits : room.Admits values := Or.inr (by rw [hthird, heq])
        obtain ⟨value, rest, rfl⟩ := List.exists_cons_of_length_pos
          (show 0 < values.length by omega)
        rw [if_pos heq]
        exact .entered hadmits
      · have hadmits : ¬ room.Admits values := by
          rintro (h | h)
          · exact hpass h
          · rw [hthird] at h
            exact heq (Option.some.inj h).symm
        rw [if_neg heq]
        exact .refused hpass hlen hadmits

/-- The number is written exactly when the client is admitted. -/
theorem joinRoom_roomID (s : State) (client : ClientId) (values : List Bytes) (c : ClientId) :
    ((s.applyAll client (server.joinRoom room (s.heap client) values)).heap c).roomID =
      if c = client ∧ room.Admits values then room.id else (s.heap c).roomID := by
  have hby := server.joinRoomBy room (s.heap client) values
  revert hby
  generalize server.joinRoom room (s.heap client) values = effects
  intro hby
  cases hby with
  | entered hadmits =>
    by_cases hc : c = client <;> simp [State.apply, State.modify_heap, hc, hadmits]
  | thrown hpass =>
    have hadmits : room.Admits [] := Or.inl hpass
    by_cases hc : c = client <;> simp [State.apply, State.modify_heap, hc, hadmits]
  | refused _ _ hadmits => simp [hadmits]
  | outOfRange hpass hthird =>
    have hadmits : ¬ room.Admits values := by
      rw [Room.Admits, List.getElem?_eq_none (by omega)]
      simp [hpass]
    simp [State.apply, hadmits]

/-- The writes of a call enter the client and send the whole reply, or do neither. -/
structure Whole (s : State) (client : ClientId) (values : List Bytes) (effects : List Effect) :
    Prop where
  inRange : .undefined ∉ effects
  whole :
    (((s.applyAll client effects).heap client).roomID = room.id ∧ ∃ value ∈ values.head?,
      (s.applyAll client effects).log =
        s.log ++ [.sent (s.heap client).socket (server.roomReply room value)]) ∨
    (((s.applyAll client effects).heap client).roomID = (s.heap client).roomID ∧
      (s.applyAll client effects).log = s.log)
  admitted : ∀ roomID, .setRoomID roomID ∈ effects → room.Admits values

variable {server room} {s : State} {client : ClientId} {values : List Bytes}
  {effects : List Effect}

theorem JoinRoomBy.whole (hby : JoinRoomBy server room (s.heap client) values effects)
    (h : (room.password = [] ∧ (values ≠ [] ∨ (s.heap client).roomID = room.id)) ∨
      (room.password ≠ [] ∧ 3 ≤ values.length)) :
    server.Whole room s client values effects := by
  cases hby with
  | @entered value rest hadmits =>
    refine ⟨by simp, Or.inl ⟨by simp [State.apply], value, rfl, by simp [State.apply]⟩, ?_⟩
    exact fun _ _ => hadmits
  | thrown hpass =>
    have hsame : (s.heap client).roomID = room.id := by simpa [hpass] using h
    refine ⟨by simp, Or.inr ⟨by simp [State.apply, hsame], by simp [State.apply]⟩, ?_⟩
    exact fun _ _ => Or.inl hpass
  | refused _ _ _ => exact ⟨by simp, Or.inr ⟨rfl, rfl⟩, fun _ hmem => absurd hmem (by simp)⟩
  | outOfRange hpass hthird =>
    rcases h with ⟨hnone, -⟩ | ⟨-, hlen⟩
    · exact absurd hnone hpass
    · omega

theorem JoinRoomBy.enough_of_whole (hby : JoinRoomBy server room (s.heap client) values effects)
    (h : server.Whole room s client values effects) :
    (room.password = [] ∧ (values ≠ [] ∨ (s.heap client).roomID = room.id)) ∨
      (room.password ≠ [] ∧ 3 ≤ values.length) := by
  cases hby with
  | @entered value rest hadmits =>
    by_cases hpass : room.password = []
    · exact Or.inl ⟨hpass, Or.inl (List.cons_ne_nil value rest)⟩
    · obtain ⟨hlen, -⟩ := List.getElem?_eq_some_iff.mp (hadmits.resolve_left hpass)
      exact Or.inr ⟨hpass, hlen⟩
  | thrown hpass =>
    -- Nothing is sent, so the number must have been the room's before.
    have hsame : room.id = (s.heap client).roomID := by simpa [State.apply] using h.whole
    exact Or.inl ⟨hpass, Or.inr hsame.symm⟩
  | refused hpass hthird _ => exact Or.inr ⟨hpass, hthird⟩
  | outOfRange _ _ => exact absurd List.mem_cons_self h.inRange

/-- When `JoinRoom` is all or nothing. -/
theorem joinRoom_whole_iff (server : Server) (room : Room) (s : State) (client : ClientId)
    (values : List Bytes) :
    server.Whole room s client values (server.joinRoom room (s.heap client) values) ↔
      (room.password = [] ∧ (values ≠ [] ∨ (s.heap client).roomID = room.id)) ∨
        (room.password ≠ [] ∧ 3 ≤ values.length) :=
  ⟨JoinRoomBy.enough_of_whole (server.joinRoomBy room (s.heap client) values),
    JoinRoomBy.whole (server.joinRoomBy room (s.heap client) values)⟩

/-- A client that is in another room, and rooms without and with a password. -/
def elsewhere : State := ⟨fun _ => { Client.guest 5 [] with roomID := 7 }, [], [], .alive⟩

def openRoom : Room := ⟨0, false, 0, [], [], [], []⟩

def lockedRoom : Room := { openRoom with password := ascii "pw" }

/-- Without values the client is entered and nothing is sent; with a password and one value
the read of the third is out of range. -/
theorem joinRoom_not_whole :
    let server : Server := ⟨128, 128, ascii "White Elephant 2024"⟩
    let half := elsewhere.applyAll 0 (server.joinRoom openRoom (elsewhere.heap 0) [])
    (¬ server.Whole openRoom elsewhere 0 [] (server.joinRoom openRoom (elsewhere.heap 0) []) ∧
      (half.heap 0).roomID = 0 ∧ half.log = [] ∧ half.fate = .terminated) ∧
    (¬ server.Whole lockedRoom elsewhere 0 [ascii "pw"]
        (server.joinRoom lockedRoom (elsewhere.heap 0) [ascii "pw"]) ∧
      server.joinRoom lockedRoom (elsewhere.heap 0) [ascii "pw"] = [.undefined]) := by
  intro server half
  have hhalf : (half.heap 0).roomID = 0 := by decide +kernel
  have hrange : server.joinRoom lockedRoom (elsewhere.heap 0) [ascii "pw"] = [.undefined] := by
    decide +kernel
  refine ⟨⟨fun h => ?_, hhalf, rfl, rfl⟩, fun h => ?_, hrange⟩
  · rcases h.whole with ⟨-, value, hvalue, -⟩ | ⟨hsame, -⟩
    · cases hvalue
    · have hzero : (0 : UInt32) = 7 := hhalf.symm.trans hsame
      exact absurd hzero (by decide)
  · rw [hrange] at h
    exact absurd List.mem_cons_self h.inRange

end Server
end WhiteSmo
