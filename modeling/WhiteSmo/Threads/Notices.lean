import WhiteSmo.Threads.Reader

/-!
# Join and leave notices

What `ConnectClient` and `DisconnectClient` should send, and when they do.  Each of
the two takes one of its variables from the wrong client: the text of the first
names the recipient, and the second writes to the client that left.  Each has right
what the other has wrong.  Both leave out clients by name.
-/

namespace WhiteSmo

/-- The players other than `client` that carry the number of its room. -/
def Room.fellows (room : Room) (heap : ClientId → Client) (client : ClientId) : List ClientId :=
  room.players.filter fun c => c ≠ client ∧ (heap c).roomID = (heap client).roomID

/-- The writes tell `out` to each fellow of `client`, once, and nothing to `client` or
to a player of another room. -/
structure Notifies (room : Room) (heap : ClientId → Client) (client : ClientId) (out : Bytes)
    (writes : List Effect) : Prop where
  fellows : writes.Perm ((room.fellows heap client).map fun c => .send (heap c).socket out)
  own : Call.sentOn (heap client).socket writes = []
  elsewhere : ∀ c ∈ room.players, (heap c).roomID ≠ (heap client).roomID →
    Call.sentOn (heap c).socket writes = []

section

variable {room : Room} {heap : ClientId → Client} {client : ClientId}

theorem Room.fellows_eq_nil_iff : room.fellows heap client = [] ↔
    ∀ c ∈ room.players, c ≠ client → (heap c).roomID ≠ (heap client).roomID := by
  simp [Room.fellows]

theorem Server.mem_others {c : ClientId} :
    c ∈ Server.others room heap (heap client) ↔ c ∈ room.players ∧
      (heap c).roomID = (heap client).roomID ∧ (heap c).name ≠ (heap client).name := by
  simp [Server.others, Room.getPlayers]

/-- The test by name leaves out the client itself. -/
theorem Server.others_eq_nil (h : room.fellows heap client = []) :
    Server.others room heap (heap client) = [] := by
  rw [List.eq_nil_iff_forall_not_mem]
  intro c hc
  obtain ⟨hmem, hroom, hname⟩ := Server.mem_others.mp hc
  have hne : c ≠ client := fun heq => hname (by rw [heq])
  exact Room.fellows_eq_nil_iff.mp h c hmem hne hroom

/-- A notifier that can only be right by sending nothing is right for those who are
alone in their room. -/
theorem notifies_iff {out : Bytes} {writes : List Effect}
    (hright : Notifies room heap client out writes → writes = [])
    (hothers : Server.others room heap (heap client) = [] → writes = []) :
    Notifies room heap client out writes ↔
      ∀ c ∈ room.players, c ≠ client → (heap c).roomID ≠ (heap client).roomID := by
  rw [← Room.fellows_eq_nil_iff]
  constructor
  · intro h
    have hperm := h.fellows
    rw [hright h, List.nil_perm] at hperm
    exact List.map_eq_nil_iff.mp hperm
  · intro h
    have hnone : writes = [] := hothers (Server.others_eq_nil h)
    subst hnone
    refine ⟨?_, rfl, fun _ _ _ => rfl⟩
    rw [h, List.map_nil]

end

namespace Server

section

variable (server : Server) (room : Room) (heap : ClientId → Client) (client : ClientId)

theorem disconnectClient_eq_nil
    (h : Notifies room heap client (server.userLeft (heap client).name)
      (server.disconnectClient room heap (heap client))) :
    server.disconnectClient room heap (heap client) = [] := by
  rw [List.eq_nil_iff_forall_not_mem]
  intro effect heffect
  obtain ⟨c, -, rfl⟩ := List.mem_map.mp heffect
  have hsent := Call.mem_sentOn.mpr heffect
  rw [h.own] at hsent
  exact absurd hsent List.not_mem_nil

theorem userJoined_injective : Function.Injective server.userJoined :=
  fun _ _ h => List.append_cancel_left h

theorem connectClient_eq_nil
    (h : Notifies room heap client (server.userJoined (heap client).name)
      (server.connectClient room heap (heap client))) :
    server.connectClient room heap (heap client) = [] := by
  rw [List.eq_nil_iff_forall_not_mem]
  intro effect heffect
  obtain ⟨c, hc, rfl⟩ := List.mem_map.mp heffect
  obtain ⟨_, _, hsame⟩ := List.mem_map.mp (h.fellows.subset heffect)
  have hname := server.userJoined_injective (Effect.send.inj hsame).2
  exact (mem_others.mp hc).2.2 hname.symm

end

/-- `DisconnectClient` tells those who stay, and `SMOReader` sends nothing on the
socket it has closed, exactly when nobody else is in the room. -/
theorem disconnectClient_notifies_iff (server : Server) (s : Shared) (client : ClientId) :
    (Notifies s.room s.heap client (server.userLeft (s.heap client).name)
        (server.disconnectClient s.room s.heap (s.heap client)) ∧
      ∀ env reader effects,
        server.smoReader env reader s (.closed client) = some (.silent, .notify client effects) →
          Call.sentOn (s.heap client).socket effects = []) ↔
      ∀ c ∈ s.room.players, c ≠ client → (s.heap c).roomID ≠ (s.heap client).roomID := by
  have hiff := notifies_iff (server.disconnectClient_eq_nil s.room s.heap client)
    fun hothers => by rw [disconnectClient, hothers, List.map_nil]
  refine Iff.trans (and_iff_left_of_imp ?_) hiff
  intro hright env reader effects hstep
  cases readerStep_of_smoReader hstep
  exact hright.own

/-- Two players of room 0, with the names `a` and `b`. -/
def twoPlayers (client : ClientId) : Client :=
  { Client.guest (5 + client) [] with name := [97 + UInt8.ofNat client], loggedIn := true }

def roomOfTwo : Room := ⟨0, false, 0, [], [], [], [0, 1]⟩

/-- The notice that `a` has left goes to `a`. -/
theorem leave_notice_to_self :
    let writes := disconnectClient ⟨128, 128, []⟩ roomOfTwo twoPlayers (twoPlayers 0)
    0 ∈ roomOfTwo.players ∧ Call.sentOn 5 writes = [userLeft ⟨128, 128, []⟩ [97]] ∧
      Call.sentOn 6 writes = [] ∧
      ¬ Notifies roomOfTwo twoPlayers 0 (userLeft ⟨128, 128, []⟩ [97]) writes := by
  intro writes
  have hown : Call.sentOn 5 writes = [userLeft ⟨128, 128, []⟩ [97]] := by decide
  refine ⟨by decide, hown, by decide, fun h => ?_⟩
  exact absurd (hown.symm.trans h.own) (List.cons_ne_nil _ _)

/-- `ConnectClient` tells that the client has joined exactly when nobody else is in its
room. -/
theorem connectClient_notifies_iff (server : Server) (room : Room) (heap : ClientId → Client)
    (client : ClientId) :
    Notifies room heap client (server.userJoined (heap client).name)
        (server.connectClient room heap (heap client)) ↔
      ∀ c ∈ room.players, c ≠ client → (heap c).roomID ≠ (heap client).roomID :=
  notifies_iff (server.connectClient_eq_nil room heap client)
    fun hothers => by rw [connectClient, hothers, List.map_nil]

/-- When `a` joins, `b` is told that `b` has joined. -/
theorem join_notice_names_recipient :
    let writes := connectClient ⟨128, 128, []⟩ roomOfTwo twoPlayers (twoPlayers 0)
    writes = [.send 6 (userJoined ⟨128, 128, []⟩ [98])] ∧
      ¬ Notifies roomOfTwo twoPlayers 0 (userJoined ⟨128, 128, []⟩ [97]) writes := by
  intro writes
  have hwrites : writes = [.send 6 (userJoined ⟨128, 128, []⟩ [98])] := by decide
  refine ⟨hwrites, fun h => ?_⟩
  have hfellows : (roomOfTwo.fellows twoPlayers 0).map
      (fun c => Effect.send (twoPlayers c).socket (userJoined ⟨128, 128, []⟩ [97])) =
      [.send 6 (userJoined ⟨128, 128, []⟩ [97])] := by decide
  have hperm := h.fellows
  rw [hwrites, hfellows, List.singleton_perm_singleton] at hperm
  exact absurd hperm (by decide)

end Server
end WhiteSmo
