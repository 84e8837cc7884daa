import WhiteSmo.Server.Entry
import WhiteSmo.Threads.Notices
import WhiteSmo.Threads.World

/-!
# Who counts as being in the room

Being in the room is that two numbers are equal, `Client::roomID`, which the hello
sets to 0 and `JoinRoom` to `Room::ID`, and `Room::ID`, which is 0 and never set.  The
operations here are the ones that write or compare the two, called in any order.
-/

namespace WhiteSmo

inductive Operation
  /-- The listener accepts a hello and makes the client object. -/
  | hello (client : ClientId) (env : Env) (socket : Socket) (ip : Bytes)
  | joinRoom (client : ClientId) (values : List Bytes)
  | connectClient (client : ClientId)
  | disconnectClient (client : ClientId)

/-- The clients, with the ones for which `JoinRoom` has succeeded. -/
structure Lobby extends State where
  greeted : List ClientId
  joined : List ClientId

namespace Lobby

def start (s : State) : Lobby := ⟨s, [], []⟩

/-- One call for a client that has been greeted, or a hello. -/
def step (server : Server) (room : Room) (l : Lobby) : Operation → Option Lobby
  | .hello client env socket ip =>
    if client ∈ l.greeted then none
    else
      some { l with
        heap := Function.update l.heap client (Server.greet env socket ip)
        greeted := l.greeted ++ [client] }
  | .joinRoom client values =>
    let effects := server.joinRoom room (l.heap client) values
    if client ∈ l.greeted ∧ .undefined ∉ effects then
      some { l with
        toState := l.toState.applyAll client effects
        joined := if room.Admits values then l.joined ++ [client] else l.joined }
    else none
  | .connectClient client =>
    if client ∈ l.greeted then
      some { l with
        toState := l.toState.applyAll client
          (server.connectClient room l.heap (l.heap client)) }
    else none
  | .disconnectClient client =>
    if client ∈ l.greeted then
      some { l with
        toState := l.toState.applyAll client
          (server.disconnectClient room l.heap (l.heap client)) }
    else none

/-- The clients whose number is the room's have joined. -/
def Counted (room : Room) (l : Lobby) : Prop :=
  ∀ c ∈ l.greeted, (l.heap c).roomID = room.id → c ∈ l.joined

/-- The client is selected by the notifier's comparison of two numbers. -/
def Selected (room : Room) (l : Lobby) : Operation → ClientId → Prop
  | .connectClient client, c | .disconnectClient client, c =>
    c ∈ room.fellows l.heap client ∧ c ∈ l.greeted
  | _, _ => False

/-- Those whom the call selects have joined, and so have those who count as being in the
room behind it. -/
def Sound (server : Server) (room : Room) (l : Lobby) (operation : Operation) : Prop :=
  (∀ c, l.Selected room operation c → c ∈ l.joined) ∧
    ∀ l', step server room l operation = some l' → l'.Counted room

/-- The room's number is not the one that a hello gives, and a notifier is called for a
client that has joined, or when every other player that was greeted has. -/
def Apart (room : Room) (l : Lobby) : Operation → Prop
  | .hello _ _ _ _ => room.id ≠ 0
  | .joinRoom _ _ => True
  | .connectClient client | .disconnectClient client =>
    client ∈ l.joined ∨ ∀ c ∈ room.players, c ≠ client → c ∈ l.greeted → c ∈ l.joined

/-- The numbers of the clients, in every run. -/
structure Numbered (room : Room) (l : Lobby) : Prop where
  greeted : ∀ c ∈ l.joined, c ∈ l.greeted
  joined : ∀ c ∈ l.joined, (l.heap c).roomID = room.id
  fresh : ∀ c ∈ l.greeted, c ∉ l.joined → (l.heap c).roomID = 0

section

variable {server : Server} {room : Room} {l l' : Lobby}

theorem applyAll_map_send (s : State) (client : ClientId) (cs : List ClientId)
    (socket : ClientId → Socket) (out : ClientId → Bytes) :
    (s.applyAll client (cs.map fun c => .send (socket c) (out c))).heap = s.heap := by
  induction cs generalizing s with
  | nil => rfl
  | cons c cs ih =>
    rw [List.map_cons, State.applyAll_cons, ih]
    rfl

/-- The operation has changed neither the numbers nor who has joined. -/
structure Same (l l' : Lobby) : Prop where
  greeted : l'.greeted = l.greeted
  joined : l'.joined = l.joined
  roomID : ∀ c, (l'.heap c).roomID = (l.heap c).roomID

/-- What an operation is to the numbers. -/
inductive StepBy (room : Room) (l l' : Lobby) : Operation → Prop
  | hello {client : ClientId} {env : Env} {socket : Socket} {ip : Bytes}
      (hnew : client ∉ l.greeted) (hgreeted : l'.greeted = l.greeted ++ [client])
      (hjoined : l'.joined = l.joined)
      (hroom : ∀ c, (l'.heap c).roomID = if c = client then 0 else (l.heap c).roomID) :
      StepBy room l l' (.hello client env socket ip)
  | joined {client : ClientId} {values : List Bytes} (hclient : client ∈ l.greeted)
      (hadmits : room.Admits values) (hgreeted : l'.greeted = l.greeted)
      (hjoined : l'.joined = l.joined ++ [client])
      (hroom : ∀ c, (l'.heap c).roomID = if c = client then room.id else (l.heap c).roomID) :
      StepBy room l l' (.joinRoom client values)
  | refused {client : ClientId} {values : List Bytes} (hadmits : ¬ room.Admits values)
      (hsame : Same l l') : StepBy room l l' (.joinRoom client values)
  | connectClient {client : ClientId} (hclient : client ∈ l.greeted) (hsame : Same l l') :
      StepBy room l l' (.connectClient client)
  | disconnectClient {client : ClientId} (hclient : client ∈ l.greeted) (hsame : Same l l') :
      StepBy room l l' (.disconnectClient client)

theorem stepBy_of_step {operation : Operation} (h : step server room l operation = some l') :
    StepBy room l l' operation := by
  cases operation with
  | hello client env socket ip =>
    rw [step] at h
    split at h
    case isTrue => cases h
    case isFalse hnew =>
      cases h
      refine .hello hnew rfl rfl fun c => ?_
      by_cases hc : c = client
      · simp [hc, Server.greet]
      · simp [hc]
  | joinRoom client values =>
    have hroom := server.joinRoom_roomID room l.toState client values
    dsimp only [step] at h
    split at h
    case isFalse => cases h
    case isTrue hclient =>
      cases h
      by_cases hadmits : room.Admits values
      · simp only [hadmits, and_true] at hroom
        exact .joined hclient.1 hadmits rfl (if_pos hadmits) hroom
      · simp only [hadmits, and_false, if_false] at hroom
        exact .refused hadmits ⟨rfl, if_neg hadmits, hroom⟩
  | connectClient client =>
    rw [step] at h
    split at h
    case isFalse => cases h
    case isTrue hclient =>
      cases h
      refine .connectClient hclient ⟨rfl, rfl, fun c => ?_⟩
      simp only [Server.connectClient, applyAll_map_send]
  | disconnectClient client =>
    rw [step] at h
    split at h
    case isFalse => cases h
    case isTrue hclient =>
      cases h
      refine .disconnectClient hclient ⟨rfl, rfl, fun c => ?_⟩
      simp only [Server.disconnectClient, applyAll_map_send]

theorem numbered_of_same (hsame : Same l l') (hnumbered : Numbered room l) : Numbered room l' := by
  obtain ⟨hgreeted, hjoined, hroom⟩ := hsame
  refine ⟨fun c => ?_, fun c => ?_, fun c => ?_⟩
  · rw [hgreeted, hjoined]
    exact hnumbered.greeted c
  · rw [hjoined, hroom]
    exact hnumbered.joined c
  · rw [hgreeted, hjoined, hroom]
    exact hnumbered.fresh c

theorem step_numbered {operation : Operation} (h : step server room l operation = some l')
    (hnumbered : Numbered room l) : Numbered room l' := by
  cases stepBy_of_step h with
  | @hello client _ _ _ hnew hgreeted hjoined hroom =>
    have hother : ∀ c ∈ l.joined, c ≠ client := by
      rintro c hc rfl
      exact hnew (hnumbered.greeted c hc)
    refine ⟨fun c hc => ?_, fun c hc => ?_, fun c hc hnot => ?_⟩
    · rw [hgreeted]
      exact List.mem_append_left _ (hnumbered.greeted c (hjoined ▸ hc))
    · rw [hjoined] at hc
      rw [hroom, if_neg (hother c hc)]
      exact hnumbered.joined c hc
    · rw [hroom]
      split
      case isTrue => rfl
      case isFalse hne =>
        rw [hgreeted, List.mem_append, List.mem_singleton, or_iff_left hne] at hc
        exact hnumbered.fresh c hc (hjoined ▸ hnot)
  | @joined client _ hclient _ hgreeted hjoined hroom =>
    refine ⟨fun c hc => ?_, fun c hc => ?_, fun c hc hnot => ?_⟩
    · rw [hjoined, List.mem_append, List.mem_singleton] at hc
      rw [hgreeted]
      rcases hc with hc | rfl
      · exact hnumbered.greeted c hc
      · exact hclient
    · rw [hjoined, List.mem_append, List.mem_singleton] at hc
      rw [hroom]
      split
      case isTrue => rfl
      case isFalse hne => exact hnumbered.joined c (hc.resolve_right hne)
    · rw [hjoined, List.mem_append, List.mem_singleton, not_or] at hnot
      rw [hroom, if_neg hnot.2]
      exact hnumbered.fresh c (hgreeted ▸ hc) hnot.1
  | refused _ hsame => exact numbered_of_same hsame hnumbered
  | connectClient _ hsame => exact numbered_of_same hsame hnumbered
  | disconnectClient _ hsame => exact numbered_of_same hsame hnumbered

/-- Those who have joined are the ones for whom a `JoinRoom` of the run has entered. -/
theorem mem_joined_iff {operations : List Operation}
    (hrun : Transition.run (step server room) l operations = some l') (client : ClientId) :
    client ∈ l'.joined ↔ client ∈ l.joined ∨
      ∃ values, .joinRoom client values ∈ operations ∧ room.Admits values := by
  induction operations generalizing l with
  | nil =>
    cases hrun
    simp
  | cons operation operations ih =>
    obtain ⟨m, hstep, hrest⟩ := Transition.run_cons.mp hrun
    rw [ih hrest]
    cases stepBy_of_step hstep with
    | hello _ _ hjoined _ => simp [hjoined]
    | @joined joiner values _ hadmits _ hjoined _ =>
      rw [hjoined, List.mem_append, List.mem_singleton, or_assoc]
      refine or_congr_right ⟨?_, ?_⟩
      · rintro (rfl | ⟨values', hmem, hadmits'⟩)
        · exact ⟨values, List.mem_cons_self, hadmits⟩
        · exact ⟨values', List.mem_cons_of_mem _ hmem, hadmits'⟩
      · rintro ⟨values', hmem, hadmits'⟩
        rcases List.mem_cons.mp hmem with heq | hmem
        · exact Or.inl (Operation.joinRoom.inj heq).1
        · exact Or.inr ⟨values', hmem, hadmits'⟩
    | @refused joiner values hadmits hsame =>
      rw [hsame.joined]
      refine or_congr_right ⟨?_, ?_⟩
      · rintro ⟨values', hmem, hadmits'⟩
        exact ⟨values', List.mem_cons_of_mem _ hmem, hadmits'⟩
      · rintro ⟨values', hmem, hadmits'⟩
        rcases List.mem_cons.mp hmem with heq | hmem
        · exact absurd ((Operation.joinRoom.inj heq).2 ▸ hadmits') hadmits
        · exact ⟨values', hmem, hadmits'⟩
    | connectClient _ hsame => simp [hsame.joined]
    | disconnectClient _ hsame => simp [hsame.joined]

theorem counted_of_same (hsame : Same l l') (hcounted : Counted room l) : Counted room l' := by
  intro c hc heq
  rw [hsame.greeted] at hc
  rw [hsame.roomID] at heq
  rw [hsame.joined]
  exact hcounted c hc heq

/-- Two clients carry one number: it is the room's if the first has joined, and 0 if it
has not. -/
theorem selected_joined_iff (hnumbered : Numbered room l) (hcounted : Counted room l)
    {client : ClientId} (hclient : client ∈ l.greeted) :
    (∀ c, c ∈ room.fellows l.heap client ∧ c ∈ l.greeted → c ∈ l.joined) ↔
      client ∈ l.joined ∨ ∀ c ∈ room.players, c ≠ client → c ∈ l.greeted → c ∈ l.joined := by
  have hmem : ∀ c, c ∈ room.fellows l.heap client ↔
      c ∈ room.players ∧ c ≠ client ∧ (l.heap c).roomID = (l.heap client).roomID := by
    simp [Room.fellows]
  constructor
  · intro hall
    by_cases hjoined : client ∈ l.joined
    · exact Or.inl hjoined
    · refine Or.inr fun c hplayer hne hgreeted => ?_
      by_contra hnot
      have hsame : (l.heap c).roomID = (l.heap client).roomID := by
        rw [hnumbered.fresh c hgreeted hnot, hnumbered.fresh client hclient hjoined]
      exact hnot (hall c ⟨(hmem c).mpr ⟨hplayer, hne, hsame⟩, hgreeted⟩)
  · rintro hor c ⟨hfellow, hgreeted⟩
    obtain ⟨hplayer, hne, hsame⟩ := (hmem c).mp hfellow
    rcases hor with hjoined | hall
    · exact hcounted c hgreeted (hsame.trans (hnumbered.joined client hjoined))
    · exact hall c hplayer hne hgreeted

theorem sound_iff {operation : Operation} (h : step server room l operation = some l')
    (hnumbered : Numbered room l) (hcounted : Counted room l) :
    Sound server room l operation ↔ Apart room l operation := by
  have hcounts : Sound server room l operation ↔
      (∀ c, l.Selected room operation c → c ∈ l.joined) ∧ Counted room l' := by
    simp only [Sound, h, Option.some.injEq, forall_eq']
  rw [hcounts]
  cases stepBy_of_step h with
  | @hello client _ _ _ hnew hgreeted hjoined hroom =>
    have hclient : client ∉ l'.joined := fun hc => hnew (hnumbered.greeted client (hjoined ▸ hc))
    constructor
    · rintro ⟨-, hcounted'⟩ hzero
      refine hclient (hcounted' client (by simp [hgreeted]) ?_)
      rw [hroom, if_pos rfl, hzero]
    · intro hid
      refine ⟨fun c hc => absurd hc id, fun c hc heq => ?_⟩
      rw [hroom] at heq
      split at heq
      case isTrue => exact absurd heq.symm hid
      case isFalse hne =>
        rw [hgreeted, List.mem_append, List.mem_singleton, or_iff_left hne] at hc
        rw [hjoined]
        exact hcounted c hc heq
  | @joined client _ _ _ hgreeted hjoined hroom =>
    refine iff_of_true ⟨fun c hc => absurd hc id, fun c hc heq => ?_⟩ trivial
    rw [hroom] at heq
    rw [hjoined, List.mem_append, List.mem_singleton]
    split at heq
    case isTrue hcc => exact Or.inr hcc
    case isFalse => exact Or.inl (hcounted c (hgreeted ▸ hc) heq)
  | refused _ hsame =>
    exact iff_of_true ⟨fun c hc => absurd hc id, counted_of_same hsame hcounted⟩ trivial
  | connectClient hclient hsame =>
    rw [and_iff_left (counted_of_same hsame hcounted)]
    exact selected_joined_iff hnumbered hcounted hclient
  | disconnectClient hclient hsame =>
    rw [and_iff_left (counted_of_same hsame hcounted)]
    exact selected_joined_iff hnumbered hcounted hclient

/-- A run in which only those who have joined count as being in the room, and only those
are selected by a notifier, is a run in which the room's number is apart from that of a
hello and the notifiers are called as `Apart` says. -/
theorem counted_by_joining_iff {s : State} {operations : List Operation}
    (hrun : Transition.run (step server room) (start s) operations = some l') :
    Transition.Meets (step server room) (Sound server room) (start s) operations ↔
      Transition.Meets (step server room) (Apart room) (start s) operations := by
  have hnone : Numbered room (start s) ∧ Counted room (start s) := by
    refine ⟨⟨fun c hc => ?_, fun c hc => ?_, fun c hc => ?_⟩, fun c hc => ?_⟩ <;>
      exact absurd hc List.not_mem_nil
  refine Transition.meets_congr (I := fun l => Numbered room l ∧ Counted room l)
    (fun l operation m h hl => sound_iff h hl.1 hl.2) (fun l operation m h hl hsound => ?_) hrun
    hnone
  exact ⟨step_numbered h hl.1, hsound.2 m h⟩

end

/-- A hello of client 0 on socket 5. -/
def helloZero : Operation := .hello 0 World.idle 5 []

def noClients : State := ⟨fun _ => Client.guest 0 [], [], [], .alive⟩

theorem counted_by_joining_iff_helloZero :
    Transition.Meets (step ⟨128, 128, []⟩ World.emptyRoom) (Sound ⟨128, 128, []⟩ World.emptyRoom)
        (start noClients) [helloZero] ↔
      Transition.Meets (step ⟨128, 128, []⟩ World.emptyRoom) (Apart World.emptyRoom)
        (start noClients) [helloZero] :=
  counted_by_joining_iff rfl

/-- A client that has only said hello counts as being in the room. -/
theorem greeted_counts_as_joined :
    ∃ l, Transition.run (step ⟨128, 128, []⟩ World.emptyRoom) (start noClients) [helloZero] = some l ∧
      0 ∈ l.greeted ∧ 0 ∉ l.joined ∧ (l.heap 0).roomID = World.emptyRoom.id ∧
        ¬ Transition.Meets (step ⟨128, 128, []⟩ World.emptyRoom) (Sound ⟨128, 128, []⟩ World.emptyRoom)
          (start noClients) [helloZero] := by
  refine ⟨_, rfl, by decide, by decide, by decide, fun hmeets => ?_⟩
  have hjoined := hmeets.1.2 _ rfl 0 (by decide) (by decide)
  exact absurd hjoined List.not_mem_nil

end Lobby
end WhiteSmo
