import WhiteSmo.Threads.Closing

/-!
# What is acted upon on one connection

The listener receives the first chunk of a connection and answers it if it is a hello.  The
reader of the new client receives the chunks behind it and queues the buffer of each, and
`Update` switches on what it takes from the queue.  Each buffer is acted upon as one message.

`SMOReader` and `Update` look the client up among the players, where nobody puts it.  What
follows is about rooms in which the search succeeds: a player has the descriptor of the
connection already, and no reader.
-/

namespace WhiteSmo

/-- What can be seen of a connection. -/
inductive Inbound
  | received (chunk : Chunk)
  | actedUpon (message : UInt8 × Bytes)

namespace Inbound

def chunks (seen : List Inbound) : List Chunk :=
  seen.filterMap fun
    | .received chunk => some chunk
    | .actedUpon _ => none

def messages (seen : List Inbound) : List (UInt8 × Bytes) :=
  seen.filterMap fun
    | .received _ => none
    | .actedUpon message => some message

theorem chunks_append (seen seen' : List Inbound) :
    chunks (seen ++ seen') = chunks seen ++ chunks seen' :=
  List.filterMap_append

theorem messages_append (seen seen' : List Inbound) :
    messages (seen ++ seen') = messages seen ++ messages seen' :=
  List.filterMap_append

end Inbound

/-- What a `Receive` shows. -/
def Received.seen : Received → List Inbound
  | .data chunk => [.received chunk]
  | .failed | .closed => []

/-- `Update` acts upon a message of a client when it comes to its switch. -/
def MainPc.inbound (heap : ClientId → Client) (socket : Socket) : MainPc → List Inbound
  | .inputs _ client _ (input :: _) =>
    if (heap client).socket = socket then [.actedUpon input.message] else []
  | _ => []

/-- `SMOListener` acts upon a hello when it answers it. -/
def ListenerPc.inbound (received : Received) (socket : Socket) : ListenerPc → List Inbound
  | .receive s _ => if s = socket then received.seen else []
  | .hello s _ input =>
    if s = socket ∧ (helloName input).isSome then [.actedUpon input.message] else []
  | _ => []

def ReaderPc.inbound (received : Received) (heap : ClientId → Client) (socket : Socket) :
    ReaderPc → List Inbound
  | .receive result => if (heap result).socket = socket then received.seen else []
  | _ => []

/-- What a step shows of the connection on a descriptor. -/
def World.inbound (socket : Socket) (w : World) (action : Action) : List Inbound :=
  match action.thread with
  | .main => w.main.inbound w.shared.heap socket
  | .listener => w.listener.inbound action.env.received socket
  | .reader client => (w.readers client).inbound action.env.received w.shared.heap socket

/-- The chunks that a run receives on a descriptor. -/
def World.received (server : Server) (socket : Socket) (w : World) (actions : List Action) :
    List Chunk :=
  Inbound.chunks (Transition.collect (step server) (inbound socket) w actions)

/-- The messages that a run acts upon on a descriptor. -/
def World.actedUpon (server : Server) (socket : Socket) (w : World) (actions : List Action) :
    List (UInt8 × Bytes) :=
  Inbound.messages (Transition.collect (step server) (inbound socket) w actions)

/-! ## Where a chunk is -/

/-- The number of times that a descriptor was accepted. -/
def timesAccepted (socket : Socket) (log : List Event) : Nat :=
  log.countP fun
    | .accepted s => s = socket
    | _ => false

/-- The connection whose first message the listener waits for or has at hand. -/
def ListenerPc.hears : ListenerPc → Option Socket
  | .logLock socket _ | .log socket _ | .logUnlock socket _ | .receive socket _
  | .command socket _ _ | .wait socket _ _ | .helloLock socket _ _ | .hello socket _ _ =>
    some socket
  | _ => none

/-- The message at hand is what was received. -/
def ListenerPc.Holds (chunks : List Chunk) : ListenerPc → Prop
  | .logLock _ _ | .log _ _ | .logUnlock _ _ | .receive _ _ => chunks = []
  | .command _ _ input => input.command = 2 → chunks.map Packet.ofChunk = [input]
  | .wait _ _ input | .helloLock _ _ input | .hello _ _ input =>
    chunks.map Packet.ofChunk = [input]
  | _ => True

/-- The client that a reader has found and works for. -/
def ReaderPc.result : ReaderPc → Option ClientId
  | .searchUnlock result => result
  | .test result | .receive result | .lock result _ | .again result _ | .push result _ =>
    some result
  | _ => none

/-- The chunk that a reader has received and not queued yet. -/
def ReaderPc.carries : ReaderPc → List Chunk
  | .lock _ (some chunk) | .again _ (some chunk) | .push _ chunk => [chunk]
  | _ => []

/-- The message of a client that `Update` is handling. -/
def MainPc.begun (client : ClientId) : MainPc → List Packet
  | .handle _ c _ input _ _ => if c = client then [input] else []
  | _ => []

/-- The messages of a client that `Update` has copied and not come to. -/
def MainPc.waiting (client : ClientId) : MainPc → List Packet
  | .taken _ c _ vInput | .inputs _ c _ vInput | .handle _ c _ _ _ vInput =>
    if c = client then vInput else []
  | _ => []

theorem MainPc.copied_eq (client : ClientId) (main : MainPc) :
    main.copied client = main.begun client ++ main.waiting client := by
  cases main with
  | handle clients c todo input effects vInput =>
    by_cases hc : c = client
    · simp [copied, begun, waiting, hc]
    · simp [copied, begun, waiting, hc]
  | _ => rfl

/-! ## One access -/

/-- The accesses that make or end the wait for a first message. -/
def Access.aboutInbound : Access → Bool
  | .accept _ | .answer _ _ _ => true
  | _ => false

/-- Two states with the same readers, between which the descriptor is not accepted. -/
structure SameInbound (socket : Socket) (s s' : Shared) : Prop where
  next : s'.next = s.next
  readers : s'.readerThreads = s.readerThreads
  sockets : ∀ c, (s'.heap c).socket = (s.heap c).socket
  accepts : timesAccepted socket s'.log = timesAccepted socket s.log

/-- The reader of a connection stays the only one. -/
theorem SameInbound.only {socket : Socket} {s s' : Shared} {r : ClientId}
    (hsame : SameInbound socket s s')
    (honly : ∀ r' ∈ s.readerThreads, (s.heap r').socket = socket → r' = r) :
    ∀ r' ∈ s'.readerThreads, (s'.heap r').socket = socket → r' = r := by
  intro r' hr' hsocket
  rw [hsame.sockets] at hsocket
  exact honly r' (hsame.readers ▸ hr') hsocket

theorem timesAccepted_append (socket : Socket) (log events : List Event) :
    timesAccepted socket (log ++ events) = timesAccepted socket log + timesAccepted socket events :=
  List.countP_append

theorem access_sameInbound {server : Server} {t : Thread} {s s' : Shared} {a : Access}
    (h : s.access server t a = some s') (hother : a.aboutInbound = false) (socket : Socket) :
    SameInbound socket s s' := by
  cases a with
  | lock =>
    obtain ⟨-, rfl⟩ := Shared.access_lock_iff.mp h
    exact ⟨rfl, rfl, fun _ => rfl, rfl⟩
  | write client effect =>
    cases h
    refine ⟨rfl, rfl, fun c => State.apply_socket _ client c effect, ?_⟩
    cases effect <;> first | rfl | exact timesAccepted_append socket _ _
  | writeBack clients client =>
    cases h
    refine ⟨rfl, rfl, fun c => Server.writeBack_socket clients _ client c, ?_⟩
    exact congrArg (timesAccepted socket) (Server.writeBack_log clients _ client)
  | clearInput client =>
    cases h
    refine ⟨rfl, rfl, fun c => ?_, rfl⟩
    simp only [Shared.onState, State.modify_heap]
    split <;> rfl
  | push client input =>
    cases h
    refine ⟨rfl, rfl, fun c => ?_, timesAccepted_append socket _ _⟩
    simp only [Shared.onState, State.record_heap, State.modify_heap]
    split <;> rfl
  | handled client input =>
    cases h
    exact ⟨rfl, rfl, fun _ => rfl, timesAccepted_append socket _ _⟩
  | close other =>
    cases h
    exact ⟨rfl, rfl, fun _ => rfl, timesAccepted_append socket _ _⟩
  | accept _ | answer _ _ _ => cases hother
  | _ =>
    cases h
    exact ⟨rfl, rfl, fun _ => rfl, rfl⟩

theorem access_pushed {server : Server} {t : Thread} {s s' : Shared} {a : Access}
    (h : s.access server t a = some s') (hpush : ∀ client input, a ≠ .push client input)
    (c : ClientId) : pushedFor c s'.log = pushedFor c s.log := by
  cases a with
  | clearInput client =>
    cases h
    rfl
  | handled client input =>
    cases h
    exact pushedFor_handled c client _ input
  | push client input => exact absurd rfl (hpush client input)
  | _ => exact (access_sameQueues h rfl).pushed c

theorem access_timesAccepted_le {server : Server} {t : Thread} {s s' : Shared} {a : Access}
    (h : s.access server t a = some s') (socket : Socket) :
    timesAccepted socket s.log ≤ timesAccepted socket s'.log := by
  cases hkind : a.aboutInbound with
  | false => exact (access_sameInbound h hkind socket).accepts.ge
  | true =>
    cases a with
    | accept other =>
      obtain ⟨-, rfl⟩ := Shared.access_accept_iff.mp h
      exact (timesAccepted_append socket _ _).ge.trans' (Nat.le_add_right _ _)
    | answer env other ip =>
      cases h
      exact (timesAccepted_append socket _ _).ge.trans' (Nat.le_add_right _ _)
    | _ => cases hkind

/-! ## How far a connection has come -/

/-- How far the connection has come on which `chunks` were received.  The index is the hello,
once it has been answered. -/
inductive Stage (socket : Socket) (p : ClientId) (s : Shared) (listener : ListenerPc)
    (readers : ClientId → ReaderPc) (chunks : List Chunk) : List (UInt8 × Bytes) → Prop
  /-- It has no reader. -/
  | unread (hnobody : ∀ r ∈ s.readerThreads, (s.heap r).socket ≠ socket)
      (hpushed : pushedFor p s.log = []) (hbefore : timesAccepted socket s.log = 0 → chunks = [])
      (hheard : listener.hears = some socket →
        0 < timesAccepted socket s.log ∧ listener.Holds chunks) :
      Stage socket p s listener readers chunks []
  /-- What was received behind the hello has been queued, or its reader has it. -/
  | read {r : ClientId} {first : Chunk} {later : List Chunk} (hcreated : r ∈ s.readerThreads)
      (hsocket : (s.heap r).socket = socket)
      (honly : ∀ r' ∈ s.readerThreads, (s.heap r').socket = socket → r' = r)
      (haccepted : 0 < timesAccepted socket s.log) (hheard : listener.hears ≠ some socket)
      (hchunks : chunks = first :: later)
      (hpushed : pushedFor p s.log ++ (readers r).carries.map Packet.ofChunk =
        later.map Packet.ofChunk) :
      Stage socket p s listener readers chunks [(Packet.ofChunk first).message]

section

variable {server : Server} {env : Env} {socket : Socket} {p : ClientId} {s s' : Shared}
  {listener listener' : ListenerPc} {readers : ClientId → ReaderPc} {chunks : List Chunk}
  {opening : List (UInt8 × Bytes)} {a : Access}

theorem Stage.same (h : Stage socket p s listener readers chunks opening)
    (hsame : SameInbound socket s s') (hkept : pushedFor p s'.log = pushedFor p s.log) :
    Stage socket p s' listener readers chunks opening := by
  cases h with
  | unread hnobody hpushed hbefore hheard =>
    refine .unread (fun r hr => ?_) (hkept.trans hpushed) (fun hzero => ?_)
      fun hhears => ?_
    · rw [hsame.sockets]
      exact hnobody r (hsame.readers ▸ hr)
    · exact hbefore ((hsame.accepts).symm.trans hzero)
    · rw [hsame.accepts]
      exact hheard hhears
  | read hcreated hsocket honly haccepted hheard hchunks hpushed =>
    refine .read (hsame.readers ▸ hcreated) ((hsame.sockets _).trans hsocket) (hsame.only honly)
      ((hsame.accepts).symm ▸ haccepted) hheard hchunks ?_
    rw [hkept]
    exact hpushed

/-! ### The main thread -/

theorem MainPc.inbound_chunks (main : MainPc) (heap : ClientId → Client) :
    Inbound.chunks (main.inbound heap socket) = [] := by
  unfold inbound
  split
  · split <;> rfl
  · rfl

/-- What `Update` acts upon is what it begins to handle for the player of the socket. -/
theorem start_begun {players : List ClientId} {queue : ClientId → List Packet}
    {main main' : MainPc} (hstart : server.start env s main = (a, main'))
    (haccess : s.access server .main a = some s') (hsees : main.Sees players queue)
    (hnodup : (players.map fun c => (s.heap c).socket).Nodup) (hp : p ∈ players)
    (hsocket : (s.heap p).socket = socket) :
    (handledFor p s'.log ++ main'.begun p).map Packet.message =
      (handledFor p s.log ++ main.begun p).map Packet.message ++
        Inbound.messages (main.inbound s.heap socket) := by
  have hquiet : a.aboutQueues = false → main'.begun p = main.begun p →
      main.inbound s.heap socket = [] →
        (handledFor p s'.log ++ main'.begun p).map Packet.message =
          (handledFor p s.log ++ main.begun p).map Packet.message ++
            Inbound.messages (main.inbound s.heap socket) := by
    intro hother hbegun hnone
    rw [(access_sameQueues haccess hother).handled, hbegun, hnone]
    exact (List.append_nil _).symm
  cases Server.startStep_of_start hstart with
  | clear =>
    cases haccess
    exact (List.append_nil _).symm
  | @input clients todo client input vInput =>
    cases haccess
    by_cases hclient : client = p
    · subst hclient
      simp [MainPc.begun, MainPc.inbound, Inbound.messages, hsocket]
    · have hne : (s.heap client).socket ≠ socket := fun h =>
        hclient (List.inj_on_of_nodup_map hnodup hsees.2.1 hp (h.trans hsocket.symm))
      simp [MainPc.begun, MainPc.inbound, Inbound.messages, hne, hclient]
  | @handled clients todo client input vInput =>
    cases haccess
    have hhandled : handledFor p (s.onState (·.record (.handled client input))).log =
        handledFor p s.log ++ if client = p then [input] else [] :=
      handledFor_append p client s.log input
    rw [hhandled]
    simp [MainPc.begun, MainPc.inbound, Inbound.messages]
  | _ => exact hquiet rfl rfl rfl

/-! ### A reader -/

theorem ReaderPc.inbound_messages (reader : ReaderPc) (received : Received)
    (heap : ClientId → Client) : Inbound.messages (reader.inbound received heap socket) = [] := by
  unfold inbound
  split
  · split
    · cases received <;> rfl
    · rfl
  · rfl

/-- A reader of another connection shows nothing of this one. -/
theorem ReaderPc.inbound_of_ne {reader : ReaderPc} {heap : ClientId → Client}
    (h : ∀ result, reader.result = some result → (heap result).socket ≠ socket)
    (received : Received) : reader.inbound received heap socket = [] := by
  cases reader with
  | receive result => exact if_neg (h result rfl)
  | _ => rfl

/-- A reader carries what it has received, and queues it for the client that it has found. -/
theorem smoReader_delivers {client : ClientId} {pc pc' : ReaderPc}
    (hreader : server.smoReader env client s pc = some (a, pc'))
    (haccess : s.access server (.reader client) a = some s')
    (hresult : ∀ result, pc.result = some result → result = p)
    (hsocket : (s.heap p).socket = socket) :
    pushedFor p s'.log ++ pc'.carries.map Packet.ofChunk =
      pushedFor p s.log ++ pc.carries.map Packet.ofChunk ++
        (Inbound.chunks (pc.inbound env.received s.heap socket)).map Packet.ofChunk := by
  have hquiet : (∀ result input, a ≠ .push result input) →
      pc'.carries = pc.carries ++ Inbound.chunks (pc.inbound env.received s.heap socket) →
        pushedFor p s'.log ++ pc'.carries.map Packet.ofChunk =
          pushedFor p s.log ++ pc.carries.map Packet.ofChunk ++
            (Inbound.chunks (pc.inbound env.received s.heap socket)).map Packet.ofChunk := by
    intro hpush hcarries
    rw [access_pushed haccess hpush, hcarries, List.map_append, List.append_assoc]
  have hown : ∀ result, pc.result = some result → (s.heap result).socket = socket := by
    intro result hfound
    rw [hresult result hfound]
    exact hsocket
  cases Server.readerStep_of_smoReader hreader with
  | @receiveFailed result hreceived =>
    refine hquiet (fun _ _ heq => by cases heq) ?_
    rw [ReaderPc.inbound, if_pos (hown result rfl), hreceived]
    rfl
  | @receiveClosed result hreceived =>
    refine hquiet (fun _ _ heq => by cases heq) ?_
    rw [ReaderPc.inbound, if_pos (hown result rfl), hreceived]
    rfl
  | @receiveData result chunk hreceived =>
    refine hquiet (fun _ _ heq => by cases heq) ?_
    rw [ReaderPc.inbound, if_pos (hown result rfl), hreceived]
    rfl
  | @lock result chunk => cases chunk <;> exact hquiet (fun _ _ heq => by cases heq) rfl
  | @push result chunk =>
    obtain rfl := hresult result rfl
    cases haccess
    show pushedFor result (s.log ++ [.pushed result (Packet.ofChunk chunk)]) ++ [] = _
    rw [pushedFor_append, if_pos rfl]
    simp [ReaderPc.carries, ReaderPc.inbound, Inbound.chunks]
  | _ => exact hquiet (fun _ _ heq => by cases heq) rfl

/-- A reader that has found another client queues nothing for `p`. -/
theorem smoReader_pushed_of_ne {client : ClientId} {pc pc' : ReaderPc}
    (hreader : server.smoReader env client s pc = some (a, pc'))
    (haccess : s.access server (.reader client) a = some s')
    (hresult : ∀ result, pc.result = some result → result ≠ p) :
    pushedFor p s'.log = pushedFor p s.log := by
  by_cases hpush : ∃ result input, a = .push result input
  · obtain ⟨result, input, rfl⟩ := hpush
    have hne : result ≠ p := by
      cases Server.readerStep_of_smoReader hreader
      exact hresult result rfl
    cases haccess
    show pushedFor p (s.log ++ [.pushed result input]) = pushedFor p s.log
    rw [pushedFor_append, if_neg hne, List.append_nil]
  · exact access_pushed haccess (fun result input heq => hpush ⟨result, input, heq⟩) p

/-- A reader works for the client that its search has found. -/
theorem smoReader_result {client result : ClientId} {pc pc' : ReaderPc}
    (hreader : server.smoReader env client s pc = some (a, pc'))
    (hresult : pc'.result = some result) :
    pc.result = some result ∨ findClient s.heap s.room.players client = some result := by
  cases Server.readerStep_of_smoReader hreader with
  | search => exact Or.inr hresult
  | @againData old chunk =>
    cases hfind : findClient s.heap s.room.getPlayers client with
    | none =>
      rw [hfind] at hresult
      exact Or.inl hresult
    | some found =>
      rw [hfind] at hresult
      exact Or.inr (hfind.trans hresult)
  | found | connected hconnected | receiveClosed hreceived | receiveData hreceived | lock =>
    exact Or.inl hresult
  | _ => cases hresult

theorem smoReader_stage {players : List ClientId} {client : ClientId} {pc : ReaderPc}
    (hstage : Stage socket p s listener readers chunks opening)
    (hcreated : client ∈ s.readerThreads)
    (hreader : server.smoReader env client s (readers client) = some (a, pc))
    (haccess : s.access server (.reader client) a = some s')
    (hresult : ∀ result, (readers client).result = some result →
      result ∈ players ∧ (s.heap result).socket = (s.heap client).socket)
    (hnodup : (players.map fun c => (s.heap c).socket).Nodup) (hp : p ∈ players)
    (hsocket : (s.heap p).socket = socket) :
    Stage socket p s' listener (Function.update readers client pc)
      (chunks ++ Inbound.chunks ((readers client).inbound env.received s.heap socket)) opening := by
  have hsame : SameInbound socket s s' := by
    refine access_sameInbound haccess ?_ socket
    have hkind := Server.smoReader_access hreader
    cases a with
    | accept _ | answer _ _ _ => exact hkind.elim
    | _ => rfl
  -- a reader of another connection has found another player
  have hother : (s.heap client).socket ≠ socket → pushedFor p s'.log = pushedFor p s.log ∧
      (readers client).inbound env.received s.heap socket = [] := by
    intro hne
    constructor
    · refine smoReader_pushed_of_ne hreader haccess fun result hfound heq => hne ?_
      rw [← (hresult result hfound).2, heq, hsocket]
    · refine ReaderPc.inbound_of_ne (fun result hfound => ?_) env.received
      rw [(hresult result hfound).2]
      exact hne
  cases hstage with
  | unread hnobody hpushed hbefore hheard =>
    obtain ⟨hkept, hnone⟩ := hother (hnobody client hcreated)
    rw [hnone]
    refine Stage.same (.unread hnobody hpushed (fun hzero => ?_) fun hhears => ?_) hsame hkept
    · rw [hbefore hzero]
      rfl
    · rw [Inbound.chunks, List.filterMap_nil, List.append_nil]
      exact hheard hhears
  | @read r first later hr hrsocket honly haccepted hheard hchunks hpushed =>
    by_cases hclient : client = r
    · subst hclient
      have hdelivers := smoReader_delivers hreader haccess (fun result hfound => ?_) hsocket
      · rw [hpushed, ← List.map_append] at hdelivers
        refine .read (hsame.readers ▸ hr) ((hsame.sockets _).trans hrsocket) (hsame.only honly)
          ((hsame.accepts).symm ▸ haccepted) hheard (by rw [hchunks]; rfl) ?_
        rw [Function.update_self]
        exact hdelivers
      · obtain ⟨hmem, hfound⟩ := hresult result hfound
        exact List.inj_on_of_nodup_map hnodup hmem hp
          (hfound.trans (hrsocket.trans hsocket.symm))
    · obtain ⟨hkept, hnone⟩ := hother fun h => hclient (honly client hcreated h)
      rw [hnone]
      have hchunks' : chunks ++ Inbound.chunks [] = first :: later := by
        rw [hchunks]
        exact List.append_nil _
      refine Stage.same (.read hr hrsocket honly haccepted hheard hchunks' ?_) hsame hkept
      rw [Function.update_of_ne (Ne.symm hclient)]
      exact hpushed

/-! ### The listener -/

/-- A step of the listener that neither accepts, receives nor answers. -/
theorem Stage.listens (h : Stage socket p s listener readers chunks opening)
    (hsame : SameInbound socket s s') (hkept : pushedFor p s'.log = pushedFor p s.log)
    (hhears : listener'.hears = some socket → listener.hears = some socket)
    (hholds : listener'.hears = some socket → listener.Holds chunks → listener'.Holds chunks) :
    Stage socket p s' listener' readers chunks opening := by
  refine Stage.same ?_ hsame hkept
  cases h with
  | unread hnobody hpushed hbefore hheard =>
    refine .unread hnobody hpushed hbefore fun hsocket => ?_
    obtain ⟨haccepted, hchunks⟩ := hheard (hhears hsocket)
    exact ⟨haccepted, hholds hsocket hchunks⟩
  | read hcreated hsocket honly haccepted hheard hchunks hpushed =>
    exact .read hcreated hsocket honly haccepted (fun h => hheard (hhears h)) hchunks hpushed

theorem Stage.accept {fd : Socket} {text : Bytes}
    (h : Stage socket p s .listen readers chunks opening)
    (haccess : s.access server .listener (.accept fd) = some s')
    (honce : timesAccepted socket s'.log ≤ 1) :
    Stage socket p s' (.logLock fd text) readers chunks opening := by
  obtain ⟨-, rfl⟩ := Shared.access_accept_iff.mp haccess
  have hlog : timesAccepted socket (s.log ++ [.accepted fd]) =
      timesAccepted socket s.log + timesAccepted socket [.accepted fd] :=
    timesAccepted_append socket _ _
  have hkept : pushedFor p (s.log ++ [.accepted fd]) = pushedFor p s.log :=
    filterMap_append_none rfl
  have honce : timesAccepted socket (s.log ++ [.accepted fd]) ≤ 1 := honce
  by_cases hfd : fd = socket
  · subst hfd
    have hone : timesAccepted fd [.accepted fd] = 1 := by simp [timesAccepted]
    cases h with
    | unread hnobody hpushed hbefore hheard =>
      have hnone : timesAccepted fd s.log = 0 := by omega
      refine .unread hnobody (hkept.trans hpushed) (fun _ => hbefore hnone) fun _ =>
        ⟨?_, hbefore hnone⟩
      show 0 < timesAccepted fd (s.log ++ [.accepted fd])
      omega
    | read hcreated hsocket honly haccepted hheard hchunks hpushed => omega
  · have hzero : timesAccepted socket [.accepted fd] = 0 := by simp [timesAccepted, hfd]
    have hsame : timesAccepted socket (s.log ++ [.accepted fd]) = timesAccepted socket s.log := by
      omega
    exact Stage.listens h ⟨rfl, rfl, fun _ => rfl, hsame⟩ hkept
      (fun hhears => absurd (Option.some.inj hhears) hfd)
      fun hhears => absurd (Option.some.inj hhears) hfd

theorem Stage.receive {fd : Socket} {ip : Bytes}
    (h : Stage socket p s (.receive fd ip) readers chunks opening) (received : Received) :
    Stage socket p s (.command fd ip (Packet.ofReceived received)) readers
      (chunks ++ Inbound.chunks ((ListenerPc.receive fd ip).inbound received socket)) opening := by
  by_cases hfd : fd = socket
  · subst hfd
    rw [ListenerPc.inbound, if_pos rfl]
    cases h with
    | unread hnobody hpushed hbefore hheard =>
      obtain ⟨haccepted, hnothing⟩ := hheard rfl
      have hnothing : chunks = [] := hnothing
      subst hnothing
      refine .unread hnobody hpushed (fun hzero => absurd hzero (Nat.pos_iff_ne_zero.mp haccepted))
        fun _ => ⟨haccepted, fun hcommand => ?_⟩
      cases received with
      | data chunk => rfl
      | failed => exact absurd hcommand (by decide)
      | closed => exact absurd hcommand (by decide)
    | read hcreated hsocket honly haccepted hheard hchunks hpushed => exact absurd rfl hheard
  · rw [ListenerPc.inbound, if_neg hfd, Inbound.chunks, List.filterMap_nil, List.append_nil]
    exact Stage.listens h ⟨rfl, rfl, fun _ => rfl, rfl⟩ rfl
      (fun hhears => absurd (Option.some.inj hhears) hfd)
      fun hhears => absurd (Option.some.inj hhears) hfd

/-- What the hello section does to the readers and the connections. -/
theorem access_answer {fd : Socket} {ip : Bytes}
    (haccess : s.access server .listener (.answer env fd ip) = some s') :
    s'.readerThreads = s.readerThreads ++ [s.next] ∧ s'.next = s.next + 1 ∧
      (s'.heap s.next).socket = fd ∧ (∀ r < s.next, s'.heap r = s.heap r) ∧
      (∀ c, pushedFor c s'.log = pushedFor c s.log) ∧
      (∀ c, handledFor c s'.log = handledFor c s.log) ∧
      ∀ fd, timesAccepted fd s'.log = timesAccepted fd s.log := by
  cases haccess
  refine ⟨rfl, rfl, ?_, fun r hr => Function.update_of_ne (Nat.ne_of_lt hr) _ _, fun c => ?_,
    fun c => ?_, fun fd => timesAccepted_append fd _ _⟩
  · show (Function.update s.heap s.next (Server.greet env fd s.currentIP) s.next).socket = fd
    rw [Function.update_self]
    rfl
  · simp [pushedFor]
  · simp [handledFor]

/-- The reader of the new client has received nothing yet. -/
theorem Stage.answer {fd : Socket} {ip name : Bytes} {input : Packet}
    (h : Stage socket p s (.hello fd ip input) readers chunks opening)
    (hname : helloName input = some name)
    (haccess : s.access server .listener (.answer env fd ip) = some s')
    (hthreads : ∀ r ∈ s.readerThreads, r < s.next) (hnew : (readers s.next).carries = [])
    (received : Received) :
    Stage socket p s' .helloUnlock readers chunks
      (opening ++ Inbound.messages ((ListenerPc.hello fd ip input).inbound received socket)) := by
  obtain ⟨hreaders, -, hsocket', hold, hkept, -, haccepted'⟩ :=
    access_answer haccess
  have hkept := hkept p
  have haccepted' := haccepted' socket
  have hold : ∀ r ∈ s.readerThreads, s'.heap r = s.heap r := fun r hr => hold r (hthreads r hr)
  by_cases hfd : fd = socket
  · subst hfd
    have hmessages : Inbound.messages ((ListenerPc.hello fd ip input).inbound received fd) =
        [input.message] := by
      rw [ListenerPc.inbound, if_pos ⟨rfl, by rw [hname]; rfl⟩]
      rfl
    rw [hmessages]
    cases h with
    | unread hnobody hpushed hbefore hheard =>
      obtain ⟨haccepted, hinput⟩ := hheard rfl
      have hinput : chunks.map Packet.ofChunk = [input] := hinput
      obtain ⟨first, rfl, rfl⟩ := List.map_eq_singleton_iff.mp hinput
      refine @Stage.read fd p _ _ readers _ s.next first [] ?_ hsocket' (fun r hr hsocket => ?_)
        (haccepted'.symm ▸ haccepted) (fun hhears => by cases hhears) rfl ?_
      · rw [hreaders]
        exact List.mem_append_right _ (List.mem_singleton_self s.next)
      · rw [hreaders] at hr
        rcases List.mem_append.mp hr with hr | hr
        · rw [hold r hr] at hsocket
          exact absurd hsocket (hnobody r hr)
        · exact List.mem_singleton.mp hr
      · rw [hnew, hkept, hpushed]
        rfl
    | read hcreated hsocket honly haccepted hheard hchunks hpushed => exact absurd rfl hheard
  · have hmessages : Inbound.messages ((ListenerPc.hello fd ip input).inbound received socket) =
        [] := by
      rw [ListenerPc.inbound, if_neg fun hboth => hfd hboth.1]
      rfl
    rw [hmessages, List.append_nil]
    cases h with
    | unread hnobody hpushed hbefore hheard =>
      refine .unread (fun r hr => ?_) (hkept.trans hpushed)
        (fun hzero => hbefore (haccepted'.symm.trans hzero)) fun hhears => by cases hhears
      rw [hreaders] at hr
      rcases List.mem_append.mp hr with hr | hr
      · rw [hold r hr]
        exact hnobody r hr
      · rw [List.mem_singleton.mp hr, hsocket']
        exact hfd
    | read hcreated hsocket honly haccepted hheard hchunks hpushed =>
      refine .read (hreaders ▸ List.mem_append_left _ hcreated) ?_ (fun r' hr' h' => ?_)
        (haccepted'.symm ▸ haccepted) (fun hhears => by cases hhears) hchunks ?_
      · rw [hold _ hcreated]
        exact hsocket
      · rw [hreaders] at hr'
        rcases List.mem_append.mp hr' with hr' | hr'
        · rw [hold r' hr'] at h'
          exact honly r' hr' h'
        · rw [List.mem_singleton.mp hr', hsocket'] at h'
          exact absurd h' hfd
      · rw [hkept]
        exact hpushed

theorem smoListener_stage (h : Stage socket p s listener readers chunks opening)
    (hlistener : Server.smoListener env s listener = some (a, listener'))
    (haccess : s.access server .listener a = some s') (honce : timesAccepted socket s'.log ≤ 1)
    (hthreads : ∀ r ∈ s.readerThreads, r < s.next) (hnew : (readers s.next).carries = []) :
    Stage socket p s' listener' readers
      (chunks ++ Inbound.chunks (listener.inbound env.received socket))
      (opening ++ Inbound.messages (listener.inbound env.received socket)) := by
  have hquiet : a.aboutInbound = false → (∀ client input, a ≠ .push client input) →
      listener.inbound env.received socket = [] →
        (listener'.hears = some socket → listener.hears = some socket) →
          (listener'.hears = some socket → listener.Holds chunks → listener'.Holds chunks) →
            Stage socket p s' listener' readers
              (chunks ++ Inbound.chunks (listener.inbound env.received socket))
              (opening ++ Inbound.messages (listener.inbound env.received socket)) := by
    intro hother hpush hnone hhears hholds
    rw [hnone, Inbound.chunks, Inbound.messages, List.filterMap_nil, List.filterMap_nil,
      List.append_nil, List.append_nil]
    exact h.listens (access_sameInbound haccess hother socket) (access_pushed haccess hpush p)
      hhears hholds
  cases Server.listenerStep_of_smoListener hlistener with
  | @accept fd address port hlistened =>
    have hend := @Stage.accept _ _ _ _ _ _ _ _ fd (logText address port) h haccess honce
    simpa [ListenerPc.inbound, Inbound.chunks, Inbound.messages] using hend
  | @receive fd ip =>
    cases haccess
    have hend := h.receive env.received
    have hmessages : Inbound.messages ((ListenerPc.receive fd ip).inbound env.received socket) =
        [] := by
      rw [ListenerPc.inbound]
      split
      · cases env.received <;> rfl
      · rfl
    rw [hmessages, List.append_nil]
    exact hend
  | @answer fd ip name input hname =>
    have hend := h.answer hname haccess hthreads hnew env.received
    have hchunks : Inbound.chunks ((ListenerPc.hello fd ip input).inbound env.received socket) =
        [] := by
      rw [ListenerPc.inbound]
      split <;> rfl
    rw [hchunks, List.append_nil]
    exact hend
  | @helloThrow fd ip input hname =>
    refine hquiet rfl (fun _ _ heq => by cases heq) ?_ id fun _ => id
    rw [ListenerPc.inbound, hname, if_neg fun hboth => by cases hboth.2]
  | @hello fd ip input hcommand =>
    exact hquiet rfl (fun _ _ heq => by cases heq) rfl id fun _ hholds => hholds hcommand
  | logLock | logThrow htext | logged htext | logUnlock | waited hconnecting | wait hconnecting
  | helloLock =>
    exact hquiet rfl (fun _ _ heq => by cases heq) rfl id fun _ => id
  | _ =>
    exact hquiet rfl (fun _ _ heq => by cases heq) rfl (fun hhears => by cases hhears)
      fun hhears => by cases hhears

theorem ListenerPc.inbound_of_ne {pc : ListenerPc} (h : pc.hears ≠ some socket)
    (received : Received) : pc.inbound received socket = [] := by
  cases pc with
  | receive fd ip => exact if_neg fun heq => h (congrArg some heq)
  | hello fd ip input => exact if_neg fun hboth => h (congrArg some hboth.1)
  | _ => rfl

theorem ReaderPc.carries_of_result_none {reader : ReaderPc} (h : reader.result = none) :
    reader.carries = [] := by
  cases reader with
  | lock | again | push => cases h
  | _ => rfl

theorem smoReader_handled {client : ClientId} {pc pc' : ReaderPc}
    (hreader : server.smoReader env client s pc = some (a, pc'))
    (haccess : s.access server (.reader client) a = some s') (c : ClientId) :
    handledFor c s'.log = handledFor c s.log := by
  have hkind := Server.smoReader_access hreader
  cases a with
  | push result input =>
    cases haccess
    exact handledFor_pushed c result _ input
  | silent | lock | unlock | write _ _ => exact (access_sameQueues haccess rfl).handled c
  | _ => exact hkind.elim

theorem access_threads {t : Thread} (h : s.access server t a = some s')
    (hthreads : ∀ r ∈ s.readerThreads, r < s.next) :
    (∀ r ∈ s'.readerThreads, r < s'.next) ∧ s.next ≤ s'.next := by
  cases hkind : a.aboutInbound with
  | false =>
    have hsame := access_sameInbound h hkind 0
    rw [hsame.readers, hsame.next]
    exact ⟨hthreads, Nat.le_refl _⟩
  | true =>
    cases a with
    | accept fd =>
      obtain ⟨-, rfl⟩ := Shared.access_accept_iff.mp h
      exact ⟨hthreads, Nat.le_refl _⟩
    | answer env fd ip =>
      cases h
      refine ⟨fun r hr => ?_, Nat.le_succ _⟩
      rcases List.mem_append.mp hr with hr | hr
      · exact Nat.lt_succ_of_lt (hthreads r hr)
      · exact Nat.lt_succ_of_le (List.mem_singleton.mp hr).le
    | _ => cases hkind

end

/-! ## Runs -/

namespace World

/-- The invariant of a run, with what it has shown of the connection. -/
structure Heard (players : List ClientId) (q : ClientId → List Packet) (p : ClientId)
    (socket : Socket) (w : World) (seen : List Inbound) : Prop where
  balanced : Balanced players q w
  threads : ∀ r ∈ w.shared.readerThreads, r < w.shared.next
  results : ∀ r result, (w.readers r).result = some result →
    r < w.shared.next ∧ result ∈ players ∧
      (w.shared.heap result).socket = (w.shared.heap r).socket
  own : (w.shared.heap p).socket = socket
  stage : timesAccepted socket w.shared.log ≤ 1 → ∃ opening,
    Stage socket p w.shared w.listener w.readers (Inbound.chunks seen) opening ∧
      Inbound.messages seen =
        opening ++ (handledFor p w.shared.log ++ w.main.begun p).map Packet.message

section

variable {server : Server} {players : List ClientId} {q : ClientId → List Packet} {p : ClientId}
  {socket : Socket} {w w' : World} {seen : List Inbound}

/-- What a reader has found stays a player with the socket of its client. -/
theorem Heard.results_access {t : Thread} {a : Access} {s : Shared}
    (hw : Heard players q p socket w seen) (haccess : w.shared.access server t a = some s) :
    ∀ r result, (w.readers r).result = some result → r < s.next ∧ result ∈ players ∧
      (s.heap result).socket = (s.heap r).socket := by
  intro r result hfound
  obtain ⟨hr, hresult, hsocket⟩ := hw.results r result hfound
  refine ⟨Nat.lt_of_lt_of_le hr (access_threads haccess hw.threads).2, hresult, ?_⟩
  rw [access_socket haccess r hr,
    access_socket haccess result (hw.balanced.conserved.fresh result hresult)]
  exact hsocket

theorem step_heard {action : Action} (h : step server w action = some w') (hp : p ∈ players)
    (hq : q p = []) (hw : Heard players q p socket w seen) :
    Heard players q p socket w' (seen ++ w.inbound socket action) := by
  have hbalanced := step_balanced h hw.balanced
  have hconserved := hw.balanced.conserved
  have hfresh := hconserved.fresh p hp
  cases (stepBy_of_step h).2 with
  | @main env a pc s hstart haccess =>
    have hkind := Server.start_access server env w.shared w.main
    rw [hstart] at hkind
    have hother : a.aboutInbound = false := by
      cases a with
      | accept _ | answer _ _ _ => exact hkind.elim
      | _ => rfl
    refine ⟨hbalanced, (access_threads haccess hw.threads).1, hw.results_access haccess,
      (access_socket haccess p hfresh).trans hw.own, fun honce => ?_⟩
    obtain ⟨opening, hstage, hacted⟩ :=
      hw.stage ((access_timesAccepted_le haccess socket).trans honce)
    refine ⟨opening, ?_, ?_⟩
    · show Stage socket p s w.listener w.readers
        (Inbound.chunks (seen ++ w.main.inbound w.shared.heap socket)) opening
      rw [Inbound.chunks_append, MainPc.inbound_chunks, List.append_nil]
      refine hstage.same (access_sameInbound haccess hother socket) (access_pushed haccess ?_ p)
      rintro client input rfl
      exact hkind
    · show Inbound.messages (seen ++ w.main.inbound w.shared.heap socket) = _
      rw [Inbound.messages_append, hacted, start_begun hstart haccess hconserved.sees
        hconserved.sockets hp hw.own, List.append_assoc]
  | @listener env a pc s _ hlistener haccess =>
    refine ⟨hbalanced, (access_threads haccess hw.threads).1, hw.results_access haccess,
      (access_socket haccess p hfresh).trans hw.own, fun honce => ?_⟩
    obtain ⟨opening, hstage, hacted⟩ :=
      hw.stage ((access_timesAccepted_le haccess socket).trans honce)
    have hhandled : handledFor p s.log = handledFor p w.shared.log :=
      (access_sameQueues haccess (Server.smoListener_aboutQueues hlistener)).handled p
    have hnew : (w.readers w.shared.next).carries = [] := by
      refine ReaderPc.carries_of_result_none (Option.eq_none_iff_forall_not_mem.mpr ?_)
      exact fun result hfound => Nat.lt_irrefl _ (hw.results _ result hfound).1
    refine ⟨opening ++ Inbound.messages (w.listener.inbound env.received socket), ?_, ?_⟩
    · show Stage socket p s pc w.readers
        (Inbound.chunks (seen ++ w.listener.inbound env.received socket)) _
      rw [Inbound.chunks_append]
      exact smoListener_stage hstage hlistener haccess honce hw.threads hnew
    · show Inbound.messages (seen ++ w.listener.inbound env.received socket) =
        _ ++ (handledFor p s.log ++ w.main.begun p).map Packet.message
      rw [Inbound.messages_append, hacted, hhandled]
      cases hstage with
      | unread hnobody hpushed hbefore hheard =>
        -- nothing can have been handled that was not queued
        have hbalance := hconserved.balance p hp
        rw [hq, hpushed, MainPc.copied_eq] at hbalance
        simp only [List.append_nil, List.append_eq_nil_iff] at hbalance
        obtain ⟨⟨hnone, hbegun, -⟩, -⟩ := hbalance
        rw [hnone, hbegun]
        exact (List.append_nil _).symm
      | read hcreated hsocket honly haccepted hheard hchunks hpushed =>
        rw [ListenerPc.inbound_of_ne hheard, Inbound.messages, List.filterMap_nil,
          List.append_nil, List.append_nil]
  | @reader env client a pc s hcreated hreader haccess =>
    have hclient := hw.threads client hcreated
    refine ⟨hbalanced, (access_threads haccess hw.threads).1, fun r result hfound => ?_,
      (access_socket haccess p hfresh).trans hw.own, fun honce => ?_⟩
    · by_cases hr : r = client
      · subst hr
        have hfound : pc.result = some result := by simpa using hfound
        rcases smoReader_result hreader hfound with hold | hfind
        · exact hw.results_access haccess r result hold
        · rw [hconserved.room] at hfind
          have hresult := mem_of_findClient hfind
          have hsocket : (w.shared.heap r).socket = (w.shared.heap result).socket := by
            simpa using List.find?_some hfind
          refine ⟨Nat.lt_of_lt_of_le hclient (access_threads haccess hw.threads).2, hresult, ?_⟩
          show (s.heap result).socket = (s.heap r).socket
          rw [access_socket haccess r hclient,
            access_socket haccess result (hconserved.fresh result hresult), hsocket]
      · have hfound : (w.readers r).result = some result := by simpa [hr] using hfound
        exact hw.results_access haccess r result hfound
    · obtain ⟨opening, hstage, hacted⟩ :=
        hw.stage ((access_timesAccepted_le haccess socket).trans honce)
      refine ⟨opening, ?_, ?_⟩
      · show Stage socket p s w.listener (Function.update w.readers client pc)
          (Inbound.chunks
            (seen ++ (w.readers client).inbound env.received w.shared.heap socket)) opening
        rw [Inbound.chunks_append]
        exact smoReader_stage hstage hcreated hreader haccess
          (fun result hfound => (hw.results client result hfound).2) hconserved.sockets hp hw.own
      · show Inbound.messages
          (seen ++ (w.readers client).inbound env.received w.shared.heap socket) =
            opening ++ (handledFor p s.log ++ w.main.begun p).map Packet.message
        rw [Inbound.messages_append, ReaderPc.inbound_messages, List.append_nil, hacted,
          smoReader_handled hreader haccess]

end

/-- The search of `SMOReader` is taken as finding the client: a player has the descriptor of
the connection already, with nothing in its queue and without a reader. -/
structure Listed (p : ClientId) (socket : Socket) (w : World) : Prop where
  player : p ∈ w.shared.room.players
  own : (w.shared.heap p).socket = socket
  sockets : (w.shared.room.players.map fun c => (w.shared.heap c).socket).Nodup
  queue : (w.shared.heap p).vInput = []
  nobody : ∀ r ∈ w.shared.readerThreads, (w.shared.heap r).socket ≠ socket

/-- The hello has been answered, and nothing of what was received is left with the reader, in
the queue or in `Update`. -/
structure Settled (p : ClientId) (socket : Socket) (w : World) : Prop where
  answered : ∃ r ∈ w.shared.readerThreads, (w.shared.heap r).socket = socket
  carried : ∀ r ∈ w.shared.readerThreads, (w.shared.heap r).socket = socket →
    (w.readers r).carries = []
  queued : (w.shared.heap p).vInput = []
  copied : w.main.waiting p = []

instance (p : ClientId) (socket : Socket) (w : World) : Decidable (Settled p socket w) :=
  decidable_of_iff ((∃ r ∈ w.shared.readerThreads, (w.shared.heap r).socket = socket) ∧
      (∀ r ∈ w.shared.readerThreads, (w.shared.heap r).socket = socket →
        (w.readers r).carries = []) ∧
      (w.shared.heap p).vInput = [] ∧ w.main.waiting p = [])
    ⟨fun h => ⟨h.1, h.2.1, h.2.2.1, h.2.2.2⟩,
      fun h => ⟨h.answered, h.carried, h.queued, h.copied⟩⟩

theorem boot_heard {w : World} {p : ClientId} {socket : Socket} (hboot : Boot w)
    (hlisted : Listed p socket w) :
    Heard w.shared.room.players (fun c => (w.shared.heap c).vInput) p socket w [] := by
  refine ⟨boot_balanced hboot hlisted.sockets, hboot.readerThreads, fun r result hfound => ?_,
    hlisted.own, fun _ => ⟨[], .unread hlisted.nobody ?_ (fun _ => rfl) fun hhears => ?_, ?_⟩⟩
  · rw [hboot.readers] at hfound
    cases hfound
  · rw [hboot.log]
    rfl
  · rw [hboot.listener] at hhears
    cases hhears
  · rw [hboot.log, hboot.main]
    rfl

section

variable {server : Server} {p : ClientId} {socket : Socket} {w w' : World} {actions : List Action}

theorem run_heard (hboot : Boot w) (hlisted : Listed p socket w)
    (hrun : run server w actions = some w') :
    Heard w.shared.room.players (fun c => (w.shared.heap c).vInput) p socket w'
      (Transition.collect (step server) (inbound socket) w actions) :=
  Transition.run_collect
    (fun _ _ _ _ hstep => step_heard hstep hlisted.player hlisted.queue) hrun
    (boot_heard hboot hlisted)

/-- What was acted upon is the beginning of what was received, one message for each chunk. -/
theorem run_acts_in_order (hboot : Boot w) (hlisted : Listed p socket w)
    (hrun : run server w actions = some w') (honce : timesAccepted socket w'.shared.log ≤ 1) :
    w.actedUpon server socket actions <+:
      (w.received server socket actions).map (Packet.message ∘ Packet.ofChunk) := by
  have hw := run_heard hboot hlisted hrun
  obtain ⟨opening, hstage, hacted⟩ := hw.stage honce
  have hbalance := hw.balanced.conserved.balance p hlisted.player
  rw [hlisted.queue, MainPc.copied_eq, List.nil_append] at hbalance
  rw [actedUpon, hacted, received]
  cases hstage with
  | unread hnobody hpushed hbefore hheard =>
    rw [hpushed] at hbalance
    simp only [List.append_eq_nil_iff] at hbalance
    obtain ⟨⟨hnone, hbegun, -⟩, -⟩ := hbalance
    rw [hnone, hbegun]
    exact List.nil_prefix
  | @read r first later hcreated hsocket honly haccepted hheard hchunks hpushed =>
    have hlater : handledFor p w'.shared.log ++ w'.main.begun p <+:
        later.map Packet.ofChunk := by
      rw [← hpushed, ← hbalance]
      exact ⟨w'.main.waiting p ++ (w'.shared.heap p).vInput ++
        (w'.readers r).carries.map Packet.ofChunk, by simp only [List.append_assoc]⟩
    rw [hchunks, List.map_cons, List.singleton_append, ← List.map_map]
    exact (List.prefix_cons_inj _).mpr (hlater.map Packet.message)

/-- When nothing waits, all that was received has been acted upon. -/
theorem run_acts_upon_all (hboot : Boot w) (hlisted : Listed p socket w)
    (hrun : run server w actions = some w') (honce : timesAccepted socket w'.shared.log ≤ 1)
    (hsettled : Settled p socket w') : w.actedUpon server socket actions =
      (w.received server socket actions).map (Packet.message ∘ Packet.ofChunk) := by
  have hw := run_heard hboot hlisted hrun
  obtain ⟨opening, hstage, hacted⟩ := hw.stage honce
  have hbalance := hw.balanced.conserved.balance p hlisted.player
  rw [hlisted.queue, MainPc.copied_eq, hsettled.queued, hsettled.copied, List.append_nil,
    List.append_nil, List.nil_append] at hbalance
  rw [actedUpon, hacted, received]
  cases hstage with
  | unread hnobody hpushed hbefore hheard =>
    obtain ⟨r, hr, hsocket⟩ := hsettled.answered
    exact absurd hsocket (hnobody r hr)
  | @read r first later hcreated hsocket honly haccepted hheard hchunks hpushed =>
    rw [hsettled.carried r hcreated hsocket, List.map_nil, List.append_nil] at hpushed
    rw [hbalance, hpushed, hchunks, List.map_cons, List.map_map]
    rfl

end

/-- A room with one player, whose connection has not been accepted yet. -/
def listedPlayer : World :=
  let w := initial { emptyRoom with players := [0] } (fun _ => Client.guest 5 []) []
  { w with shared := { w.shared with readerThreads := [], opened := fun _ => false } }

theorem listedPlayer_boot : Boot listedPlayer :=
  ⟨rfl, rfl, fun _ => rfl, rfl, rfl, rfl, fun _ hc => by cases List.mem_singleton.mp hc; decide,
    fun _ hnil => absurd hnil List.not_mem_nil⟩

theorem listedPlayer_listed : Listed 0 5 listedPlayer :=
  ⟨List.mem_singleton_self 0, rfl, List.pairwise_singleton _ _, rfl,
    fun _ hnil => absurd hnil List.not_mem_nil⟩

/-- The hello arrives in a chunk, and is answered. -/
def hears (chunk : Chunk) : List Action :=
  starting ++ accepting ++ [⟨.listener, { idle with received := .data chunk }⟩] ++
    steps .listener 5

/-- Hello and ping arrive with one `Receive` each, and `Update` comes to the ping. -/
def wholeFrames : List Action :=
  hears helloFrame.chunk ++ steps (.reader 1) 4 ++
    [⟨.reader 1, { idle with received := .data pingFrame.chunk }⟩] ++ steps (.reader 1) 4 ++
    steps .main 12

theorem wholeFrames_settles :
    ∃ w, run ⟨128, 128, []⟩ listedPlayer wholeFrames = some w ∧ timesAccepted 5 w.shared.log ≤ 1 ∧
      Settled 0 5 w := by
  have hany : (run ⟨128, 128, []⟩ listedPlayer wholeFrames).any (fun w =>
      decide (timesAccepted 5 w.shared.log ≤ 1 ∧ Settled 0 5 w)) = true := by
    decide +kernel
  obtain ⟨w, hrun, hplace⟩ := (Option.any_eq_true _ _).mp hany
  exact ⟨w, hrun, of_decide_eq_true hplace⟩

/-- Both arrive with the first `Receive`, and the first loop of `Update` finds nothing. -/
def coalescedFrames : List Action :=
  hears helloAndPing ++ steps .main 10

end World

end WhiteSmo
