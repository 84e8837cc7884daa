import WhiteSmo.Server.Accounts

/-!
# Players in one pass

Both loops of `Update` look a client up again by its socket and take the first match.
`ownTurns` is the pass as it is meant: each client's own queue, in its own name, and
no second loop.  The two agree as long as no two players hold one descriptor.
-/

namespace WhiteSmo

namespace Server

variable (server : Server) (dbs : Nat → Database)

/-- The first loop of `Update`. -/
def turns (clients : List ClientId) (p : Pass) : Pass :=
  clients.foldl (fun p client =>
    if p.state.fate = .alive then server.clientTurn dbs clients p client else p) p

theorem update_eq_turns (clients : List ClientId) (p : Pass) :
    server.update dbs clients p =
      if (server.turns dbs clients p).state.fate = .alive then
        { server.turns dbs clients p with
          state := clients.foldl (writeBack clients) (server.turns dbs clients p).state }
      else server.turns dbs clients p := rfl

/-- The messages in the client's own queue, handled in its name. -/
def ownTurn (p : Pass) (client : ClientId) : Pass :=
  (p.state.heap client).vInput.foldl (server.handleNext dbs client)
    { p with state := p.state.modify client fun c => { c with vInput := [] } }

def ownTurns (clients : List ClientId) (p : Pass) : Pass :=
  clients.foldl (fun p client =>
    if p.state.fate = .alive then server.ownTurn dbs p client else p) p

/-- The pass handles what each client has queued in the name of that client, and the
second loop changes nothing. -/
structure Isolated (clients : List ClientId) (p : Pass) : Prop where
  turns : server.turns dbs clients p = server.ownTurns dbs clients p
  writeBack : (server.turns dbs clients p).state.fate = .alive →
    clients.foldl (writeBack clients) (server.turns dbs clients p).state =
      (server.turns dbs clients p).state

section

variable {server dbs} {clients : List ClientId} {p : Pass} {client : ClientId}

theorem Isolated.update_eq (h : server.Isolated dbs clients p) :
    server.update dbs clients p = server.ownTurns dbs clients p := by
  rw [update_eq_turns, ← h.turns]
  split
  case isTrue halive => rw [h.writeBack halive]
  case isFalse => rfl

/-! ### What a turn of its own is -/

/-- `q` has come from `p` by handling messages of `client` from the front of `queue`. -/
structure HandledFor (client : ClientId) (queue : List Packet) (p q : Pass) : Prop where
  handled : ∃ hs : List Handling, q.done = p.done ++ hs ∧ (∀ h ∈ hs, h.client = client) ∧
    hs.map Handling.input <+: queue ∧ (q.state.fate = .alive → hs.map Handling.input = queue)
  others : ∀ c, c ≠ client → q.state.heap c = p.state.heap c

theorem foldl_handleNext_handledFor (queue : List Packet) (p : Pass) :
    HandledFor client queue p (queue.foldl (server.handleNext dbs client) p) := by
  induction queue generalizing p with
  | nil => exact ⟨⟨[], by simp, by simp, List.prefix_refl _, fun _ => rfl⟩, fun _ _ => rfl⟩
  | cons input queue ih =>
    rw [List.foldl_cons]
    by_cases halive : p.state.fate = .alive
    · let effects := server.handleInput (dbs p.done.length) p.state.users (p.state.heap client)
        input
      let after := (p.state.applyAll client effects).record (.handled client input)
      let h : Handling := ⟨client, input, dbs p.done.length, p.state, after⟩
      have heq : server.handleNext dbs client p input = ⟨after, p.done ++ [h]⟩ := if_pos halive
      rw [heq]
      obtain ⟨⟨hs, hdone, hclient, hprefix, hall⟩, hothers⟩ := ih ⟨after, p.done ++ [h]⟩
      refine ⟨⟨h :: hs, ?_, List.forall_mem_cons.mpr ⟨rfl, hclient⟩, ?_, fun hend => ?_⟩,
        fun c hc => ?_⟩
      · rw [hdone, List.append_assoc]
        rfl
      · exact (List.prefix_cons_inj input).mpr hprefix
      · exact congrArg (input :: ·) (hall hend)
      · rw [hothers c hc]
        exact State.applyAll_heap_of_ne p.state hc effects
    · have hstuck : ∀ queue : List Packet, queue.foldl (server.handleNext dbs client) p = p :=
        fun queue => List.foldl_fixed' (fun input => if_neg halive) queue
      rw [handleNext, if_neg halive, hstuck queue]
      exact ⟨⟨[], by simp, by simp, List.nil_prefix, fun h => absurd h halive⟩, fun _ _ => rfl⟩

/-- A turn handles the client's own queue and changes no other client. -/
theorem ownTurn_handledFor (p : Pass) (client : ClientId) :
    HandledFor client (p.state.heap client).vInput p (server.ownTurn dbs p client) := by
  have hfold : HandledFor client (p.state.heap client).vInput
      { p with state := p.state.modify client fun c => { c with vInput := [] } }
      (server.ownTurn dbs p client) := foldl_handleNext_handledFor _ _
  refine ⟨hfold.handled, fun c hc => ?_⟩
  rw [hfold.others c hc, State.modify_heap_of_ne _ hc]

/-! ### Distinct sockets -/

theorem ownTurn_socket (p : Pass) (c : ClientId) :
    ((server.ownTurn dbs p client).state.heap c).socket = (p.state.heap c).socket := by
  refine List.foldlRecOn (motive := fun q : Pass => (q.state.heap c).socket =
    (p.state.heap c).socket) _ _ ?_ fun q hq input _ => ?_
  · rw [State.modify_heap]
    split <;> rfl
  · unfold handleNext
    split
    · rw [State.record_heap, State.applyAll_socket, hq]
    · exact hq

theorem clientTurn_of_findClient (h : findClient p.state.heap clients client = some client) :
    server.clientTurn dbs clients p client = server.ownTurn dbs p client := by
  rw [clientTurn, h]
  rfl

/-- No two players hold one descriptor. -/
def Distinct (socket : ClientId → Socket) (clients : List ClientId) : Prop :=
  ∀ c ∈ clients, ∀ d ∈ clients, socket c = socket d → c = d

theorem findClient_of_sockets {socket : ClientId → Socket} (hdistinct : Distinct socket clients)
    {heap : ClientId → Client} (hsockets : ∀ c ∈ clients, (heap c).socket = socket c)
    (hmem : client ∈ clients) : findClient heap clients client = some client := by
  refine findClient_of_distinct (fun c hc heq => ?_) hmem
  rw [hsockets client hmem, hsockets c hc] at heq
  exact hdistinct client hmem c hc heq

/-- Two loops that agree where an invariant of the second holds. -/
theorem foldl_eq_of_invariant {α β : Type} {P : β → Prop} {f g : β → α → β} {l : List α} {b : β}
    (hstep : ∀ b, P b → ∀ a ∈ l, f b a = g b a ∧ P (g b a)) (hb : P b) :
    l.foldl f b = l.foldl g b ∧ P (l.foldl g b) := by
  induction l generalizing b with
  | nil => exact ⟨rfl, hb⟩
  | cons a l ih =>
    obtain ⟨heq, hnext⟩ := hstep b hb a List.mem_cons_self
    rw [List.foldl_cons, List.foldl_cons, heq]
    exact ih (fun b hb a ha => hstep b hb a (List.mem_cons_of_mem _ ha)) hnext

theorem isolated_of_distinct {socket : ClientId → Socket} (hdistinct : Distinct socket clients)
    (hsockets : ∀ c ∈ clients, (p.state.heap c).socket = socket c) :
    server.Isolated dbs clients p := by
  obtain ⟨heq, hafter⟩ : server.turns dbs clients p = server.ownTurns dbs clients p ∧
      ∀ c ∈ clients, ((server.ownTurns dbs clients p).state.heap c).socket = socket c := by
    refine foldl_eq_of_invariant
      (P := fun q : Pass => ∀ c ∈ clients, (q.state.heap c).socket = socket c)
      (fun q hq client hmem => ?_) hsockets
    by_cases halive : q.state.fate = .alive
    · rw [if_pos halive, if_pos halive]
      refine ⟨clientTurn_of_findClient (findClient_of_sockets hdistinct hq hmem), fun c hc => ?_⟩
      rw [ownTurn_socket, hq c hc]
    · rw [if_neg halive, if_neg halive]
      exact ⟨rfl, hq⟩
  refine ⟨heq, fun _ => ?_⟩
  rw [heq]
  refine List.foldlRecOn (motive := fun s => s = (server.ownTurns dbs clients p).state) clients _
    rfl fun s hs client hmem => ?_
  subst hs
  exact writeBack_of_findClient (findClient_of_sockets hdistinct hafter hmem)

/-! ### Two players on one descriptor -/

theorem turns_of_no_input (hnone : ∀ c ∈ clients, (p.state.heap c).vInput = []) :
    server.turns dbs clients p = p := by
  refine List.foldlRecOn (motive := fun q => q = p) clients _ rfl fun q hq client _ => ?_
  subst hq
  split
  case isFalse => rfl
  case isTrue =>
    unfold clientTurn
    cases hfind : findClient q.state.heap clients client with
    | none => rfl
    | some result =>
      have hempty := hnone result (List.mem_of_find?_eq_some hfind)
      have hsame : { q.state.heap result with vInput := [] } = q.state.heap result := by
        rw [← hempty]
      show (q.state.heap result).vInput.foldl (server.handleNext dbs client) _ = q
      rw [hempty, List.foldl_nil, State.modify, hsame, Function.update_eq_self]

theorem findClient_eq {socket : ClientId → Socket} {heap : ClientId → Client}
    (hsockets : ∀ c, (heap c).socket = socket c) (client : ClientId) :
    findClient heap clients client = clients.find? fun c => socket client = socket c := by
  simp only [findClient, hsockets]

section

variable {socket : ClientId → Socket} {first other : ClientId}
  (hfirst : clients.find? (fun c => socket first = socket c) = some first)
  (hother : clients.find? (fun c => socket other = socket c) = some first)
  (hne : other ≠ first)
include hfirst hother hne

/-- Everybody but `first` is called `a`.  Once `other` has been written back, so is
`first`, and it stays so. -/
theorem writeBack_name {s : State} (hsockets : ∀ c, (s.heap c).socket = socket c)
    (hnames : ∀ c, c ≠ first → (s.heap c).name = [97]) (client : ClientId) :
    (∀ c, c ≠ first → ((writeBack clients s client).heap c).name = [97]) ∧
      (client = other ∨ (s.heap first).name = [97] →
        ((writeBack clients s client).heap first).name = [97]) := by
  unfold writeBack
  rw [findClient_eq hsockets]
  cases hfind : clients.find? fun c => socket client = socket c with
  | none =>
    refine ⟨hnames, fun h => ?_⟩
    rcases h with rfl | hname
    · cases hother.symm.trans hfind
    · exact hname
  | some result =>
    dsimp only
    constructor
    · intro c hc
      rw [State.modify_heap]
      split
      case isTrue heq =>
        subst heq
        refine hnames client fun hclient => ?_
        subst hclient
        exact hc (Option.some.inj (hfind.symm.trans hfirst))
      case isFalse => exact hnames c hc
    · intro h
      rw [State.modify_heap]
      have hclient : client = first ∨ (s.heap client).name = [97] := by
        by_cases heq : client = first
        · exact Or.inl heq
        · exact Or.inr (hnames client heq)
      rcases h with rfl | hname
      · rw [if_pos (Option.some.inj (hother.symm.trans hfind))]
        exact hnames client hne
      · split
        case isTrue =>
          rcases hclient with rfl | hclient
          · exact hname
          · exact hclient
        case isFalse => exact hname

theorem foldl_writeBack_name (todo : List ClientId) {s : State}
    (hsockets : ∀ c, (s.heap c).socket = socket c)
    (hnames : ∀ c, c ≠ first → (s.heap c).name = [97])
    (h : other ∈ todo ∨ (s.heap first).name = [97]) :
    ((todo.foldl (writeBack clients) s).heap first).name = [97] := by
  induction todo generalizing s with
  | nil =>
    rcases h with hmem | hname
    · exact absurd hmem List.not_mem_nil
    · exact hname
  | cons client todo ih =>
    obtain ⟨hnames', hname'⟩ := writeBack_name hfirst hother hne hsockets hnames client
    refine ih (fun c => ?_) hnames' ?_
    · rw [writeBack_socket, hsockets]
    · rcases h with hmem | hname
      · rcases List.mem_cons.mp hmem with rfl | hmem
        · exact Or.inr (hname' (Or.inl rfl))
        · exact Or.inl hmem
      · exact Or.inr (hname' (Or.inr hname))

variable (server dbs) in
theorem not_isolated_of_shared (hmem : other ∈ clients) :
    ∃ p : Pass, (∀ c, (p.state.heap c).socket = socket c) ∧ ¬ server.Isolated dbs clients p := by
  let heap : ClientId → Client := fun c =>
    { Client.guest (socket c) [] with name := if c = first then [] else [97] }
  let p : Pass := ⟨⟨heap, [], [], .alive⟩, []⟩
  refine ⟨p, fun _ => rfl, fun hisolated => ?_⟩
  have hturns : server.turns dbs clients p = p := turns_of_no_input fun _ _ => rfl
  have hback := hisolated.writeBack
  rw [hturns] at hback
  have hname := foldl_writeBack_name hfirst hother hne clients (s := p.state) (fun _ => rfl)
    (fun c hc => if_neg hc) (Or.inl hmem)
  rw [hback rfl] at hname
  have hempty : (p.state.heap first).name = [] := if_pos rfl
  rw [hempty] at hname
  cases hname

end

end

/-- Passes over a player list leave every player its own, whatever the clients are and
have queued, exactly when no two of them hold one descriptor. -/
theorem isolated_iff (server : Server) (dbs : Nat → Database) (clients : List ClientId)
    (socket : ClientId → Socket) :
    (∀ p : Pass, (∀ c ∈ clients, (p.state.heap c).socket = socket c) →
        server.Isolated dbs clients p) ↔
      Distinct socket clients := by
  constructor
  · intro hall c hc d hd heq
    by_contra hne
    obtain ⟨first, hfirst⟩ :
        ∃ first, clients.find? (fun x => socket c = socket x) = some first := by
      rw [← Option.isSome_iff_exists, List.find?_isSome]
      exact ⟨c, hc, by simp⟩
    have hsocket : socket c = socket first := by simpa using List.find?_some hfirst
    have hsame : ∀ x, socket x = socket first →
        clients.find? (fun y => socket x = socket y) = some first := by
      intro x hx
      rw [hx, ← hsocket]
      exact hfirst
    obtain ⟨other, hother, hmem, hshared⟩ : ∃ other, other ≠ first ∧ other ∈ clients ∧
        socket other = socket first := by
      by_cases hcfirst : c = first
      · exact ⟨d, fun hdfirst => hne (hcfirst.trans hdfirst.symm), hd, heq.symm.trans hsocket⟩
      · exact ⟨c, hcfirst, hc, hsocket⟩
    obtain ⟨p, hsockets, hnot⟩ := not_isolated_of_shared server dbs (hsame first rfl)
      (hsame other hshared) hother hmem
    exact hnot (hall p fun c _ => hsockets c)
  · intro hdistinct p hsockets
    exact isolated_of_distinct hdistinct hsockets

/-- A client that has left is still a player, and the next connection has got its
descriptor. -/
def reusedDescriptor : State where
  heap client := { Client.guest 5 [] with connected := client ≠ 0 }
  users := []
  log := []
  fate := .alive

/-- The pass makes the client that has left connected again. -/
theorem left_client_reconnected :
    let p := Server.update ⟨128, 128, []⟩ (fun _ => sqlite fun _ _ => false) [0, 1]
      ⟨reusedDescriptor, []⟩
    (reusedDescriptor.heap 0).connected = false ∧ (p.state.heap 0).connected = true ∧
      ¬ Server.Isolated ⟨128, 128, []⟩ (fun _ => sqlite fun _ _ => false) [0, 1]
        ⟨reusedDescriptor, []⟩ := by
  intro p
  have hend : (p.state.heap 0).connected = true := by decide
  have hown : ((Server.ownTurns ⟨128, 128, []⟩ (fun _ => sqlite fun _ _ => false) [0, 1]
      ⟨reusedDescriptor, []⟩).state.heap 0).connected = false := by decide
  refine ⟨rfl, hend, fun hisolated => ?_⟩
  rw [← hisolated.update_eq] at hown
  exact absurd (hown.symm.trans hend) Bool.false_ne_true

end Server
end WhiteSmo
