import WhiteSmo.Threads.World

/-!
# The input queues

A reader appends to the queue of its client inside the lock.  `Update` copies the
queue and clears it inside the lock, and handles the copy outside.  What has been
handled, what is in the copy and what is in the queue are together what has been
appended, at every point of every run.

Nobody appends between the copy and the clear, since both the main thread and a
reader that appends own the mutex.
-/

namespace WhiteSmo

/-- The messages handled for a client. -/
def handledFor (client : ClientId) (log : List Event) : List Packet :=
  log.filterMap fun
    | .handled c input => if c = client then some input else none
    | _ => none

/-- The messages appended to the queue of a client. -/
def pushedFor (client : ClientId) (log : List Event) : List Packet :=
  log.filterMap fun
    | .pushed c input => if c = client then some input else none
    | _ => none

/-- The messages taken from the queue of a client and not handled yet. -/
def MainPc.copied (client : ClientId) : MainPc → List Packet
  | .taken _ c _ vInput | .inputs _ c _ vInput => if c = client then vInput else []
  | .handle _ c _ input _ vInput => if c = client then input :: vInput else []
  | _ => []

/-- The locals of the main thread refer to the players; between the copy and the clear
the copy is the queue of the client whose turn it is. -/
def MainPc.Sees (players : List ClientId) (queue : ClientId → List Packet) : MainPc → Prop
  | .leave clients => clients = players
  | .turns clients todo | .backs clients todo | .backed clients todo =>
    clients = players ∧ todo ⊆ players
  | .copy clients client todo | .taken clients client todo _ | .inputs clients client todo _
  | .handle clients client todo _ _ _ | .back clients client todo =>
    clients = players ∧ client ∈ players ∧ todo ⊆ players
  | .clear clients client result todo vInput =>
    clients = players ∧ client ∈ players ∧ todo ⊆ players ∧ result = client ∧
      vInput = queue client
  | _ => True

theorem handledFor_append (client c : ClientId) (log : List Event) (input : Packet) :
    handledFor client (log ++ [.handled c input]) =
      handledFor client log ++ if c = client then [input] else [] := by
  rw [handledFor, List.filterMap_append]
  by_cases h : c = client
  · simp [handledFor, h]
  · simp [handledFor, h]

theorem pushedFor_append (client c : ClientId) (log : List Event) (input : Packet) :
    pushedFor client (log ++ [.pushed c input]) =
      pushedFor client log ++ if c = client then [input] else [] := by
  rw [pushedFor, List.filterMap_append]
  by_cases h : c = client
  · simp [pushedFor, h]
  · simp [pushedFor, h]

theorem filterMap_append_none {f : Event → Option Packet} {log : List Event} {event : Event}
    (h : f event = none) : (log ++ [event]).filterMap f = log.filterMap f := by
  rw [List.filterMap_append, List.filterMap_cons_none h, List.filterMap_nil, List.append_nil]

theorem pushedFor_handled (client c : ClientId) (log : List Event) (input : Packet) :
    pushedFor client (log ++ [.handled c input]) = pushedFor client log :=
  filterMap_append_none rfl

theorem handledFor_pushed (client c : ClientId) (log : List Event) (input : Packet) :
    handledFor client (log ++ [.pushed c input]) = handledFor client log :=
  filterMap_append_none rfl

/-- Three accesses are about the queues. -/
def Access.aboutQueues : Access → Bool
  | .clearInput _ | .handled _ _ | .push _ _ => true
  | _ => false

/-- Two states in which every queue, and what was done with it, is the same. -/
structure SameQueues (s s' : Shared) : Prop where
  next : s.next ≤ s'.next
  vInput : ∀ c < s.next, (s'.heap c).vInput = (s.heap c).vInput
  socket : ∀ c < s.next, (s'.heap c).socket = (s.heap c).socket
  handled : ∀ c, handledFor c s'.log = handledFor c s.log
  pushed : ∀ c, pushedFor c s'.log = pushedFor c s.log

/-- The queues in a state of the shared data and a place of the main thread; `q` is what
was in them at the start. -/
structure Conserved (players : List ClientId) (q : ClientId → List Packet) (s : Shared)
    (main : MainPc) : Prop where
  room : s.room.players = players
  fresh : ∀ c ∈ players, c < s.next
  sockets : (players.map fun c => (s.heap c).socket).Nodup
  sees : main.Sees players fun c => (s.heap c).vInput
  balance : ∀ c ∈ players,
    handledFor c s.log ++ main.copied c ++ (s.heap c).vInput = q c ++ pushedFor c s.log

section

variable {server : Server} {t : Thread} {s s' : Shared} {a : Access}

theorem access_sameQueues (h : s.access server t a = some s') (hother : a.aboutQueues = false) :
    SameQueues s s' := by
  cases a with
  | lock =>
    obtain ⟨-, rfl⟩ := Shared.access_lock_iff.mp h
    exact ⟨Nat.le_refl _, fun _ _ => rfl, fun _ _ => rfl, fun _ => rfl, fun _ => rfl⟩
  | accept socket =>
    obtain ⟨-, rfl⟩ := Shared.access_accept_iff.mp h
    exact ⟨Nat.le_refl _, fun _ _ => rfl, fun _ _ => rfl, fun _ => filterMap_append_none rfl,
      fun _ => filterMap_append_none rfl⟩
  | write client effect =>
    cases h
    refine ⟨Nat.le_refl _, fun c _ => State.apply_vInput _ client c effect,
      fun c _ => State.apply_socket _ client c effect, fun c => ?_, fun c => ?_⟩
    · cases effect <;> first | rfl | exact filterMap_append_none rfl
    · cases effect <;> first | rfl | exact filterMap_append_none rfl
  | writeBack clients client =>
    cases h
    refine ⟨Nat.le_refl _, fun c _ => Server.writeBack_vInput clients _ client c,
      fun c _ => Server.writeBack_socket clients _ client c, fun c => ?_, fun c => ?_⟩
    · exact congrArg (handledFor c) (Server.writeBack_log clients _ client)
    · exact congrArg (pushedFor c) (Server.writeBack_log clients _ client)
  | close socket =>
    cases h
    exact ⟨Nat.le_refl _, fun _ _ => rfl, fun _ _ => rfl, fun _ => filterMap_append_none rfl,
      fun _ => filterMap_append_none rfl⟩
  | answer env socket ip =>
    cases h
    refine ⟨Nat.le_succ _, fun c hc => ?_, fun c hc => ?_, fun c => ?_, fun c => ?_⟩
    · simp [Nat.ne_of_lt hc]
    · simp [Nat.ne_of_lt hc]
    · simp [handledFor]
    · simp [pushedFor]
  | clearInput client => cases hother
  | handled client input => cases hother
  | push client input => cases hother
  | _ =>
    cases h
    exact ⟨Nat.le_refl _, fun _ _ => rfl, fun _ _ => rfl, fun _ => rfl, fun _ => rfl⟩

end

section

variable {players : List ClientId} {q : ClientId → List Packet} {s s' : Shared}
  {main main' : MainPc}

/-- The place of the main thread depends on the queues of the players only. -/
theorem MainPc.Sees.congr {queue queue' : ClientId → List Packet} (h : main.Sees players queue)
    (hqueue : ∀ c ∈ players, queue' c = queue c) : main.Sees players queue' := by
  cases main with
  | clear clients client result todo vInput =>
    obtain ⟨hclients, hclient, htodo, hresult, hinput⟩ := h
    exact ⟨hclients, hclient, htodo, hresult, hinput.trans (hqueue client hclient).symm⟩
  | _ => exact h

theorem Conserved.same (h : Conserved players q s main) (hsame : SameQueues s s')
    (hroom : s'.room = s.room) (hsees : main'.Sees players fun c => (s.heap c).vInput)
    (hcopied : ∀ c ∈ players, main'.copied c = main.copied c) :
    Conserved players q s' main' where
  room := by rw [hroom, h.room]
  fresh c hc := Nat.lt_of_lt_of_le (h.fresh c hc) hsame.next
  sockets := by
    have hmap : (players.map fun c => (s'.heap c).socket) =
        players.map fun c => (s.heap c).socket :=
      List.map_congr_left fun c hc => hsame.socket c (h.fresh c hc)
    rw [hmap]
    exact h.sockets
  sees := hsees.congr fun c hc => hsame.vInput c (h.fresh c hc)
  balance c hc := by
    rw [hsame.handled, hsame.pushed, hcopied c hc, hsame.vInput c (h.fresh c hc)]
    exact h.balance c hc

/-- A change of one queue that leaves the sockets alone. -/
theorem Conserved.balanced (h : Conserved players q s main) (hroom : s'.room = s.room)
    (hnext : s'.next = s.next) (hsocket : ∀ c, (s'.heap c).socket = (s.heap c).socket)
    (hsees : main'.Sees players fun c => (s'.heap c).vInput)
    (hbalance : ∀ c ∈ players, handledFor c s'.log ++ main'.copied c ++ (s'.heap c).vInput =
      q c ++ pushedFor c s'.log) :
    Conserved players q s' main' where
  room := by rw [hroom, h.room]
  fresh c hc := by rw [hnext]; exact h.fresh c hc
  sockets := by simpa only [hsocket] using h.sockets
  sees := hsees
  balance := hbalance

theorem start_conserved {server : Server} {env : Env} {a : Access}
    (hstart : server.start env s main = (a, main')) (haccess : s.access server .main a = some s')
    (h : Conserved players q s main) : Conserved players q s' main' := by
  have hroom := Shared.access_room haccess
  have hsees := h.sees
  cases Server.startStep_of_start hstart with
  | manager => exact h.same (access_sameQueues haccess rfl) hroom h.room fun _ _ => rfl
  | leave =>
    obtain rfl := hsees
    exact h.same (access_sameQueues haccess rfl) hroom ⟨rfl, List.Subset.refl _⟩ fun _ _ => rfl
  | turnsEnd =>
    obtain ⟨rfl, htodo⟩ := hsees
    exact h.same (access_sameQueues haccess rfl) hroom ⟨rfl, List.Subset.refl _⟩ fun _ _ => rfl
  | turn | back =>
    obtain ⟨rfl, htodo⟩ := hsees
    obtain ⟨hclient, htodo⟩ := List.cons_subset.mp htodo
    exact h.same (access_sameQueues haccess rfl) hroom ⟨rfl, hclient, htodo⟩ fun _ _ => rfl
  | notFound hfind =>
    obtain ⟨rfl, hclient, htodo⟩ := hsees
    rw [findClient_of_nodup h.sockets hclient] at hfind
    cases hfind
  | copy hfind =>
    obtain ⟨rfl, hclient, htodo⟩ := hsees
    rw [findClient_of_nodup h.sockets hclient] at hfind
    cases hfind
    exact h.same (access_sameQueues haccess rfl) hroom ⟨rfl, hclient, htodo, rfl, rfl⟩
      fun _ _ => rfl
  | @clear clients todo client result vInput =>
    -- what was copied moves from the queue to the copy
    obtain ⟨rfl, hclient, htodo, rfl, rfl⟩ := hsees
    cases haccess
    refine h.balanced hroom rfl (fun c => ?_) ⟨rfl, hclient, htodo⟩ fun c hc => ?_
    · simp only [Shared.onState, State.modify_heap]
      split <;> rfl
    · have hbalance := h.balance c hc
      by_cases hresult : result = c
      · subst hresult
        simpa [MainPc.copied, Shared.onState] using hbalance
      · simpa [MainPc.copied, Shared.onState, hresult, State.modify_heap_of_ne _ (Ne.symm hresult)]
          using hbalance
  | inputsEnd =>
    exact h.same (access_sameQueues haccess rfl) hroom ⟨hsees.1, hsees.2.2⟩
      fun c _ => by simp [MainPc.copied]
  | @handled clients todo client input vInput =>
    -- the message moves from the copy to what was handled
    cases haccess
    refine h.balanced hroom rfl (fun _ => rfl) hsees fun c hc => ?_
    have hbalance := h.balance c hc
    show handledFor c (s.log ++ [.handled client input]) ++ (if client = c then vInput else []) ++
      (s.heap c).vInput = q c ++ pushedFor c (s.log ++ [.handled client input])
    rw [pushedFor_handled, handledFor_append]
    by_cases hclient : client = c
    · subst hclient
      simpa [MainPc.copied] using hbalance
    · simpa [MainPc.copied, hclient] using hbalance
  | taken | input | write | backed =>
    exact h.same (access_sameQueues haccess rfl) hroom hsees fun _ _ => rfl
  | writeBack =>
    exact h.same (access_sameQueues haccess rfl) hroom ⟨hsees.1, hsees.2.2⟩ fun _ _ => rfl
  | _ => exact h.same (access_sameQueues haccess rfl) hroom trivial fun _ _ => rfl

theorem Server.smoListener_aboutQueues {env : Env} {s : Shared} {pc pc' : ListenerPc} {a : Access}
    (h : smoListener env s pc = some (a, pc')) : a.aboutQueues = false := by
  cases listenerStep_of_smoListener h <;> rfl

theorem Server.smoReader_push {server : Server} {env : Env} {client result : ClientId}
    {s : Shared} {pc pc' : ReaderPc} {input : Packet}
    (h : server.smoReader env client s pc = some (.push result input, pc')) : pc.holds = true := by
  cases readerStep_of_smoReader h
  rfl

theorem Conserved.push {result : ClientId} {input : Packet} (h : Conserved players q s main)
    (hmain : main.holds = false) (hroom : s'.room = s.room)
    (hs' : s' = s.onState fun s => (s.modify result fun c =>
      { c with vInput := c.vInput ++ [input] }).record (.pushed result input)) :
    Conserved players q s' main := by
  subst hs'
  refine h.balanced hroom rfl (fun c => ?_) ?_ fun c hc => ?_
  · simp only [Shared.onState, State.record_heap, State.modify_heap]
    split <;> rfl
  · have hsees := h.sees
    cases main with
    | clear clients client result todo vInput => cases hmain
    | _ => exact hsees
  · have hbalance := h.balance c hc
    simp only [Shared.onState, State.record_heap, State.record_log, State.modify_log,
      State.modify_heap, handledFor_pushed, pushedFor_append]
    by_cases hresult : result = c
    · subst hresult
      rw [if_pos rfl, if_pos rfl, ← List.append_assoc, ← List.append_assoc, ← hbalance]
    · rw [if_neg hresult, if_neg (Ne.symm hresult), List.append_nil]
      exact hbalance

end

namespace World

/-- The invariant of a run. -/
structure Balanced (players : List ClientId) (q : ClientId → List Packet) (w : World) : Prop where
  locked : Locked w
  conserved : Conserved players q w.shared w.main

theorem step_balanced {server : Server} {players : List ClientId} {q : ClientId → List Packet}
    {w w' : World} {action : Action} (h : step server w action = some w')
    (hw : Balanced players q w) : Balanced players q w' := by
  refine ⟨step_locked h hw.locked, ?_⟩
  cases (stepBy_of_step h).2 with
  | main hstart haccess => exact start_conserved hstart haccess hw.conserved
  | listener _ hlistener haccess =>
    have hother := Server.smoListener_aboutQueues hlistener
    exact hw.conserved.same (access_sameQueues haccess hother) (Shared.access_room haccess)
      hw.conserved.sees fun _ _ => rfl
  | @reader env client a pc s _ hreader haccess =>
    by_cases hpush : ∃ result input, a = .push result input
    · obtain ⟨result, input, rfl⟩ := hpush
      have hholds : w.holds (.reader client) = true := Server.smoReader_push hreader
      have hmain : w.main.holds = false := by
        cases hheld : w.main.holds with
        | false => rfl
        | true =>
          have hboth : w.holds .main = true := hheld
          cases Mutex.Discipline.exclusive hw.locked hboth hholds
      exact hw.conserved.push hmain (Shared.access_room haccess) (Option.some.inj haccess).symm
    · have hother : a.aboutQueues = false := by
        have hkind := Server.smoReader_access hreader
        cases a with
        | push result input => exact absurd ⟨result, input, rfl⟩ hpush
        | clearInput _ => exact hkind.elim
        | handled _ _ => exact hkind.elim
        | _ => rfl
      exact hw.conserved.same (access_sameQueues haccess hother) (Shared.access_room haccess)
        hw.conserved.sees fun _ _ => rfl

theorem boot_balanced {w : World} (hboot : Boot w)
    (hsockets : (w.shared.room.players.map fun c => (w.shared.heap c).socket).Nodup) :
    Balanced w.shared.room.players (fun c => (w.shared.heap c).vInput) w := by
  refine ⟨boot_locked hboot, rfl, hboot.players, hsockets, ?_, fun c _ => ?_⟩
  · rw [hboot.main]
    trivial
  · rw [hboot.main, hboot.log]
    simp [handledFor, pushedFor, MainPc.copied]

/-- At every point of every run, what was handled for a player, what was copied for it
and not handled yet, and what is in its queue are together what the queue held at the
start and what was appended to it, in this order. -/
theorem queues_conserved (server : Server) (w w' : World) (actions : List Action) (hboot : Boot w)
    (hsockets : (w.shared.room.players.map fun c => (w.shared.heap c).socket).Nodup)
    (hrun : run server w actions = some w') :
    ∀ client ∈ w.shared.room.players,
      handledFor client w'.shared.log ++ w'.main.copied client ++ (w'.shared.heap client).vInput =
        (w.shared.heap client).vInput ++ pushedFor client w'.shared.log :=
  (Transition.run_invariant (fun _ _ _ h => step_balanced h) hrun
    (boot_balanced hboot hsockets)).conserved.balance

def onePlayer : World := initial { emptyRoom with players := [0] } (fun _ => Client.guest 5 []) []

/-- The reader of the player receives a ping and appends it. -/
def pushPing : List Action :=
  steps (.reader 0) 4 ++ [⟨.reader 0, { idle with received := .data pingFrame.chunk }⟩] ++
    steps (.reader 0) 4

/-- A ping arrives, `Update` begins to handle it, and another one arrives. -/
def pushTakePush : List Action := pushPing ++ starting ++ steps .main 10 ++ pushPing

theorem queues_conserved_pushTakePush :
    ∃ w, run ⟨128, 128, []⟩ onePlayer pushTakePush = some w ∧
      ((w.main.copied 0).length = 1 ∧ (w.shared.heap 0).vInput.length = 1) ∧
      handledFor 0 w.shared.log ++ w.main.copied 0 ++ (w.shared.heap 0).vInput =
        [] ++ pushedFor 0 w.shared.log := by
  have hrun : (run ⟨128, 128, []⟩ onePlayer pushTakePush).any (fun w =>
      decide ((w.main.copied 0).length = 1 ∧ (w.shared.heap 0).vInput.length = 1)) = true := by
    decide +kernel
  obtain ⟨w, hrun, hlengths⟩ := (Option.any_eq_true _ _).mp hrun
  exact ⟨w, hrun, of_decide_eq_true hlengths, queues_conserved ⟨128, 128, []⟩ onePlayer w
    pushTakePush (initial_boot _ _ _) (List.pairwise_singleton _ _) hrun 0
    (List.mem_singleton_self 0)⟩

end World
end WhiteSmo
