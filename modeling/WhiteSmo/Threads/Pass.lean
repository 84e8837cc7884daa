import WhiteSmo.Threads.World

/-!
# A pass as steps

`Server.update` is one pass of `Update` as a function, and `Server.start` makes the
same pass access by access.  While the other threads are quiet the steps lead to
what the function gives, for every choice of what the database does.
-/

namespace WhiteSmo

namespace State

variable {s : State} {client : ClientId}

theorem alive_of_apply {effect : Effect} (h : (s.apply client effect).fate = .alive) :
    s.fate = .alive := by
  cases effect with
  | throw => cases h
  | undefined => cases h
  | _ => exact h

theorem alive_of_applyAll {effects : List Effect} (h : (s.applyAll client effects).fate = .alive) :
    s.fate = .alive := by
  induction effects generalizing s with
  | nil => exact h
  | cons effect effects ih => exact alive_of_apply (ih h)

end State

namespace Server

variable {server : Server} {dbs : Nat → Database} {client : ClientId} {p : Pass}

theorem alive_of_handleNext {input : Packet}
    (h : (server.handleNext dbs client p input).state.fate = .alive) : p.state.fate = .alive := by
  by_cases halive : p.state.fate = .alive
  · exact halive
  · rwa [handleNext, if_neg halive] at h

theorem alive_of_foldl_handleNext {vInput : List Packet}
    (h : (vInput.foldl (server.handleNext dbs client) p).state.fate = .alive) :
    p.state.fate = .alive := by
  induction vInput generalizing p with
  | nil => exact h
  | cons input vInput ih => exact alive_of_handleNext (ih h)

theorem alive_of_clientTurn {clients : List ClientId}
    (h : (server.clientTurn dbs clients p client).state.fate = .alive) :
    p.state.fate = .alive := by
  unfold clientTurn at h
  split at h
  · exact h
  · have halive := alive_of_foldl_handleNext h
    exact halive

theorem writeBack_fate (clients : List ClientId) (s : State) (client : ClientId) :
    (writeBack clients s client).fate = s.fate := by
  unfold writeBack
  cases findClient s.heap clients client <;> rfl

/-- The first loop of a pass. -/
def clientTurns (server : Server) (dbs : Nat → Database) (clients todo : List ClientId)
    (p : Pass) : Pass :=
  todo.foldl (fun p client =>
    if p.state.fate = .alive then server.clientTurn dbs clients p client else p) p

theorem alive_of_clientTurns {clients todo : List ClientId}
    (h : (server.clientTurns dbs clients todo p).state.fate = .alive) : p.state.fate = .alive := by
  induction todo generalizing p with
  | nil => exact h
  | cons client todo ih =>
    by_cases halive : p.state.fate = .alive
    · exact halive
    · have hnext : (server.clientTurns dbs clients todo
          (if p.state.fate = .alive then server.clientTurn dbs clients p client
            else p)).state.fate = .alive := h
      rw [if_neg halive] at hnext
      exact ih hnext

end Server

namespace World

/-- A run of the main thread alone. -/
def Reaches (server : Server) (w w' : World) : Prop :=
  ∃ actions : List Action, (∀ action ∈ actions, action.thread = .main) ∧
    run server w actions = some w'

/-- The main thread is at a place, and what it finds there. -/
structure At (w : World) (main : MainPc) (mutex : Option Thread) (s : State) : Prop where
  main : w.main = main
  mutex : w.shared.mutex = mutex
  state : w.shared.toState = s

section

variable {server : Server} {dbs : Nat → Database} {w w' w'' : World} {s s' : State}
  {mutex mutex' : Option Thread} {clients todo : List ClientId} {client : ClientId}

theorem Reaches.trans (h : Reaches server w w') (h' : Reaches server w' w'') :
    Reaches server w w'' := by
  obtain ⟨first, hfirst, hrun⟩ := h
  obtain ⟨second, hsecond, hrun'⟩ := h'
  refine ⟨first ++ second, fun action hmem => ?_, ?_⟩
  · rcases List.mem_append.mp hmem with hmem | hmem
    · exact hfirst action hmem
    · exact hsecond action hmem
  · have hrun : Transition.run (step server) w first = some w' := hrun
    rw [run, Transition.run_append, hrun]
    exact hrun'

theorem Reaches.room (h : Reaches server w w') : w'.shared.room = w.shared.room := by
  obtain ⟨actions, -, hrun⟩ := h
  exact Transition.run_invariant (I := fun w' => w'.shared.room = w.shared.room)
    (fun _ _ _ hstep hroom => (step_room hstep).trans hroom) hrun rfl

variable (server)

theorem At.step {main pc : MainPc} (h : At w main mutex s) (halive : s.fate = .alive)
    (env : Env) {a : Access} {shared : Shared} (hstart : server.start env w.shared main = (a, pc))
    (haccess : w.shared.access server .main a = some shared) (hmutex : shared.mutex = mutex')
    (hstate : shared.toState = s') : ∃ w', Reaches server w w' ∧ At w' pc mutex' s' := by
  refine ⟨{ w with shared := shared, main := pc }, ⟨[⟨.main, env⟩], by simp, ?_⟩, rfl, hmutex,
    hstate⟩
  have hfate : w.shared.fate = .alive := by rw [h.state, halive]
  simp [run, Transition.run, World.step, hfate, h.main, hstart, haccess]

theorem handle_reaches {input : Packet} {effects : List Effect} {vInput : List Packet}
    (h : At w (.handle clients client todo input effects vInput) mutex s)
    (halive : (s.applyAll client effects).fate = .alive) :
    ∃ w', Reaches server w w' ∧ At w' (.inputs clients client todo vInput) mutex
      ((s.applyAll client effects).record (.handled client input)) := by
  induction effects generalizing w s with
  | nil =>
    exact h.step server halive idle rfl rfl h.mutex
      (congrArg (State.record · (.handled client input)) h.state)
  | cons effect effects ih =>
    obtain ⟨w', hstep, hw'⟩ := h.step server (State.alive_of_applyAll halive) idle rfl rfl h.mutex
      (congrArg (·.apply client effect) h.state)
    obtain ⟨w'', hrest, hw''⟩ := ih hw' halive
    exact ⟨w'', hstep.trans hrest, hw''⟩

theorem inputs_reaches {vInput : List Packet} {p : Pass}
    (h : At w (.inputs clients client todo vInput) mutex p.state)
    (halive : (vInput.foldl (server.handleNext dbs client) p).state.fate = .alive) :
    ∃ w', Reaches server w w' ∧ At w' (.turns clients todo) mutex
      (vInput.foldl (server.handleNext dbs client) p).state := by
  induction vInput generalizing w p with
  | nil => exact h.step server halive idle rfl rfl h.mutex h.state
  | cons input vInput ih =>
    have hnext : (server.handleNext dbs client p input).state.fate = .alive :=
      Server.alive_of_foldl_handleNext halive
    have hstart := Server.alive_of_handleNext hnext
    rw [List.foldl_cons] at halive ⊢
    rw [Server.handleNext, if_pos hstart] at hnext halive ⊢
    obtain ⟨w', hstep, hw'⟩ := h.step server hstart { idle with db := dbs p.done.length } rfl rfl
      h.mutex h.state
    rw [h.state] at hw'
    obtain ⟨w'', hhandle, hw''⟩ := handle_reaches server hw' hnext
    obtain ⟨w₃, hrest, hw₃⟩ := ih hw'' halive
    exact ⟨w₃, (hstep.trans hhandle).trans hrest, hw₃⟩

/-- The turn of one client: the copy of its queue, then the messages. -/
theorem clientTurn_reaches {p : Pass} (h : At w (.turns clients (client :: todo)) none p.state)
    (halive : (server.clientTurn dbs clients p client).state.fate = .alive) :
    ∃ w', Reaches server w w' ∧ At w' (.turns clients todo) none
      (server.clientTurn dbs clients p client).state := by
  have hstart := Server.alive_of_clientTurn halive
  rw [Server.clientTurn] at halive ⊢
  obtain ⟨w₁, hlock, hw₁⟩ := h.step server hstart idle rfl
    (Shared.access_lock_iff.mpr ⟨h.mutex, rfl⟩) rfl h.state
  cases hfind : findClient p.state.heap clients client with
  | none =>
    simp only [hfind] at halive ⊢
    obtain ⟨w₂, hcopy, hw₂⟩ := hw₁.step server hstart idle
      (by rw [Server.start, hw₁.state, hfind]) rfl hw₁.mutex hw₁.state
    obtain ⟨w₃, htaken, hw₃⟩ := hw₂.step server hstart idle rfl rfl rfl hw₂.state
    obtain ⟨w₄, hinputs, hw₄⟩ := hw₃.step server hstart idle rfl rfl hw₃.mutex hw₃.state
    exact ⟨w₄, ((hlock.trans hcopy).trans htaken).trans hinputs, hw₄⟩
  | some result =>
    simp only [hfind] at halive ⊢
    obtain ⟨w₂, hcopy, hw₂⟩ := hw₁.step server hstart idle
      (by rw [Server.start, hw₁.state, hfind]) rfl hw₁.mutex hw₁.state
    obtain ⟨w₃, hclear, hw₃⟩ := hw₂.step server hstart idle rfl rfl hw₂.mutex
      (congrArg (·.modify result fun c => { c with vInput := [] }) hw₂.state)
    obtain ⟨w₄, htaken, hw₄⟩ := hw₃.step server hstart idle rfl rfl rfl hw₃.state
    obtain ⟨w₅, hinputs, hw₅⟩ := inputs_reaches server
      (p := ⟨p.state.modify result fun c => { c with vInput := [] }, p.done⟩) hw₄ halive
    exact ⟨w₅, (((hlock.trans hcopy).trans hclear).trans htaken).trans hinputs, hw₅⟩

theorem turns_reaches {p : Pass} (h : At w (.turns clients todo) none p.state)
    (halive : (server.clientTurns dbs clients todo p).state.fate = .alive) :
    ∃ w', Reaches server w w' ∧ At w' (.backs clients clients) none
      (server.clientTurns dbs clients todo p).state := by
  induction todo generalizing w p with
  | nil => exact h.step server halive idle rfl rfl h.mutex h.state
  | cons client todo ih =>
    have hstart := Server.alive_of_clientTurns halive
    have hcons : server.clientTurns dbs clients (client :: todo) p =
        server.clientTurns dbs clients todo (server.clientTurn dbs clients p client) := by
      rw [Server.clientTurns, List.foldl_cons, if_pos hstart]
      rfl
    rw [hcons] at halive ⊢
    obtain ⟨w', hturn, hw'⟩ := clientTurn_reaches server h (Server.alive_of_clientTurns halive)
    obtain ⟨w'', hrest, hw''⟩ := ih hw' halive
    exact ⟨w'', hturn.trans hrest, hw''⟩

theorem backs_reaches (h : At w (.backs clients todo) none s) (halive : s.fate = .alive) :
    ∃ w', Reaches server w w' ∧
      At w' .arguments none (todo.foldl (Server.writeBack clients) s) := by
  induction todo generalizing w s with
  | nil => exact h.step server halive idle rfl rfl h.mutex h.state
  | cons client todo ih =>
    obtain ⟨w₁, hlock, hw₁⟩ := h.step server halive idle rfl
      (Shared.access_lock_iff.mpr ⟨h.mutex, rfl⟩) rfl h.state
    obtain ⟨w₂, hback, hw₂⟩ := hw₁.step server halive idle rfl rfl hw₁.mutex
      (congrArg (Server.writeBack clients · client) hw₁.state)
    have hwritten : (Server.writeBack clients s client).fate = .alive := by
      rw [Server.writeBack_fate, halive]
    obtain ⟨w₃, hunlock, hw₃⟩ := hw₂.step server hwritten idle rfl rfl rfl hw₂.state
    obtain ⟨w₄, hrest, hw₄⟩ := ih hw₃ hwritten
    exact ⟨w₄, ((hlock.trans hback).trans hunlock).trans hrest, hw₄⟩

/-- The main thread alone makes the pass that `update` describes, from one reading of
the arguments to the next. -/
theorem pass_reaches {p : Pass} (h : At w .arguments none p.state)
    (hstart : p.state.fate = .alive)
    (halive : (server.update dbs w.shared.room.getPlayers p).state.fate = .alive) :
    ∃ w', Reaches server w w' ∧ At w' .arguments none
      (server.update dbs w.shared.room.getPlayers p).state := by
  generalize hclients : w.shared.room.getPlayers = clients at halive ⊢
  obtain ⟨w₁, hfirst, hw₁⟩ := h.step server hstart idle rfl rfl h.mutex h.state
  obtain ⟨w₂, hsecond, hw₂⟩ := hw₁.step server hstart idle rfl rfl hw₁.mutex hw₁.state
  obtain ⟨w₃, hlock, hw₃⟩ := hw₂.step server hstart idle rfl
    (Shared.access_lock_iff.mpr ⟨hw₂.mutex, rfl⟩) rfl hw₂.state
  have harguments := (hfirst.trans hsecond).trans hlock
  obtain ⟨w₄, hmanager, hw₄⟩ := hw₃.step server hstart idle rfl rfl hw₃.mutex hw₃.state
  rw [harguments.room, hclients] at hw₄
  obtain ⟨w₅, hunlock, hw₅⟩ := hw₄.step server hstart idle rfl rfl rfl hw₄.state
  have henter := (harguments.trans hmanager).trans hunlock
  have hpass : server.update dbs clients p =
      if (server.clientTurns dbs clients clients p).state.fate = .alive then
        { server.clientTurns dbs clients clients p with
          state := clients.foldl (Server.writeBack clients)
            (server.clientTurns dbs clients clients p).state }
      else server.clientTurns dbs clients clients p := rfl
  have hturns : (server.clientTurns dbs clients clients p).state.fate = .alive := by
    by_cases hlive : (server.clientTurns dbs clients clients p).state.fate = .alive
    · exact hlive
    · rwa [hpass, if_neg hlive] at halive
  rw [hpass, if_pos hturns]
  obtain ⟨w₆, hfirstLoop, hw₆⟩ := turns_reaches server hw₅ hturns
  obtain ⟨w₇, hsecondLoop, hw₇⟩ := backs_reaches server hw₆ hturns
  exact ⟨w₇, (henter.trans hfirstLoop).trans hsecondLoop, hw₇⟩

end

end World
end WhiteSmo
