import WhiteSmo.Library.Transition
import WhiteSmo.Server.Inbound
import WhiteSmo.Threads.Listener
import WhiteSmo.Threads.Main
import WhiteSmo.Threads.Reader

/-!
# All threads

A state of the process is what the threads share and where each of them is.  An
action lets one thread make one step; no thread can once the process has ended.
-/

namespace WhiteSmo

structure World where
  shared : Shared
  main : MainPc
  listener : ListenerPc
  readers : ClientId → ReaderPc

structure Action where
  thread : Thread
  env : Env

namespace World

/-- One step of one thread, if it exists and does not wait for the mutex. -/
def step (server : Server) (w : World) (action : Action) : Option World :=
  if w.shared.fate = .alive then
    match action.thread with
    | .main =>
      let r := server.start action.env w.shared w.main
      (w.shared.access server .main r.1).map fun s => { w with shared := s, main := r.2 }
    | .listener =>
      if w.shared.mainThread then
        (Server.smoListener action.env w.shared w.listener).bind fun r =>
          (w.shared.access server .listener r.1).map fun s =>
            { w with shared := s, listener := r.2 }
      else none
    | .reader client =>
      if client ∈ w.shared.readerThreads then
        (server.smoReader action.env client w.shared (w.readers client)).bind fun r =>
          (w.shared.access server (.reader client) r.1).map fun s =>
            { w with shared := s, readers := Function.update w.readers client r.2 }
      else none
  else none

def run (server : Server) : World → List Action → Option World := Transition.run (step server)

/-- The start of the process.  `_running` and `connecting` have no initial value, and
the players are whoever is in the room, each with its reader. -/
structure Boot (w : World) : Prop where
  main : w.main = .create
  listener : w.listener = .test
  readers : ∀ client, w.readers client = .searchLock
  mutex : w.shared.mutex = none
  mainThread : w.shared.mainThread = false
  log : w.shared.log = []
  players : ∀ client ∈ w.shared.room.players, client < w.shared.next
  readerThreads : ∀ client ∈ w.shared.readerThreads, client < w.shared.next

/-- The process before `Start`, with one open socket and one reader for each player. -/
def initial (room : Room) (heap : ClientId → Client) (users : List Row) : World where
  shared :=
    { heap := heap
      users := users
      log := []
      fate := .alive
      room := room
      running := false
      mutex := none
      currentIP := []
      connecting := false
      mainThread := false
      readerThreads := room.players
      next := room.players.foldr (fun client next => max (client + 1) next) 0
      opened := fun socket => room.players.any fun client => (heap client).socket = socket }
  main := .create
  listener := .test
  readers := fun _ => .searchLock

theorem initial_boot (room : Room) (heap : ClientId → Client) (users : List Row) :
    Boot (initial room heap users) := by
  have hfresh : ∀ (players : List ClientId), ∀ client ∈ players,
      client < players.foldr (fun client next => max (client + 1) next) 0 := by
    intro players
    induction players with
    | nil => exact fun _ hnil => absurd hnil List.not_mem_nil
    | cons first players ih =>
      intro client hmem
      rcases List.mem_cons.mp hmem with rfl | hmem
      · exact Nat.lt_of_lt_of_le (Nat.lt_succ_self client) (Nat.le_max_left _ _)
      · exact Nat.lt_of_lt_of_le (ih client hmem) (Nat.le_max_right _ _)
  exact ⟨rfl, rfl, fun _ => rfl, rfl, rfl, rfl, hfresh room.players, hfresh room.players⟩

/-- What a step of each of the threads is. -/
inductive StepBy (server : Server) (w : World) : Action → World → Prop
  | main {env : Env} {a : Access} {pc : MainPc} {s : Shared}
      (hstart : server.start env w.shared w.main = (a, pc))
      (haccess : w.shared.access server .main a = some s) :
      StepBy server w ⟨.main, env⟩ { w with shared := s, main := pc }
  | listener {env : Env} {a : Access} {pc : ListenerPc} {s : Shared}
      (hcreated : w.shared.mainThread = true)
      (hlistener : Server.smoListener env w.shared w.listener = some (a, pc))
      (haccess : w.shared.access server .listener a = some s) :
      StepBy server w ⟨.listener, env⟩ { w with shared := s, listener := pc }
  | reader {env : Env} {client : ClientId} {a : Access} {pc : ReaderPc} {s : Shared}
      (hcreated : client ∈ w.shared.readerThreads)
      (hreader : server.smoReader env client w.shared (w.readers client) = some (a, pc))
      (haccess : w.shared.access server (.reader client) a = some s) :
      StepBy server w ⟨.reader client, env⟩
        { w with shared := s, readers := Function.update w.readers client pc }

theorem stepBy_of_step {server : Server} {w w' : World} {action : Action}
    (h : step server w action = some w') : w.shared.fate = .alive ∧ StepBy server w action w' := by
  obtain ⟨thread, env⟩ := action
  rw [step] at h
  split at h
  case isFalse => cases h
  case isTrue halive =>
    refine ⟨halive, ?_⟩
    cases thread with
    | main =>
      obtain ⟨s, haccess, rfl⟩ := Option.map_eq_some_iff.mp h
      exact .main rfl haccess
    | listener =>
      dsimp only at h
      split at h
      case isFalse => cases h
      case isTrue hcreated =>
        obtain ⟨r, hr, hmap⟩ := Option.bind_eq_some_iff.mp h
        obtain ⟨s, haccess, rfl⟩ := Option.map_eq_some_iff.mp hmap
        exact .listener hcreated hr haccess
    | reader client =>
      dsimp only at h
      split at h
      case isFalse => cases h
      case isTrue hcreated =>
        obtain ⟨r, hr, hmap⟩ := Option.bind_eq_some_iff.mp h
        obtain ⟨s, haccess, rfl⟩ := Option.map_eq_some_iff.mp hmap
        exact .reader hcreated hr haccess

theorem step_room {server : Server} {w w' : World} {action : Action}
    (h : step server w action = some w') : w'.shared.room = w.shared.room := by
  cases (stepBy_of_step h).2 with
  | main _ haccess => exact Shared.access_room haccess
  | listener _ _ haccess => exact Shared.access_room haccess
  | reader _ _ haccess => exact Shared.access_room haccess

/-! ## The mutex -/

def holds (w : World) : Thread → Bool
  | .main => w.main.holds
  | .listener => w.listener.holds
  | .reader client => (w.readers client).holds

/-- The mutex is owned by the thread that is between its lock and its unlock. -/
def Locked (w : World) : Prop := Mutex.Discipline w.shared.mutex w.holds

theorem boot_locked {w : World} (h : Boot w) : Locked w := by
  intro t
  rw [h.mutex]
  cases t with
  | main => simp [holds, h.main, MainPc.holds]
  | listener => simp [holds, h.listener, ListenerPc.holds]
  | reader client => simp [holds, h.readers, ReaderPc.holds]

theorem step_locked {server : Server} {w w' : World} {action : Action}
    (h : step server w action = some w') (hw : Locked w) : Locked w' := by
  cases (stepBy_of_step h).2 with
  | @main env a pc s hstart haccess =>
    have hholds := server.start_holds env w.shared w.main
    rw [hstart] at hholds
    refine Mutex.Discipline.moves hw (Shared.access_moves haccess hholds) fun t ht => ?_
    cases t with
    | main => exact absurd rfl ht
    | listener => rfl
    | reader client => rfl
  | listener _ hlistener haccess =>
    have hholds := Server.smoListener_holds hlistener
    refine Mutex.Discipline.moves hw (Shared.access_moves haccess hholds) fun t ht => ?_
    cases t with
    | main => rfl
    | listener => exact absurd rfl ht
    | reader client => rfl
  | @reader env client a pc s _ hreader haccess =>
    have hholds := Server.smoReader_holds hreader
    have hheld : holds { w with shared := s, readers := Function.update w.readers client pc }
        (.reader client) = pc.holds := by
      simp [holds]
    refine Mutex.Discipline.moves hw (hheld ▸ Shared.access_moves haccess hholds) fun t ht => ?_
    cases t with
    | main => rfl
    | listener => rfl
    | reader other =>
      have hother : other ≠ client := fun heq => ht (by rw [heq])
      simp [holds, hother]

/-- At every point of every run the mutex is owned by the thread that is between its
lock and its unlock. -/
theorem run_locked {server : Server} {w w' : World} {actions : List Action} (hboot : Boot w)
    (hrun : run server w actions = some w') : Locked w' :=
  Transition.run_invariant (fun _ _ _ h => step_locked h) hrun (boot_locked hboot)

/-! ## Runs -/

def emptyRoom : Room := ⟨0, false, 0, [], [], [], []⟩

def emptyStart : World := initial emptyRoom (fun _ => Client.guest 0 []) []

def idle : Env where
  db := ⟨fun _ _ => .throws, false, fun _ _ => none, false, fun _ users => users⟩
  ipFirst := true
  listened := none
  received := .failed
  connected := false
  type := .guest

def steps (thread : Thread) (n : Nat) : List Action := List.replicate n ⟨thread, idle⟩

/-- `Start` up to its loop. -/
def starting : List Action := steps .main 3

/-- The listener accepts socket 5, up to the end of `Listen`. -/
def accepting : List Action :=
  steps .listener 1 ++
    [⟨.listener, { idle with listened := some (5, ascii "10.0.0.1", ascii "50000") }⟩] ++
    steps .listener 3

/-- It receives a hello and answers it. -/
def greeting : List Action :=
  [⟨.listener, { idle with received := .data helloFrame.chunk }⟩] ++ steps .listener 4

end World
end WhiteSmo
