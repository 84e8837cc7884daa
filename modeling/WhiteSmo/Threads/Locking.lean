import Mathlib.Data.List.Infix
import WhiteSmo.Threads.World

/-!
# No deadlock on the mutex

The mutex is not recursive, and the log callback locks it.  The socket library can
call `logPrinter` from every `Listen`, `Receive`, `Send` and `Disconnect`, some of
which are made under the lock.  The process is run here with such calls, each with a
text of its own.  Only the text of an accepted connection makes `logPrinter` lock,
and the listener has that call among its own steps.
-/

namespace WhiteSmo

/-- The text that `logPrinter` looks for. -/
def connectionText : Bytes := ascii "Incoming connection from"

/-- The accesses of `logPrinter`. -/
def logPrinter (text : Bytes) : List Access :=
  if connectionText <:+: text then
    .lock ::
      match extractIP text with
      | none => [.throw]
      | some ip => [.logged ip, .unlock]
  else []

/-- With the text of `Listen` these are the accesses of the listener from `logLock` to
`logUnlock`. -/
theorem logPrinter_logText {address port : Bytes} (haddress : 39 ∉ address) :
    logPrinter (logText address port) = [.lock, .logged address, .unlock] := by
  have hopen : ascii "[TCPServer][Info] Incoming connection from '" =
      ascii "[TCPServer][Info] " ++ connectionText ++ ascii " '" := by decide +kernel
  have hcontains : connectionText <:+: logText address port := by
    refine ⟨ascii "[TCPServer][Info] ", ascii " '" ++ address ++ ascii "' port '" ++ port ++
      ascii "'", ?_⟩
    simp only [logText, hopen, List.append_assoc]
  rw [logPrinter, if_pos hcontains, extractIP_logText haddress]

theorem logPrinter_of_other {text : Bytes} (h : ¬ connectionText <:+: text) :
    logPrinter text = [] := if_neg h

/-! ## Places -/

/-- At a call to the socket library. -/
def MainPc.calls : MainPc → Bool
  | .handle _ _ _ _ (.send _ _ :: _) _ | .handle _ _ _ _ (.disconnect _ :: _) _ => true
  | _ => false

def ListenerPc.calls : ListenerPc → Bool
  | .listen | .receive _ _ | .hello _ _ _ | .refuse _ => true
  | _ => false

def ReaderPc.calls : ReaderPc → Bool
  | .receive _ | .close _ | .notify _ (.send _ _ :: _) => true
  | _ => false

/-- At the head of a loop, where an iteration has ended. -/
def MainPc.atHead : MainPc → Bool
  | .arguments | .turns _ _ | .inputs _ _ _ _ | .backs _ _ => true
  | _ => false

def ListenerPc.atHead : ListenerPc → Bool
  | .test | .finished => true
  | _ => false

def ReaderPc.atHead : ReaderPc → Bool
  | .searchLock | .finished => true
  | _ => false

/-- In `Listen`, in `Receive` or in the hello wait. -/
def ListenerPc.waits : ListenerPc → Bool
  | .listen | .receive _ _ | .wait _ _ _ => true
  | _ => false

def ReaderPc.waits : ReaderPc → Bool
  | .receive _ => true
  | _ => false

theorem MainPc.not_holds_of_atHead {pc : MainPc} (h : pc.atHead = true) : pc.holds = false := by
  cases pc <;> first | rfl | cases h

theorem ListenerPc.not_holds_of_atHead {pc : ListenerPc} (h : pc.atHead = true) :
    pc.holds = false := by
  cases pc <;> first | rfl | cases h

theorem ReaderPc.not_holds_of_atHead {pc : ReaderPc} (h : pc.atHead = true) :
    pc.holds = false := by
  cases pc <;> first | rfl | cases h

theorem ListenerPc.not_holds_of_waits {pc : ListenerPc} (h : pc.waits = true) :
    pc.holds = false := by
  cases pc <;> first | rfl | cases h

theorem ReaderPc.not_holds_of_waits {pc : ReaderPc} (h : pc.waits = true) : pc.holds = false := by
  cases pc <;> first | rfl | cases h

/-- How many steps of its own a thread is away from its unlock, at most. -/
def MainPc.toUnlock : MainPc → Nat
  | .copy _ _ _ => 3
  | .entered _ _ | .clear _ _ _ _ _ | .back _ _ _ => 2
  | _ => 1

def ListenerPc.toUnlock : ListenerPc → Nat
  | .log _ _ | .hello _ _ _ => 2
  | _ => 1

def ReaderPc.toUnlock (players : List ClientId) : ReaderPc → Nat
  | .again _ none => players.length + 6
  | .close _ => players.length + 5
  | .closed _ => players.length + 4
  | .again _ (some _) => 3
  | .notify _ effects => effects.length + 3
  | .search | .clear _ | .push _ _ | .erase => 2
  | _ => 1

namespace World

def calls (w : World) : Thread → Bool
  | .main => w.main.calls
  | .listener => w.listener.calls
  | .reader client => (w.readers client).calls

def atHead (w : World) : Thread → Bool
  | .main => w.main.atHead
  | .listener => w.listener.atHead
  | .reader client => (w.readers client).atHead

def waits (w : World) : Thread → Bool
  | .main => false
  | .listener => w.listener.waits
  | .reader client => (w.readers client).waits

def toUnlock (w : World) : Thread → Nat
  | .main => w.main.toUnlock
  | .listener => w.listener.toUnlock
  | .reader client => (w.readers client).toUnlock w.shared.room.players

/-- The next access in a thread's own code. -/
def next (server : Server) (env : Env) (w : World) : Thread → Option Access
  | .main => some (server.start env w.shared w.main).1
  | .listener => (Server.smoListener env w.shared w.listener).map Prod.fst
  | .reader client => (server.smoReader env client w.shared (w.readers client)).map Prod.fst

/-- A thread that has made a step has been created. -/
structure Created (w : World) : Prop where
  listener : w.listener ≠ .test → w.shared.mainThread = true
  reader : ∀ client, w.readers client ≠ .searchLock → client ∈ w.shared.readerThreads

end World

/-! ## A step of the owner -/

section

variable {server : Server} {env : Env} {t : Thread} {s s' : Shared} {a : Access}

variable (server t s) in
theorem Shared.access_possible (hlock : a = .lock → s.mutex = none)
    (haccept : ∀ socket, a ≠ .accept socket) : ∃ s', s.access server t a = some s' := by
  cases a with
  | lock => exact ⟨_, access_lock_iff.mpr ⟨hlock rfl, rfl⟩⟩
  | accept socket => exact absurd rfl (haccept socket)
  | _ => exact ⟨_, rfl⟩

theorem Access.not_held_of_lock {held held' : Bool} (h : Access.lock.holds held = some held') :
    held = false := by
  cases held with
  | false => rfl
  | true => cases h

theorem Access.ne_lock {held : Bool} (h : a.holds true = some held) : a ≠ .lock := by
  rintro rfl
  cases Access.not_held_of_lock h

theorem Shared.access_created (h : s.access server t a = some s') :
    (s.mainThread = true → s'.mainThread = true) ∧ s.readerThreads ⊆ s'.readerThreads := by
  cases a with
  | lock =>
    obtain ⟨-, rfl⟩ := access_lock_iff.mp h
    exact ⟨id, List.Subset.refl _⟩
  | accept socket =>
    obtain ⟨-, rfl⟩ := access_accept_iff.mp h
    exact ⟨id, List.Subset.refl _⟩
  | createListener =>
    cases h
    exact ⟨fun _ => rfl, List.Subset.refl _⟩
  | answer env socket ip =>
    cases h
    exact ⟨id, List.subset_append_left _ _⟩
  | _ =>
    cases h
    exact ⟨id, List.Subset.refl _⟩

end

namespace Server

variable {server : Server} {env : Env} {s : Shared}

variable (server env s) in
/-- Under the lock the main thread unlocks or comes closer to it. -/
theorem start_toUnlock {pc : MainPc} (hholds : pc.holds = true) :
    (server.start env s pc).1 = .unlock ∨ (server.start env s pc).2.toUnlock < pc.toUnlock := by
  have hstep := server.startStep env s pc
  generalize server.start env s pc = r at hstep
  obtain ⟨a, pc'⟩ := r
  cases hstep with
  | leave | taken | backed => exact Or.inl rfl
  | manager | notFound _ | copy _ | clear | writeBack =>
    refine Or.inr ?_
    simp only [MainPc.toUnlock]
    omega
  | _ => cases hholds

theorem smoListener_accept {pc pc' : ListenerPc} {socket : Socket}
    (h : smoListener env s pc = some (.accept socket, pc')) : pc.holds = false := by
  cases listenerStep_of_smoListener h
  rfl

variable (env s) in
theorem smoListener_held {pc : ListenerPc} (hholds : pc.holds = true) :
    ∃ a pc', smoListener env s pc = some (a, pc') ∧
      (a = .unlock ∨ a = .throw ∨ pc'.toUnlock < pc.toUnlock) := by
  cases pc with
  | log socket text =>
    cases htext : extractIP text with
    | none => exact ⟨.throw, .log socket text, by rw [smoListener, htext], Or.inr (Or.inl rfl)⟩
    | some ip =>
      refine ⟨.logged ip, .logUnlock socket ip, by rw [smoListener, htext], Or.inr (Or.inr ?_)⟩
      show 1 < 2
      omega
  | logUnlock socket ip => exact ⟨.unlock, _, rfl, Or.inl rfl⟩
  | hello socket ip input =>
    cases hname : helloName input with
    | none =>
      exact ⟨.throw, .hello socket ip input, by rw [smoListener, hname], Or.inr (Or.inl rfl)⟩
    | some name =>
      refine ⟨.answer env socket ip, .helloUnlock, by rw [smoListener, hname],
        Or.inr (Or.inr ?_)⟩
      show 1 < 2
      omega
  | helloUnlock => exact ⟨.unlock, _, rfl, Or.inl rfl⟩
  | _ => cases hholds

variable (server env s) in
/-- The notices that a reader sends under the lock are no more than there are players. -/
theorem smoReader_held (client : ClientId) {pc : ReaderPc} (hholds : pc.holds = true) :
    ∃ a pc', server.smoReader env client s pc = some (a, pc') ∧
      (a = .unlock ∨ pc'.toUnlock s.room.players < pc.toUnlock s.room.players) := by
  cases pc with
  | search =>
    refine ⟨_, _, rfl, Or.inr ?_⟩
    show 1 < 2
    omega
  | searchUnlock result =>
    cases result with
    | none => exact ⟨_, _, rfl, Or.inl rfl⟩
    | some result => exact ⟨_, _, rfl, Or.inl rfl⟩
  | again result chunk =>
    cases chunk with
    | none =>
      refine ⟨_, _, rfl, Or.inr ?_⟩
      show s.room.players.length + 5 < s.room.players.length + 6
      omega
    | some chunk =>
      refine ⟨_, _, rfl, Or.inr ?_⟩
      show 2 < 3
      omega
  | close result =>
    refine ⟨_, _, rfl, Or.inr ?_⟩
    show s.room.players.length + 4 < s.room.players.length + 5
    omega
  | closed result =>
    cases hlogged : (s.heap result).loggedIn with
    | false =>
      refine ⟨.silent, .clear result, by simp [smoReader, hlogged], Or.inr ?_⟩
      show 2 < s.room.players.length + 4
      omega
    | true =>
      have hothers : (server.disconnectClient s.room s.heap (s.heap result)).length ≤
          s.room.players.length := by
        rw [disconnectClient, List.length_map]
        exact List.length_filter_le _ _
      refine ⟨.silent, .notify result (server.disconnectClient s.room s.heap (s.heap result)),
        by simp [smoReader, hlogged], Or.inr ?_⟩
      show (server.disconnectClient s.room s.heap (s.heap result)).length + 3 <
        s.room.players.length + 4
      omega
  | notify result effects =>
    cases effects with
    | nil =>
      refine ⟨_, _, rfl, Or.inr ?_⟩
      show 2 < 0 + 3
      omega
    | cons effect effects =>
      refine ⟨_, _, rfl, Or.inr ?_⟩
      show effects.length + 3 < (effects.length + 1) + 3
      omega
  | clear result =>
    refine ⟨_, _, rfl, Or.inr ?_⟩
    show 1 < 2
    omega
  | push result chunk =>
    refine ⟨_, _, rfl, Or.inr ?_⟩
    show 1 < 2
    omega
  | unlock => exact ⟨_, _, rfl, Or.inl rfl⟩
  | erase =>
    refine ⟨_, _, rfl, Or.inr ?_⟩
    show 1 < 2
    omega
  | eraseUnlock => exact ⟨_, _, rfl, Or.inl rfl⟩
  | _ => cases hholds

end Server

namespace World

variable {server : Server} {w w' : World} {action : Action}

theorem boot_created (h : Boot w) : Created w :=
  ⟨fun hne => absurd h.listener hne, fun client hne => absurd (h.readers client) hne⟩

theorem step_created (h : step server w action = some w') (hw : Created w) : Created w' := by
  cases (stepBy_of_step h).2 with
  | main _ haccess =>
    obtain ⟨hmain, hreaders⟩ := Shared.access_created haccess
    exact ⟨fun hne => hmain (hw.listener hne), fun c hne => hreaders (hw.reader c hne)⟩
  | listener hcreated _ haccess =>
    obtain ⟨hmain, hreaders⟩ := Shared.access_created haccess
    exact ⟨fun _ => hmain hcreated, fun c hne => hreaders (hw.reader c hne)⟩
  | @reader env client _ _ _ hcreated _ haccess =>
    obtain ⟨hmain, hreaders⟩ := Shared.access_created haccess
    refine ⟨fun hne => hmain (hw.listener hne), fun c hne => hreaders ?_⟩
    by_cases hc : c = client
    · rw [hc]
      exact hcreated
    · refine hw.reader c fun heq => hne ?_
      show Function.update w.readers client _ c = .searchLock
      rw [Function.update_of_ne hc, heq]

variable (server) in
/-- The main thread can make its step unless it waits for the mutex. -/
theorem main_step (halive : w.shared.fate = .alive) (env : Env)
    (hlock : (server.start env w.shared w.main).1 = .lock → w.shared.mutex = none) :
    ∃ s, w.shared.access server .main (server.start env w.shared w.main).1 = some s ∧
      step server w ⟨.main, env⟩ =
        some { w with shared := s, main := (server.start env w.shared w.main).2 } := by
  obtain ⟨s, hs⟩ := Shared.access_possible server .main w.shared hlock
    fun socket heq => by
      have hkind := server.start_access env w.shared w.main
      rw [heq] at hkind
      exact hkind
  exact ⟨s, hs, by simp [step, halive, hs]⟩

variable (server) in
/-- The owner of the mutex is never stuck. -/
theorem owner_step (halive : w.shared.fate = .alive) (hlocked : Locked w) (hcreated : Created w)
    {t : Thread} (howner : w.shared.mutex = some t) (env : Env) :
    ∃ w', step server w ⟨t, env⟩ = some w' ∧ (w'.shared.fate = .alive →
      w'.shared.mutex = none ∨ w'.toUnlock t < w.toUnlock t) := by
  have hholds : w.holds t = true := (hlocked t).mp howner
  cases t with
  | main =>
    have hlock := server.start_holds env w.shared w.main
    rw [show w.main.holds = true from hholds] at hlock
    obtain ⟨s, hs, hstep⟩ :=
      main_step server halive env fun heq => absurd heq (Access.ne_lock hlock)
    refine ⟨_, hstep, fun _ => ?_⟩
    rcases Server.start_toUnlock server env w.shared hholds with hunlock | hcloser
    · rw [hunlock] at hs
      cases hs
      exact Or.inl rfl
    · exact Or.inr hcloser
  | listener =>
    have hpc : w.listener.holds = true := hholds
    have hthread : w.shared.mainThread = true := by
      refine hcreated.listener fun heq => ?_
      rw [heq] at hpc
      cases hpc
    obtain ⟨a, pc, hnext, hcloser⟩ := Server.smoListener_held env w.shared hpc
    have hlock := Server.smoListener_holds hnext
    rw [hpc] at hlock
    obtain ⟨s, hs⟩ := Shared.access_possible server .listener w.shared
      (fun heq => absurd heq (Access.ne_lock hlock)) fun socket heq => by
        rw [heq] at hnext
        rw [Server.smoListener_accept hnext] at hpc
        cases hpc
    refine ⟨{ w with shared := s, listener := pc }, by simp [step, halive, hthread, hnext, hs],
      fun halive' => ?_⟩
    rcases hcloser with rfl | rfl | hcloser
    · cases hs
      exact Or.inl rfl
    · cases hs
      cases halive'
    · exact Or.inr hcloser
  | reader client =>
    have hpc : (w.readers client).holds = true := hholds
    have hthread : client ∈ w.shared.readerThreads := by
      refine hcreated.reader client fun heq => ?_
      rw [heq] at hpc
      cases hpc
    obtain ⟨a, pc, hnext, hcloser⟩ := Server.smoReader_held server env w.shared client hpc
    have hlock := Server.smoReader_holds hnext
    rw [hpc] at hlock
    obtain ⟨s, hs⟩ := Shared.access_possible server (.reader client) w.shared
      (fun heq => absurd heq (Access.ne_lock hlock)) fun socket heq => by
        have hkind := Server.smoReader_access hnext
        rw [heq] at hkind
        exact hkind
    refine ⟨{ w with shared := s, readers := Function.update w.readers client pc },
      by simp [step, halive, hthread, hnext, hs], fun _ => ?_⟩
    rcases hcloser with rfl | hcloser
    · cases hs
      exact Or.inl rfl
    · refine Or.inr ?_
      show (Function.update w.readers client pc client).toUnlock s.room.players < _
      rw [Function.update_self, Shared.access_room hs]
      exact hcloser

end World

/-! ## The process with the log callback -/

/-- The process, and what is left of the `logPrinter` calls in which the threads are. -/
structure LogWorld where
  world : World
  printing : Thread → List Access

inductive LogAction
  | step (action : Action)
  /-- The socket library calls `logPrinter`. -/
  | log (thread : Thread) (text : Bytes)
  /-- One access of `logPrinter`. -/
  | print (thread : Thread)

/-- The text is not the one that makes `logPrinter` lock. -/
def LogAction.Plain : LogAction → Prop
  | .log _ text => ¬ connectionText <:+: text
  | _ => True

namespace LogWorld

def start (w : World) : LogWorld := ⟨w, fun _ => []⟩

def step (server : Server) (l : LogWorld) : LogAction → Option LogWorld
  | .step action =>
    if (l.printing action.thread).isEmpty then
      (World.step server l.world action).map fun w => { l with world := w }
    else none
  | .log thread text =>
    if l.world.shared.fate = .alive ∧ l.world.calls thread ∧ (l.printing thread).isEmpty then
      some { l with printing := Function.update l.printing thread (logPrinter text) }
    else none
  | .print thread =>
    match l.printing thread with
    | [] => none
    | a :: rest =>
      if l.world.shared.fate = .alive then
        (l.world.shared.access server thread a).map fun s =>
          ⟨{ l.world with shared := s }, Function.update l.printing thread rest⟩
      else none

/-- The next access of a thread, in `logPrinter` if it is there. -/
def next (server : Server) (env : Env) (l : LogWorld) (t : Thread) : Option Access :=
  match l.printing t with
  | [] => l.world.next server env t
  | a :: _ => some a

/-- No thread is stuck at the mutex. -/
structure DeadlockFree (server : Server) (l : LogWorld) : Prop where
  /-- No thread locks the mutex that it owns. -/
  once : ∀ env t, l.next server env t = some .lock → l.world.shared.mutex ≠ some t
  /-- No iteration ends with the mutex. -/
  released : ∀ t, l.world.atHead t = true → l.world.shared.mutex ≠ some t
  waiting : ∀ t, l.world.waits t = true → l.world.shared.mutex ≠ some t
  /-- The owner can go on, and comes to its unlock. -/
  owner : l.world.shared.fate = .alive → ∀ t, l.world.shared.mutex = some t → ∀ env,
    ∃ l', l.step server (.step ⟨t, env⟩) = some l' ∧
      (l'.world.shared.fate = .alive →
        l'.world.shared.mutex = none ∨ l'.world.toUnlock t < l.world.toUnlock t)
  /-- Some thread can go on. -/
  running : l.world.shared.fate = .alive → ∃ t, ∀ env, ∃ l', l.step server (.step ⟨t, env⟩) = some l'

/-- Nobody is in `logPrinter` outside the listener's own steps, and the process is as it
is without the callback. -/
structure Plain (l : LogWorld) : Prop where
  printing : ∀ t, l.printing t = []
  locked : l.world.Locked
  created : l.world.Created

section

variable {server : Server} {l l' : LogWorld}

theorem step_plain {action : LogAction} (hplain : action.Plain)
    (h : step server l action = some l') (hl : Plain l) : Plain l' := by
  cases action with
  | step action =>
    rw [step, hl.printing] at h
    obtain ⟨w, hstep, rfl⟩ := Option.map_eq_some_iff.mp h
    exact ⟨hl.printing, World.step_locked hstep hl.locked, World.step_created hstep hl.created⟩
  | log thread text =>
    rw [step] at h
    split at h
    case isFalse => cases h
    case isTrue =>
      cases h
      refine ⟨fun t => ?_, hl.locked, hl.created⟩
      show Function.update l.printing thread (logPrinter text) t = []
      rw [logPrinter_of_other hplain]
      by_cases ht : t = thread
      · rw [ht, Function.update_self]
      · rw [Function.update_of_ne ht, hl.printing]
  | print thread =>
    rw [step, hl.printing] at h
    cases h

theorem next_of_plain (hl : Plain l) (env : Env) (t : Thread) :
    l.next server env t = l.world.next server env t := by
  rw [next, hl.printing]

theorem step_of_plain (hl : Plain l) {action : Action} {w : World}
    (h : World.step server l.world action = some w) :
    l.step server (.step action) = some { l with world := w } := by
  rw [step, hl.printing, h]
  rfl

/-- Who locks next is not between its lock and its unlock. -/
theorem not_holds_of_next_lock {w : World} {env : Env} {t : Thread}
    (h : w.next server env t = some .lock) : w.holds t = false := by
  cases t with
  | main =>
    have hlock := server.start_holds env w.shared w.main
    rw [Option.some.inj h] at hlock
    exact Access.not_held_of_lock hlock
  | listener =>
    obtain ⟨⟨a, pc⟩, hnext, rfl⟩ := Option.map_eq_some_iff.mp h
    exact Access.not_held_of_lock (Server.smoListener_holds hnext)
  | reader client =>
    obtain ⟨⟨a, pc⟩, hnext, rfl⟩ := Option.map_eq_some_iff.mp h
    exact Access.not_held_of_lock (Server.smoReader_holds hnext)

theorem not_holds_of_atHead {w : World} {t : Thread} (h : w.atHead t = true) :
    w.holds t = false := by
  cases t with
  | main => exact MainPc.not_holds_of_atHead h
  | listener => exact ListenerPc.not_holds_of_atHead h
  | reader client => exact ReaderPc.not_holds_of_atHead h

theorem not_holds_of_waits {w : World} {t : Thread} (h : w.waits t = true) :
    w.holds t = false := by
  cases t with
  | main => cases h
  | listener => exact ListenerPc.not_holds_of_waits h
  | reader client => exact ReaderPc.not_holds_of_waits h

theorem not_owner {w : World} (hlocked : w.Locked) {t : Thread} (h : w.holds t = false) :
    w.shared.mutex ≠ some t := by
  intro howner
  rw [(hlocked t).mp howner] at h
  cases h

theorem deadlockFree_of_plain (hl : Plain l) : DeadlockFree server l := by
  refine ⟨fun env t h => ?_, fun t h => ?_, fun t h => ?_, fun halive t howner env => ?_,
    fun halive => ?_⟩
  · rw [next_of_plain hl] at h
    exact not_owner hl.locked (not_holds_of_next_lock h)
  · exact not_owner hl.locked (not_holds_of_atHead h)
  · exact not_owner hl.locked (not_holds_of_waits h)
  · obtain ⟨w, hstep, hcloser⟩ := World.owner_step server halive hl.locked hl.created howner env
    exact ⟨_, step_of_plain hl hstep, hcloser⟩
  · cases howner : l.world.shared.mutex with
    | some t =>
      refine ⟨t, fun env => ?_⟩
      obtain ⟨w, hstep, -⟩ := World.owner_step server halive hl.locked hl.created howner env
      exact ⟨_, step_of_plain hl hstep⟩
    | none =>
      refine ⟨.main, fun env => ?_⟩
      obtain ⟨s, -, hstep⟩ := World.main_step server halive env fun _ => howner
      exact ⟨_, step_of_plain hl hstep⟩

/-- Called back with the phrase by the thread that owns the mutex, `logPrinter` would
never return. -/
theorem stuck_of_contains {t : Thread} {text : Bytes} (hcontains : connectionText <:+: text)
    (hprinting : l.printing t = logPrinter text) (howner : l.world.shared.mutex = some t) :
    l.step server (.print t) = none ∧ ∀ env, l.step server (.step ⟨t, env⟩) = none := by
  rw [logPrinter, if_pos hcontains] at hprinting
  have hlock : l.world.shared.access server t .lock = none := by
    rw [Shared.access, howner]
    exact if_neg (Option.some_ne_none t)
  constructor
  · rw [step, hprinting]
    show (if l.world.shared.fate = .alive then _ else none) = none
    rw [hlock]
    exact ite_self none
  · intro env
    show (if (l.printing t).isEmpty then _ else none) = none
    rw [hprinting]
    rfl

end

/-- However the threads and the log calls are interleaved, and whatever the calls of the
socket library return, nobody is stuck at the mutex. -/
theorem no_deadlock (server : Server) (w : World) (hboot : w.Boot) (actions : List LogAction)
    (hplain : ∀ action ∈ actions, action.Plain) (l : LogWorld)
    (hrun : Transition.run (step server) (start w) actions = some l) : DeadlockFree server l := by
  refine deadlockFree_of_plain (Transition.run_invariant_of_meets
    (C := fun _ action => action.Plain) (fun _ _ _ hplain h hl => step_plain hplain h hl) hrun
    (Transition.meets_of_forall (fun action hmem _ => hplain action hmem) _) ?_)
  exact ⟨fun _ => rfl, World.boot_locked hboot, World.boot_created hboot⟩

def sendText : Bytes := ascii "[TCPServer][Error] Socket error in call to send."

theorem sendText_plain (thread : Thread) : (LogAction.log thread sendText).Plain := by
  show ¬ connectionText <:+: sendText
  decide +kernel

/-- The listener answers a hello, and the `Send` under the lock fails and says so. -/
def failedSend : List LogAction :=
  List.map LogAction.step (World.starting ++ World.accepting ++
      [⟨.listener, { World.idle with received := .data helloFrame.chunk }⟩] ++
      World.steps .listener 3) ++
    .log .listener sendText :: List.map LogAction.step (World.steps .listener 1)

theorem failedSend_plain : ∀ action ∈ failedSend, action.Plain := by
  intro action hmem
  rcases List.mem_append.mp hmem with hmem | hmem
  · obtain ⟨_, -, rfl⟩ := List.mem_map.mp hmem
    trivial
  · rcases List.mem_cons.mp hmem with rfl | hmem
    · exact sendText_plain .listener
    · obtain ⟨_, -, rfl⟩ := List.mem_map.mp hmem
      trivial

theorem no_deadlock_failedSend :
    ∃ l, Transition.run (step ⟨128, 128, []⟩) (start World.emptyStart) failedSend = some l ∧
      l.world.shared.mutex = some .listener ∧ DeadlockFree ⟨128, 128, []⟩ l := by
  have hend : (Transition.run (step ⟨128, 128, []⟩) (start World.emptyStart) failedSend).any
      (fun l => decide (l.world.shared.mutex = some .listener)) = true := by
    decide +kernel
  obtain ⟨l, hrun, howner⟩ := (Option.any_eq_true _ _).mp hend
  exact ⟨l, hrun, of_decide_eq_true howner, no_deadlock ⟨128, 128, []⟩ World.emptyStart
    (World.initial_boot _ _ _) failedSend failedSend_plain l hrun⟩

end LogWorld
end WhiteSmo
