import WhiteSmo.Threads.Address

/-!
# The hello wait

`SMOListener` waits for `connecting` before it greets.  `logPrinter` sets the flag
while `Listen` still runs, `Update` writes its argument to it only while it is
false, and the hello section clears it.  A stale argument can therefore raise the
flag and cannot lower it.
-/

namespace WhiteSmo

/-- The hello section, the one place that clears the flag. -/
def ListenerPc.greets : ListenerPc → Bool
  | .hello _ _ _ => true
  | _ => false

namespace World

def Clears (w : World) (action : Action) : Prop :=
  action.thread = .listener ∧ w.listener.greets = true

instance (w : World) (action : Action) : Decidable (Clears w action) :=
  inferInstanceAs (Decidable (_ ∧ _))

/-- The flag is set while a connection waits for its hello section. -/
def Expected (w : World) : Prop := w.listener.extracted ≠ none → w.shared.connecting = true

section

variable {server : Server} {env : Env} {t : Thread} {s s' : Shared} {a : Access}

theorem access_connecting (h : s.access server t a = some s')
    (hanswer : ∀ env socket ip, a ≠ .answer env socket ip) (hs : s.connecting = true) :
    s'.connecting = true := by
  cases a with
  | lock =>
    obtain ⟨-, rfl⟩ := Shared.access_lock_iff.mp h
    exact hs
  | accept socket =>
    obtain ⟨-, rfl⟩ := Shared.access_accept_iff.mp h
    exact hs
  | manager ip connecting =>
    cases h
    simp [hs]
  | logged ip =>
    cases h
    rfl
  | answer env socket ip => exact absurd rfl (hanswer env socket ip)
  | _ => cases h; exact hs

theorem smoListener_connecting {pc pc' : ListenerPc}
    (h : Server.smoListener env s pc = some (a, pc')) (hgreets : pc.greets = false) :
    ∀ env socket ip, a ≠ .answer env socket ip := by
  intro env' socket ip heq
  cases Server.listenerStep_of_smoListener h with
  | answer hname => cases hgreets
  | _ => cases heq

/-- Behind `logPrinter` the flag is set, and it stays so up to the hello section. -/
theorem smoListener_expected {pc pc' : ListenerPc}
    (h : Server.smoListener env s pc = some (a, pc')) (haccess : s.access server .listener a = some s')
    (hs : pc.extracted ≠ none → s.connecting = true) :
    pc'.extracted ≠ none → s'.connecting = true := by
  intro hpc
  cases Server.listenerStep_of_smoListener h with
  | logged htext =>
    cases haccess
    rfl
  | other _ | answer _ => exact absurd rfl hpc
  | _ => exact access_connecting haccess (fun _ _ _ heq => by cases heq) (hs hpc)

end

section

variable {server : Server} {w w' : World} {action : Action}

/-- Nothing but the hello section clears the flag. -/
theorem step_connecting (h : step server w action = some w') (hclears : ¬ Clears w action)
    (hw : w.shared.connecting = true) : w'.shared.connecting = true := by
  cases (stepBy_of_step h).2 with
  | @main env a pc s hstart haccess =>
    refine access_connecting haccess (fun env' socket ip heq => ?_) hw
    have hkind := server.start_access env w.shared w.main
    rw [hstart, heq] at hkind
    exact hkind
  | listener _ hlistener haccess =>
    refine access_connecting haccess (smoListener_connecting hlistener ?_) hw
    cases hgreets : w.listener.greets with
    | false => rfl
    | true => exact absurd ⟨rfl, hgreets⟩ hclears
  | reader _ hreader haccess =>
    refine access_connecting haccess (fun env socket ip heq => ?_) hw
    have hkind := Server.smoReader_access hreader
    rw [heq] at hkind
    exact hkind

theorem step_expected (h : step server w action = some w') (hw : Expected w) : Expected w' := by
  cases (stepBy_of_step h).2 with
  | main _ _ =>
    exact fun hpc => step_connecting h (fun hclears => by cases hclears.1) (hw hpc)
  | listener _ hlistener haccess => exact smoListener_expected hlistener haccess hw
  | reader _ _ _ =>
    exact fun hpc => step_connecting h (fun hclears => by cases hclears.1) (hw hpc)

theorem run_expected {actions : List Action} (hboot : Boot w)
    (hrun : run server w actions = some w') : Expected w' := by
  refine Transition.run_invariant (fun _ _ _ h => step_expected h) hrun fun hpc => ?_
  rw [hboot.listener] at hpc
  exact absurd rfl hpc

end

/-- Whenever the listener has come to its wait, in whatever order the threads have run
and whatever the flag was at the start, the flag is set: its next step leaves the wait,
and however the run goes on, the flag is set until the listener's own hello section. -/
theorem hello_wait_passes (server : Server) (w w' : World) (actions : List Action)
    (socket : Socket) (ip : Bytes) (input : Packet) (hboot : Boot w)
    (hrun : run server w actions = some w') (hwait : w'.listener = .wait socket ip input) :
    w'.shared.connecting = true ∧
      (∀ env, Server.smoListener env w'.shared w'.listener =
        some (.silent, .helloLock socket ip input)) ∧
      ∀ later w'', run server w' later = some w'' →
        Transition.Meets (step server) (fun w action => ¬ Clears w action) w' later →
        w''.shared.connecting = true := by
  have hset : w'.shared.connecting = true := by
    refine run_expected hboot hrun ?_
    rw [hwait]
    exact Option.some_ne_none ip
  refine ⟨hset, fun env => ?_, fun later w'' hlater hmeets => ?_⟩
  · rw [hwait, Server.smoListener, if_pos hset]
  · exact Transition.run_invariant_of_meets (I := fun w => w.shared.connecting = true)
      (fun _ _ _ hclears hstep hw => step_connecting hstep hclears hw) hlater hmeets hset

/-- `Update` reads the flag before the connection and writes it back behind
`logPrinter`, and then the hello arrives. -/
def staleWait : List Action :=
  starting ++ steps .main 2 ++ accepting ++ steps .main 3 ++
    [⟨.listener, { idle with received := .data helloFrame.chunk }⟩] ++ steps .listener 1

theorem hello_wait_passes_staleWait :
    ∃ w, run ⟨128, 128, []⟩ emptyStart staleWait = some w ∧
      ∃ socket ip input, w.listener = .wait socket ip input ∧ w.shared.connecting = true ∧
        (∀ env, Server.smoListener env w.shared w.listener =
          some (.silent, .helloLock socket ip input)) ∧
        ∀ later w', run ⟨128, 128, []⟩ w later = some w' →
          Transition.Meets (step ⟨128, 128, []⟩) (fun w action => ¬ Clears w action) w later →
          w'.shared.connecting = true := by
  have hpc : (run ⟨128, 128, []⟩ emptyStart staleWait).any (fun w => decide (w.listener =
      .wait 5 (ascii "10.0.0.1") (Packet.ofChunk helloFrame.chunk))) = true := by
    decide +kernel
  obtain ⟨w, hrun, hwait⟩ := (Option.any_eq_true _ _).mp hpc
  have hwait := of_decide_eq_true hwait
  exact ⟨w, hrun, 5, ascii "10.0.0.1", Packet.ofChunk helloFrame.chunk, hwait,
    hello_wait_passes ⟨128, 128, []⟩ emptyStart w staleWait 5 (ascii "10.0.0.1")
      (Packet.ofChunk helloFrame.chunk) (initial_boot _ _ _) hrun hwait⟩

end World
end WhiteSmo
