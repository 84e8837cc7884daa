import WhiteSmo.Threads.World

/-!
# The accept loop

`Start` creates the thread of the listener and sets `_running` behind that.  The
constructor leaves the flag as it is.  Nothing sets it to false: the loop around
`Update` has no end.
-/

namespace WhiteSmo

/-- `Start` has not set `_running` yet. -/
def MainPc.starting : MainPc → Bool
  | .create | .spawn | .setRunning => true
  | _ => false

namespace World

/-- The listener tests `_running` before `Start` has set it. -/
def TestsEarly (w : World) (action : Action) : Prop :=
  action.thread = .listener ∧ w.listener = .test ∧ w.main.starting = true

instance (w : World) (action : Action) : Decidable (TestsEarly w action) :=
  inferInstanceAs (Decidable (_ ∧ _ ∧ _))

/-- The flag has its first value until `Start` sets it. -/
def Flagged (running : Bool) (w : World) : Prop :=
  w.shared.running = (running || !w.main.starting)

section

variable {server : Server} {env : Env} {t : Thread} {s s' : Shared} {a : Access}

theorem access_running (h : s.access server t a = some s') (hset : a ≠ .setRunning) :
    s'.running = s.running := by
  cases a with
  | lock =>
    obtain ⟨-, rfl⟩ := Shared.access_lock_iff.mp h
    rfl
  | accept socket =>
    obtain ⟨-, rfl⟩ := Shared.access_accept_iff.mp h
    rfl
  | setRunning => exact absurd rfl hset
  | _ => cases h; rfl

theorem start_flagged {running : Bool} {pc pc' : MainPc} (h : server.start env s pc = (a, pc'))
    (haccess : s.access server .main a = some s') (hs : s.running = (running || !pc.starting)) :
    s'.running = (running || !pc'.starting) := by
  cases Server.startStep_of_start h with
  | setRunning =>
    cases haccess
    simp [MainPc.starting]
  | _ => exact (access_running haccess fun heq => by cases heq).trans hs

theorem smoListener_running {pc pc' : ListenerPc}
    (h : Server.smoListener env s pc = some (a, pc')) : a ≠ .setRunning := by
  intro heq
  cases Server.listenerStep_of_smoListener h <;> cases heq

/-- The listener leaves its loop where the test fails. -/
theorem smoListener_finished_iff {pc pc' : ListenerPc}
    (h : Server.smoListener env s pc = some (a, pc')) :
    pc' = .finished ↔ pc = .test ∧ s.running = false := by
  cases Server.listenerStep_of_smoListener h with
  | running hrunning | stopped hrunning => simp [hrunning]
  | _ => simp

end

section

variable {server : Server} {running : Bool} {w w' : World} {action : Action}

theorem step_flagged (h : step server w action = some w') (hw : Flagged running w) :
    Flagged running w' := by
  cases (stepBy_of_step h).2 with
  | main hstart haccess => exact start_flagged hstart haccess hw
  | listener _ hlistener haccess =>
    exact (access_running haccess (smoListener_running hlistener)).trans hw
  | reader _ hreader haccess =>
    refine (access_running haccess fun heq => ?_).trans hw
    have hkind := Server.smoReader_access hreader
    rw [heq] at hkind
    exact hkind

theorem step_finished (h : step server w action = some w') (hw : w.listener = .finished) :
    w'.listener = .finished := by
  cases (stepBy_of_step h).2 with
  | main _ _ => exact hw
  | listener _ hlistener _ =>
    rw [hw] at hlistener
    cases hlistener
  | reader _ _ _ => exact hw

/-- The listener leaves exactly by an early test of a flag that was false at first. -/
theorem step_finished_iff (h : step server w action = some w') (hw : Flagged running w)
    (hloop : w.listener ≠ .finished) :
    w'.listener = .finished ↔ running = false ∧ TestsEarly w action := by
  cases (stepBy_of_step h).2 with
  | main _ _ => exact iff_of_false hloop fun hearly => by cases hearly.2.1
  | listener _ hlistener _ =>
    have hflag : w.shared.running = false ↔ running = false ∧ w.main.starting = true := by
      rw [show w.shared.running = (running || !w.main.starting) from hw]
      simp
    refine (smoListener_finished_iff hlistener).trans ?_
    rw [hflag, TestsEarly]
    exact ⟨fun h => ⟨h.2.1, rfl, h.1, h.2.2⟩, fun h => ⟨h.2.2.1, h.1, h.2.2.2⟩⟩
  | reader _ _ _ => exact iff_of_false hloop fun hearly => by cases hearly.2.1

end

/-- In every run the listener is in its accept loop exactly when `_running` was true
from the start, or no test of the listener came before `Start` had set it. -/
theorem listener_in_loop_iff (server : Server) (w w' : World) (actions : List Action)
    (hboot : Boot w) (hrun : run server w actions = some w') :
    w'.listener ≠ .finished ↔
      w.shared.running = true ∨
        Transition.Meets (step server) (fun w action => ¬ TestsEarly w action) w actions := by
  have hloop : w.listener ≠ .finished := by
    rw [hboot.listener]
    exact fun heq => by cases heq
  have hflagged : Flagged w.shared.running w := by
    rw [Flagged, hboot.main]
    simp [MainPc.starting]
  cases hrunning : w.shared.running with
  | true =>
    rw [hrunning] at hflagged
    refine iff_of_true ?_ (Or.inl rfl)
    refine (Transition.run_invariant (I := fun w => Flagged true w ∧ w.listener ≠ .finished)
      (fun w action w' hstep hw => ?_) hrun ⟨hflagged, hloop⟩).2
    refine ⟨step_flagged hstep hw.1, fun hfinished => ?_⟩
    cases ((step_finished_iff hstep hw.1 hw.2).mp hfinished).1
  | false =>
    rw [hrunning] at hflagged
    rw [or_iff_right Bool.false_ne_true]
    refine Transition.run_avoids_iff_meets (D := fun _ _ => True)
      (fun _ _ _ hstep => step_flagged hstep) (fun _ _ _ _ hstep _ => step_finished hstep)
      (fun w action w' _ hstep hw hnot => ?_) hrun
      (Transition.meets_of_forall (fun _ _ _ => trivial) w) hflagged hloop
    rw [step_finished_iff hstep hw hnot, not_not]
    exact and_iff_right rfl

/-- The listener tests behind `Start`. -/
theorem listener_in_loop_iff_accepting :
    ∃ w, run ⟨128, 128, []⟩ emptyStart (starting ++ accepting) = some w ∧
      (w.listener ≠ .finished ↔ emptyStart.shared.running = true ∨
        Transition.Meets (step ⟨128, 128, []⟩) (fun w action => ¬ TestsEarly w action) emptyStart
          (starting ++ accepting)) := by
  refine ⟨_, rfl, ?_⟩
  exact listener_in_loop_iff ⟨128, 128, []⟩ emptyStart _ (starting ++ accepting)
    (initial_boot _ _ _) rfl

/-- The new thread tests the flag before `Start` sets it. -/
def earlyTest : List Action := steps .main 2 ++ steps .listener 1 ++ steps .main 1

theorem early_test_ends_listener :
    Boot emptyStart ∧ ∃ w, run ⟨128, 128, []⟩ emptyStart earlyTest = some w ∧
      w.shared.running = true ∧ w.listener = .finished := by
  refine ⟨initial_boot _ _ _, ?_⟩
  exact ⟨_, rfl, rfl, rfl⟩

end World
end WhiteSmo
