import WhiteSmo.Threads.World

/-!
# The recorded address

`logPrinter` leaves the address of a new peer in `currentIP`, and the hello section
takes it from there.  In between `Update` writes back the address that it was
called with, which `Start` has read at some earlier time.
-/

namespace WhiteSmo

/-- The address extracted for the connection that the listener is about to greet. -/
def ListenerPc.extracted : ListenerPc → Option Bytes
  | .logUnlock _ ip | .receive _ ip | .command _ ip _ | .wait _ ip _ | .helloLock _ ip _
  | .hello _ ip _ => some ip
  | _ => none

/-- The address that `Update` is about to write. -/
def MainPc.writesBack : MainPc → Option Bytes
  | .entered ip _ => some ip
  | _ => none

namespace World

/-- The property of a run: the address given to `SetIP` is the extracted one. -/
def OwnAddresses (log : List Event) : Prop :=
  ∀ client extracted recorded, .setIP client extracted recorded ∈ log → recorded = extracted

/-- The step is no write-back of a stale address: if `Update` writes its argument while
a connection waits for its hello section, then it writes what is there. -/
def KeepsAddress (w : World) (action : Action) : Prop :=
  action.thread = .main → w.listener.extracted ≠ none →
    ∀ ip ∈ w.main.writesBack, ip = w.shared.currentIP

instance (w : World) (action : Action) : Decidable (KeepsAddress w action) :=
  inferInstanceAs (Decidable (_ → _ → ∀ ip ∈ w.main.writesBack, ip = w.shared.currentIP))

/-- `currentIP` is the address of the connection that the listener is about to greet. -/
structure Addressed (w : World) : Prop where
  current : ∀ ip, w.listener.extracted = some ip → w.shared.currentIP = ip
  own : OwnAddresses w.shared.log

theorem OwnAddresses.append {log : List Event} {event : Event} (h : OwnAddresses log)
    (hevent : ∀ client extracted recorded, event = .setIP client extracted recorded →
      recorded = extracted) : OwnAddresses (log ++ [event]) := by
  intro client extracted recorded hmem
  rcases List.mem_append.mp hmem with hmem | hmem
  · exact h client extracted recorded hmem
  · exact hevent client extracted recorded (List.mem_singleton.mp hmem).symm

theorem OwnAddresses.apply {s : State} (h : OwnAddresses s.log) (client : ClientId)
    (effect : Effect) : OwnAddresses (s.apply client effect).log := by
  cases effect with
  | send socket out => exact h.append fun _ _ _ heq => by cases heq
  | disconnect socket => exact h.append fun _ _ _ heq => by cases heq
  | _ => exact h

section

variable {server : Server} {t : Thread} {s s' : Shared} {a : Access}

theorem access_currentIP (h : s.access server t a = some s')
    (hmanager : ∀ ip connecting, a ≠ .manager ip connecting) (hlogged : ∀ ip, a ≠ .logged ip) :
    s'.currentIP = s.currentIP := by
  cases a with
  | lock =>
    obtain ⟨-, rfl⟩ := Shared.access_lock_iff.mp h
    rfl
  | accept socket =>
    obtain ⟨-, rfl⟩ := Shared.access_accept_iff.mp h
    rfl
  | manager ip connecting => exact absurd rfl (hmanager ip connecting)
  | logged ip => exact absurd rfl (hlogged ip)
  | _ => cases h; rfl

/-- `SetIP` is called in the hello section, with the address that is there. -/
theorem access_own (h : s.access server t a = some s') (hs : OwnAddresses s.log)
    (hanswer : ∀ env socket ip, a = .answer env socket ip → s.currentIP = ip) :
    OwnAddresses s'.log := by
  cases a with
  | lock =>
    obtain ⟨-, rfl⟩ := Shared.access_lock_iff.mp h
    exact hs
  | accept socket =>
    obtain ⟨-, rfl⟩ := Shared.access_accept_iff.mp h
    exact hs.append fun _ _ _ heq => by cases heq
  | write client effect =>
    cases h
    exact hs.apply client effect
  | handled client input =>
    cases h
    exact hs.append fun _ _ _ heq => by cases heq
  | writeBack clients client =>
    cases h
    show OwnAddresses (Server.writeBack clients s.toState client).log
    unfold Server.writeBack
    split <;> exact hs
  | close socket =>
    cases h
    exact hs.append fun _ _ _ heq => by cases heq
  | push client input =>
    cases h
    exact hs.append fun _ _ _ heq => by cases heq
  | answer env socket ip =>
    have hip := hanswer env socket ip rfl
    cases h
    intro client extracted recorded hmem
    rcases List.mem_append.mp hmem with hmem | hmem
    · exact hs client extracted recorded hmem
    · simp only [List.mem_cons, reduceCtorEq, List.not_mem_nil, or_false, false_or,
        Event.setIP.injEq] at hmem
      rw [hmem.2.1, hmem.2.2, hip]
  | _ => cases h; exact hs

end

/-- The listener leaves the address in place from `logPrinter` to the hello section. -/
theorem smoListener_addressed {server : Server} {env : Env} {s s' : Shared} {pc pc' : ListenerPc}
    {a : Access} (h : Server.smoListener env s pc = some (a, pc'))
    (haccess : s.access server .listener a = some s')
    (hs : ∀ ip, pc.extracted = some ip → s.currentIP = ip) :
    (∀ ip, pc'.extracted = some ip → s'.currentIP = ip) ∧
      ∀ env socket ip, a = .answer env socket ip → s.currentIP = ip := by
  cases Server.listenerStep_of_smoListener h with
  | logged htext =>
    cases haccess
    simp [ListenerPc.extracted]
  | helloLock =>
    obtain ⟨-, rfl⟩ := Shared.access_lock_iff.mp haccess
    exact ⟨hs, fun _ _ _ heq => by cases heq⟩
  | answer hname =>
    refine ⟨by simp [ListenerPc.extracted], fun _ _ _ heq => ?_⟩
    cases heq
    exact hs _ rfl
  | logUnlock | receive | hello hcommand | waited hconnecting | wait hconnecting
  | helloThrow hname =>
    cases haccess
    exact ⟨hs, fun _ _ _ heq => by cases heq⟩
  | _ => simp [ListenerPc.extracted]

theorem step_addressed {server : Server} {w w' : World} {action : Action}
    (hkeeps : KeepsAddress w action) (h : step server w action = some w') (hw : Addressed w) :
    Addressed w' := by
  cases (stepBy_of_step h).2 with
  | @main env a pc s hstart haccess =>
    have hkind := server.start_access env w.shared w.main
    rw [hstart] at hkind
    constructor
    · intro ip hip
      by_cases hmanager : ∃ ip' connecting, a = .manager ip' connecting
      · obtain ⟨ip', connecting, rfl⟩ := hmanager
        have hip : w.listener.extracted = some ip := hip
        have hmain : w.main = .entered ip' connecting := hkind
        have hnone : w.listener.extracted ≠ none := by
          rw [hip]
          exact Option.some_ne_none ip
        have hkept : ip' = w.shared.currentIP := hkeeps rfl hnone ip' (by rw [hmain]; rfl)
        cases haccess
        exact hkept.trans (hw.current ip hip)
      · refine (access_currentIP haccess (fun ip' connecting heq => hmanager ⟨ip', connecting, heq⟩)
          fun ip' heq => ?_).trans (hw.current ip hip)
        subst heq
        exact hkind
    · refine access_own haccess hw.own fun env socket ip heq => ?_
      subst heq
      exact hkind.elim
  | listener _ hlistener haccess =>
    obtain ⟨hcurrent, hanswer⟩ := smoListener_addressed hlistener haccess hw.current
    exact ⟨hcurrent, access_own haccess hw.own hanswer⟩
  | reader _ hreader haccess =>
    have hkind := Server.smoReader_access hreader
    constructor
    · intro ip hip
      refine (access_currentIP haccess (fun ip' connecting heq => ?_)
        fun ip' heq => ?_).trans (hw.current ip hip)
      · subst heq
        exact hkind
      · subst heq
        exact hkind
    · refine access_own haccess hw.own fun env socket ip heq => ?_
      subst heq
      exact hkind.elim

/-- In every run in which no stale address is written back between `logPrinter` and
the hello section, each client gets the address extracted for its own connection. -/
theorem recorded_address_own (server : Server) (w w' : World) (actions : List Action)
    (hboot : Boot w) (hrun : run server w actions = some w')
    (hmeets : Transition.Meets (step server) KeepsAddress w actions) :
    OwnAddresses w'.shared.log := by
  have hstart : Addressed w := by
    refine ⟨fun ip hip => ?_, fun client extracted recorded hmem => ?_⟩
    · rw [hboot.listener] at hip
      cases hip
    · rw [hboot.log] at hmem
      exact absurd hmem List.not_mem_nil
  exact (Transition.run_invariant_of_meets (fun _ _ _ hkeeps hstep => step_addressed hkeeps hstep)
    hrun hmeets hstart).own

/-- `Update` reads the address and writes it back between the connection and its hello
section. -/
def freshWriteBack : List Action :=
  starting ++ accepting ++ steps .main 5 ++ greeting

theorem recorded_address_own_freshWriteBack :
    ∃ w, run ⟨128, 128, []⟩ emptyStart freshWriteBack = some w ∧
      .setIP 0 (ascii "10.0.0.1") (ascii "10.0.0.1") ∈ w.shared.log ∧
      OwnAddresses w.shared.log := by
  have hlog : (run ⟨128, 128, []⟩ emptyStart freshWriteBack).any
      (fun w => decide (.setIP 0 (ascii "10.0.0.1") (ascii "10.0.0.1") ∈ w.shared.log)) = true := by
    decide +kernel
  obtain ⟨w, hrun, hset⟩ := (Option.any_eq_true _ _).mp hlog
  exact ⟨w, hrun, of_decide_eq_true hset, recorded_address_own ⟨128, 128, []⟩ emptyStart w
    freshWriteBack (initial_boot _ _ _) hrun (by decide +kernel)⟩

/-- `Update` reads the address before the connection and writes it back before the
hello section. -/
def staleWriteBack : List Action :=
  starting ++ steps .main 2 ++ accepting ++ steps .main 3 ++ greeting

theorem stale_address_recorded :
    Boot emptyStart ∧ ∃ w, run ⟨128, 128, []⟩ emptyStart staleWriteBack = some w ∧
      ¬ OwnAddresses w.shared.log := by
  refine ⟨initial_boot _ _ _, ?_⟩
  have hlog : (run ⟨128, 128, []⟩ emptyStart staleWriteBack).any
      (fun w => decide (.setIP 0 (ascii "10.0.0.1") [] ∈ w.shared.log)) = true := by
    decide +kernel
  obtain ⟨w, hrun, hset⟩ := (Option.any_eq_true _ _).mp hlog
  refine ⟨w, hrun, fun hown => ?_⟩
  have heq := hown 0 (ascii "10.0.0.1") [] (of_decide_eq_true hset)
  exact absurd heq (by decide +kernel)

end World
end WhiteSmo
