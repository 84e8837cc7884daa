import WhiteSmo.Threads.World

/-!
# Room membership

The listener creates a client and its reader, and nobody puts it into the room.
A reader looks its client up among the players before every receive and goes on
looking while it is not there.  Membership therefore fails from the first answered
hello on, and holds until then.
-/

namespace WhiteSmo

/-- The start of the process with the room as the constructor leaves it. -/
structure World.Fresh (w : World) : Prop extends World.Boot w where
  room : w.shared.room.players = []
  noReader : w.shared.readerThreads = []

/-- The players are the clients whose hello was answered and whose reader has not
finished, each once, with its own socket and connected while the socket is open. -/
structure Membership (w : World) : Prop where
  listed : ∀ client, client ∈ w.shared.room.getPlayers ↔
    (∃ socket, .answered client socket ∈ w.shared.log) ∧ w.readers client ≠ .finished
  once : w.shared.room.getPlayers.Nodup
  own : ∀ client socket, .answered client socket ∈ w.shared.log →
    client ∈ w.shared.room.getPlayers → (w.shared.heap client).socket = socket ∧
      (w.shared.opened socket = true → (w.shared.heap client).connected = true)

/-- A reader whose search has not found its client. -/
def ReaderPc.Searching : ReaderPc → Prop
  | .searchLock | .search | .searchUnlock none => True
  | _ => False

/-- The room is empty and every reader is looking for its client. -/
structure World.Unlisted (w : World) : Prop where
  room : w.shared.room.players = []
  searching : ∀ client, (w.readers client).Searching

namespace World

theorem smoReader_searching {server : Server} {env : Env} {client : ClientId} {s : Shared}
    {pc pc' : ReaderPc} {a : Access} (h : server.smoReader env client s pc = some (a, pc'))
    (hroom : s.room.players = []) (hpc : pc.Searching) : pc'.Searching := by
  cases Server.readerStep_of_smoReader h with
  | searchLock => trivial
  | search =>
    rw [Room.getPlayers, hroom]
    trivial
  | missing => trivial
  | _ => exact absurd hpc id

theorem step_unlisted {server : Server} {w w' : World} {action : Action}
    (h : step server w action = some w') (hw : Unlisted w) : Unlisted w' := by
  refine ⟨(step_room h).symm ▸ hw.room, ?_⟩
  cases (stepBy_of_step h).2 with
  | main _ _ => exact hw.searching
  | listener _ _ _ => exact hw.searching
  | @reader _ client _ _ _ _ hreader _ =>
    intro c
    by_cases hc : c = client
    · subst hc
      simpa using smoReader_searching hreader hw.room (hw.searching c)
    · simpa [hc] using hw.searching c

theorem run_unlisted {server : Server} {w w' : World} {actions : List Action} (hboot : Fresh w)
    (hrun : run server w actions = some w') : Unlisted w' := by
  refine Transition.run_invariant (fun _ _ _ h => step_unlisted h) hrun ⟨hboot.room, fun c => ?_⟩
  rw [hboot.readers]
  trivial

theorem not_membership_of_answered {w : World} (hw : Unlisted w) {client : ClientId}
    {socket : Socket} (hanswered : .answered client socket ∈ w.shared.log) : ¬ Membership w := by
  intro hmember
  have hreader : w.readers client ≠ .finished := by
    intro hfinished
    have hsearching := hw.searching client
    rw [hfinished] at hsearching
    exact hsearching
  have hlisted := (hmember.listed client).mpr ⟨⟨socket, hanswered⟩, hreader⟩
  rw [Room.getPlayers, hw.room] at hlisted
  exact List.not_mem_nil hlisted

/-- In every reachable state the players are the clients that are connected exactly
when no hello has been answered. -/
theorem membership_iff (server : Server) (w w' : World) (actions : List Action)
    (hfresh : Fresh w) (hrun : run server w actions = some w') :
    Membership w' ↔ ∀ client socket, .answered client socket ∉ w'.shared.log := by
  have hunlisted := run_unlisted hfresh hrun
  constructor
  · intro hmember client socket hanswered
    exact not_membership_of_answered hunlisted hanswered hmember
  · intro hnone
    refine ⟨fun client => ?_, ?_, fun client socket hanswered =>
      absurd hanswered (hnone client socket)⟩
    · rw [Room.getPlayers, hunlisted.room]
      constructor
      · intro hlisted
        exact absurd hlisted List.not_mem_nil
      · intro hanswered
        obtain ⟨⟨socket, hmem⟩, -⟩ := hanswered
        exact absurd hmem (hnone client socket)
    · rw [Room.getPlayers, hunlisted.room]
      exact List.nodup_nil

theorem emptyStart_fresh : Fresh emptyStart := ⟨initial_boot _ _ _, rfl, rfl⟩

theorem membership_iff_starting :
    ∃ w, run ⟨128, 128, []⟩ emptyStart starting = some w ∧
      (Membership w ↔ ∀ client socket, .answered client socket ∉ w.shared.log) := by
  refine ⟨_, rfl, ?_⟩
  exact membership_iff ⟨128, 128, []⟩ emptyStart _ starting emptyStart_fresh rfl

/-- The client of an answered hello is not in the room. -/
theorem greeted_client_not_member :
    Fresh emptyStart ∧ ∃ w, run ⟨128, 128, []⟩ emptyStart (starting ++ accepting ++ greeting) = some w ∧
      ¬ Membership w := by
  refine ⟨emptyStart_fresh, ?_⟩
  have hlog : (run ⟨128, 128, []⟩ emptyStart (starting ++ accepting ++ greeting)).any
      (fun w => decide (.answered 0 5 ∈ w.shared.log)) = true := by
    decide +kernel
  obtain ⟨w, hrun, hanswered⟩ := (Option.any_eq_true _ _).mp hlog
  exact ⟨w, hrun, not_membership_of_answered (run_unlisted emptyStart_fresh hrun)
    (of_decide_eq_true hanswered)⟩

end World
end WhiteSmo
