import Mathlib.Data.List.Flatten
import Mathlib.Data.List.Forall2
import WhiteSmo.Server.Reply

/-!
# The bytes on a connection

`CTCPServer::Send` calls `send` of the system until all bytes are taken or a call fails.  It
tells its caller which, and no caller in `Server` looks at it.  The calls have no flags and
nothing ignores `SIGPIPE`, so a call on a connection that the peer has reset ends the process.

How the system cuts the bytes does not show: what the peer gets is the stream of the calls
exactly when every `Send` has succeeded, and a beginning of it when the connection stays
broken once it is.
-/

namespace WhiteSmo
namespace Transport

/-- What a call of `send` does: it takes as many bytes if it is given so many, fails, or
raises `SIGPIPE`, which ends the process. -/
inductive Outcome
  | took (limit : Nat)
  | failed
  | killed
  deriving DecidableEq

/-- What a `Send` leaves: its result, the bytes that the connection has taken of it, and the
calls of the system that are still to come.  There is no result when the process has ended. -/
structure Sent where
  result : Option Bool
  taken : Bytes
  outcomes : List Outcome

/-- The loop of `Send`, `none` while the calls that are given do not end it. -/
def sendLoop (pData : Bytes) : Nat → Bytes → List Outcome → Option Sent
  | _, _, [] => none
  | _, taken, .killed :: outcomes => some ⟨none, taken, outcomes⟩
  | _, taken, .failed :: outcomes => some ⟨some false, taken, outcomes⟩
  | total, taken, .took limit :: outcomes =>
    -- `send(ClientSocket, pData + total, uSize - total, flags)`
    let sent := (pData.drop total).take limit
    let total := total + sent.length
    if total < pData.length then sendLoop pData total (taken ++ sent) outcomes
    else some ⟨some true, taken ++ sent, outcomes⟩

/-- `CTCPServer::Send` -/
def send (clientSocket : Socket) (pData : Bytes) (outcomes : List Outcome) : Option Sent :=
  if clientSocket < 0 ∨ pData = [] then some ⟨some false, [], outcomes⟩
  else sendLoop pData 0 [] outcomes

/-- `header + out` -/
def message (out : Bytes) : Bytes := Framing.frame header out

/-- The messages that are sent on one socket, one after another, whatever becomes of them,
until the process ends in one. -/
def sendAll (socket : Socket) : List Bytes → List Outcome → Option (List Sent)
  | [], _ => some []
  | out :: outs, outcomes =>
    (send socket (message out) outcomes).bind fun sent =>
      if sent.result = none then some [sent]
      else (sendAll socket outs sent.outcomes).map (sent :: ·)

/-- What the peer gets. -/
def wire (sents : List Sent) : Bytes := sents.flatMap Sent.taken

/-- What a `Send` of `pData` has done, when it or the process has come to its end. -/
structure Delivers (pData : Bytes) (sent : Sent) : Prop where
  begins : sent.taken <+: pData
  result_iff : sent.result = some true ↔ sent.taken = pData

theorem message_ne_nil (out : Bytes) : message out ≠ [] := by
  intro hnil
  have hlength := congrArg List.length hnil
  rw [message, Framing.frame, List.length_append, header_length] at hlength
  simp at hlength

theorem sendLoop_delivers {pData : Bytes} {total : Nat} {outcomes : List Outcome} {sent : Sent}
    (htotal : total < pData.length)
    (h : sendLoop pData total (pData.take total) outcomes = some sent) : Delivers pData sent := by
  induction outcomes generalizing total with
  | nil => cases h
  | cons outcome outcomes ih =>
    -- what a call leaves that takes nothing
    have hshort : ∀ {result : Option Bool}, result ≠ some true →
        Delivers pData ⟨result, pData.take total, outcomes⟩ := by
      intro result hresult
      refine ⟨List.take_prefix _ _, iff_of_false hresult fun hall => ?_⟩
      have hlength := congrArg List.length hall
      rw [List.length_take, Nat.min_eq_left (Nat.le_of_lt htotal)] at hlength
      exact absurd hlength (Nat.ne_of_lt htotal)
    cases outcome with
    | killed =>
      cases h
      exact hshort fun heq => by cases heq
    | failed =>
      cases h
      exact hshort fun heq => by cases heq
    | took limit =>
      have htaken : pData.take total ++ (pData.drop total).take limit =
          pData.take (total + ((pData.drop total).take limit).length) := by
        rw [List.take_add, List.length_take, List.length_drop]
        congr 1
        rw [List.take_eq_take_iff, List.length_drop]
        omega
      rw [sendLoop, htaken] at h
      split at h
      case isTrue hless => exact ih hless h
      case isFalse hdone =>
        cases h
        have hall : pData.take (total + ((pData.drop total).take limit).length) = pData :=
          List.take_of_length_le (Nat.not_lt.mp hdone)
        have hbegins : pData.take (total + ((pData.drop total).take limit).length) <+: pData :=
          List.take_prefix _ _
        exact ⟨hbegins, fun _ => hall, fun _ => rfl⟩

theorem send_delivers {socket : Socket} {pData : Bytes} {outcomes : List Outcome} {sent : Sent}
    (hdata : pData ≠ []) (h : send socket pData outcomes = some sent) : Delivers pData sent := by
  rw [send] at h
  split at h
  case isTrue =>
    cases h
    exact ⟨List.nil_prefix, iff_of_false (fun hfalse => by cases hfalse) hdata.symm⟩
  case isFalse => exact sendLoop_delivers (List.length_pos_iff.mpr hdata) h

theorem sendAll_cons {socket : Socket} {out : Bytes} {outs : List Bytes}
    {outcomes : List Outcome} {sents : List Sent}
    (h : sendAll socket (out :: outs) outcomes = some sents) :
    ∃ sent, send socket (message out) outcomes = some sent ∧
      (sent.result = none ∧ sents = [sent] ∨
        sent.result ≠ none ∧ ∃ rest, sendAll socket outs sent.outcomes = some rest ∧
          sents = sent :: rest) := by
  obtain ⟨sent, hsent, hrest⟩ := Option.bind_eq_some_iff.mp h
  refine ⟨sent, hsent, ?_⟩
  split at hrest
  case isTrue hended => exact Or.inl ⟨hended, (Option.some.inj hrest).symm⟩
  case isFalse hlives =>
    obtain ⟨rest, hothers, rfl⟩ := Option.map_eq_some_iff.mp hrest
    exact Or.inr ⟨hlives, rest, hothers, rfl⟩

/-! ## The stream -/

/-- The parts are never longer than what they are parts of, so they make the whole only when
each of them does. -/
theorem wire_eq_iff {socket : Socket} {outs : List Bytes} {outcomes : List Outcome}
    {sents : List Sent} (h : sendAll socket outs outcomes = some sents) :
    (wire sents).length ≤ (Framing.encode header outs).length ∧
      (wire sents = Framing.encode header outs ↔ ∀ sent ∈ sents, sent.result = some true) := by
  induction outs generalizing outcomes sents with
  | nil =>
    cases h
    exact ⟨Nat.le_refl _, iff_of_true rfl fun _ hnil => absurd hnil List.not_mem_nil⟩
  | cons out outs ih =>
    obtain ⟨sent, hsent, hrest⟩ := sendAll_cons h
    have hfirst := send_delivers (message_ne_nil out) hsent
    have hfirstLe := hfirst.begins.length_le
    have hstream : Framing.encode header (out :: outs) =
        message out ++ Framing.encode header outs := Framing.encode_cons header out outs
    rw [hstream, List.length_append]
    rcases hrest with ⟨hended, rfl⟩ | ⟨-, rest, hothers, rfl⟩
    · -- the process has ended in the middle of this message
      have hnot : sent.result ≠ some true := fun heq => by cases hended.symm.trans heq
      have hshort : sent.taken.length < (message out).length := by
        refine Nat.lt_of_le_of_ne hfirstLe fun heq => hnot ?_
        exact hfirst.result_iff.mpr (hfirst.begins.eq_of_length heq)
      have hwire : wire [sent] = sent.taken := List.append_nil _
      rw [hwire, List.forall_mem_singleton]
      refine ⟨by omega, iff_of_false (fun heq => ?_) hnot⟩
      have hlength := congrArg List.length heq
      rw [List.length_append] at hlength
      omega
    · obtain ⟨hle, hiff⟩ := ih hothers
      have hwire : wire (sent :: rest) = sent.taken ++ wire rest := List.flatMap_cons
      rw [hwire, List.length_append]
      refine ⟨Nat.add_le_add hfirstLe hle, ?_⟩
      rw [List.forall_mem_cons, hfirst.result_iff, ← hiff]
      constructor
      · intro heq
        have hlength := congrArg List.length heq
        rw [List.length_append, List.length_append] at hlength
        exact List.append_inj heq (by omega)
      · rintro ⟨hfirstEq, hrestEq⟩
        rw [hfirstEq, hrestEq]

/-- The calls of the system end the `Send`s as soon as there are as many of them as bytes,
since each one that takes any takes at least one. -/
def Progresses (outcomes : List Outcome) : Prop := ∀ limit, .took limit ∈ outcomes → 0 < limit

theorem sendLoop_isSome {pData : Bytes} {total : Nat} {taken : Bytes} {outcomes : List Outcome}
    (hprogress : Progresses outcomes) (htotal : total < pData.length)
    (hmany : pData.length - total ≤ outcomes.length) :
    ∃ sent, sendLoop pData total taken outcomes = some sent ∧ Progresses sent.outcomes ∧
      outcomes.length ≤ sent.outcomes.length + (pData.length - total) := by
  induction outcomes generalizing total taken with
  | nil =>
    rw [List.length_nil] at hmany
    omega
  | cons outcome outcomes ih =>
    have hrest : Progresses outcomes :=
      fun limit hlimit => hprogress limit (List.mem_cons_of_mem outcome hlimit)
    rw [List.length_cons] at hmany ⊢
    cases outcome with
    | killed =>
      refine ⟨_, rfl, hrest, ?_⟩
      dsimp only
      omega
    | failed =>
      refine ⟨_, rfl, hrest, ?_⟩
      dsimp only
      omega
    | took limit =>
      have hpositive : 0 < ((pData.drop total).take limit).length := by
        have hlimit := hprogress limit List.mem_cons_self
        rw [List.length_take, List.length_drop]
        omega
      rw [sendLoop]
      generalize (pData.drop total).take limit = sent at hpositive
      split
      case isTrue hless =>
        obtain ⟨last, hlast, hprogress', hleft⟩ := @ih _ (taken ++ sent) hrest hless (by omega)
        exact ⟨last, hlast, hprogress', by omega⟩
      case isFalse =>
        refine ⟨_, rfl, hrest, ?_⟩
        dsimp only
        omega

theorem send_isSome {socket : Socket} {pData : Bytes} {outcomes : List Outcome}
    (hprogress : Progresses outcomes) (hmany : pData.length ≤ outcomes.length) :
    ∃ sent, send socket pData outcomes = some sent ∧ Progresses sent.outcomes ∧
      outcomes.length ≤ sent.outcomes.length + pData.length := by
  rw [send]
  split
  case isTrue => exact ⟨_, rfl, hprogress, Nat.le_add_right _ _⟩
  case isFalse hopen =>
    have hpositive : 0 < pData.length :=
      List.length_pos_iff.mpr fun hnil => hopen (Or.inr hnil)
    exact sendLoop_isSome hprogress hpositive hmany

theorem sendAll_isSome {socket : Socket} {outs : List Bytes} {outcomes : List Outcome}
    (hprogress : Progresses outcomes)
    (hmany : (Framing.encode header outs).length ≤ outcomes.length) :
    (sendAll socket outs outcomes).isSome = true := by
  induction outs generalizing outcomes with
  | nil => rfl
  | cons out outs ih =>
    have hstream : Framing.encode header (out :: outs) =
        message out ++ Framing.encode header outs := Framing.encode_cons header out outs
    rw [hstream, List.length_append] at hmany
    obtain ⟨sent, hsent, hprogress', hleft⟩ :=
      @send_isSome socket (message out) outcomes hprogress (by omega)
    rw [sendAll, hsent, Option.bind_some]
    split
    · rfl
    · rw [Option.isSome_map]
      exact ih hprogress' (by omega)

/-- However the system cuts the bytes, the messages of `Server` come to their end or the
process does, and the peer has got the stream of the calls exactly when every `Send` that was
made has succeeded. -/
theorem wire_eq_stream_iff (server : Server) (socket : Socket) (calls : List Call)
    (outcomes : List Outcome) (hprogress : Progresses outcomes)
    (hmany : (Call.stream server socket calls).length ≤ outcomes.length) :
    ∃ sents, sendAll socket (Call.bodies server socket calls) outcomes = some sents ∧
      (wire sents = Call.stream server socket calls ↔
        ∀ sent ∈ sents, sent.result = some true) := by
  obtain ⟨sents, hsents⟩ := Option.isSome_iff_exists.mp
    (@sendAll_isSome socket (Call.bodies server socket calls) outcomes hprogress hmany)
  exact ⟨sents, hsents, (wire_eq_iff hsents).2⟩

/-- Three bytes at a time. -/
theorem wire_eq_stream_iff_pieces :
    let calls : List Call := [.hello 5, .wrongPassword 5]
    ∃ sents, sendAll 5 (Call.bodies ⟨128, 128, []⟩ 5 calls) (List.replicate 40 (.took 3)) =
        some sents ∧
      (wire sents = Call.stream ⟨128, 128, []⟩ 5 calls ↔
        ∀ sent ∈ sents, sent.result = some true) := by
  intro calls
  refine wire_eq_stream_iff ⟨128, 128, []⟩ 5 calls _ (fun limit hlimit => ?_) (by decide +kernel)
  cases List.eq_of_mem_replicate hlimit
  decide

/-! ## A broken connection -/

/-- A call that takes nothing. -/
def Outcome.Refuses : Outcome → Prop
  | .took _ => False
  | .failed | .killed => True

/-- Once a call fails, no later one takes anything. -/
def Breaks : List Outcome → Prop
  | [] => True
  | .took _ :: outcomes => Breaks outcomes
  | .failed :: outcomes | .killed :: outcomes => ∀ outcome ∈ outcomes, outcome.Refuses

theorem breaks_of_refuses {outcomes : List Outcome} (h : ∀ outcome ∈ outcomes, outcome.Refuses) :
    Breaks outcomes := by
  cases outcomes with
  | nil => trivial
  | cons outcome outcomes =>
    obtain ⟨hfirst, hrest⟩ := List.forall_mem_cons.mp h
    cases outcome with
    | took limit => exact hfirst.elim
    | failed => exact hrest
    | killed => exact hrest

/-- Behind a `Send` that has failed the connection is broken. -/
theorem sendLoop_breaks {pData : Bytes} {total : Nat} {taken : Bytes} {outcomes : List Outcome}
    {sent : Sent} (hbreaks : Breaks outcomes)
    (h : sendLoop pData total taken outcomes = some sent) :
    Breaks sent.outcomes ∧
      (sent.result = some false → ∀ outcome ∈ sent.outcomes, outcome.Refuses) := by
  induction outcomes generalizing total taken with
  | nil => cases h
  | cons outcome outcomes ih =>
    cases outcome with
    | killed =>
      cases h
      exact ⟨breaks_of_refuses hbreaks, fun _ => hbreaks⟩
    | failed =>
      cases h
      exact ⟨breaks_of_refuses hbreaks, fun _ => hbreaks⟩
    | took limit =>
      rw [sendLoop] at h
      split at h
      case isTrue => exact ih hbreaks h
      case isFalse =>
        cases h
        exact ⟨hbreaks, fun hfalse => by cases hfalse⟩

/-- A broken connection takes nothing of a message. -/
theorem send_of_refuses {socket : Socket} {pData : Bytes} {outcomes : List Outcome} {sent : Sent}
    (hrefuses : ∀ outcome ∈ outcomes, outcome.Refuses)
    (h : send socket pData outcomes = some sent) :
    sent.taken = [] ∧ ∀ outcome ∈ sent.outcomes, outcome.Refuses := by
  rw [send] at h
  split at h
  case isTrue =>
    cases h
    exact ⟨rfl, hrefuses⟩
  case isFalse =>
    cases outcomes with
    | nil => cases h
    | cons outcome outcomes =>
      obtain ⟨hfirst, hothers⟩ := List.forall_mem_cons.mp hrefuses
      cases outcome with
      | took limit => exact hfirst.elim
      | failed =>
        cases h
        exact ⟨rfl, hothers⟩
      | killed =>
        cases h
        exact ⟨rfl, hothers⟩

/-- A broken connection takes nothing more. -/
theorem wire_of_refuses {socket : Socket} {outs : List Bytes} {outcomes : List Outcome}
    (hrefuses : ∀ outcome ∈ outcomes, outcome.Refuses) {sents : List Sent}
    (h : sendAll socket outs outcomes = some sents) : wire sents = [] := by
  induction outs generalizing outcomes sents with
  | nil =>
    cases h
    rfl
  | cons out outs ih =>
    obtain ⟨sent, hsent, hrest⟩ := sendAll_cons h
    have hnothing := send_of_refuses hrefuses hsent
    rcases hrest with ⟨-, rfl⟩ | ⟨-, rest, hothers, rfl⟩
    · exact (List.append_nil _).trans hnothing.1
    · show sent.taken ++ wire rest = []
      rw [hnothing.1, List.nil_append, ih hnothing.2 hothers]

/-- Nothing is sent on an invalid socket. -/
theorem wire_of_invalid {socket : Socket} (hsocket : socket < 0) {outs : List Bytes}
    {outcomes : List Outcome} {sents : List Sent}
    (h : sendAll socket outs outcomes = some sents) : wire sents = [] := by
  induction outs generalizing outcomes sents with
  | nil =>
    cases h
    rfl
  | cons out outs ih =>
    obtain ⟨sent, hsent, hrest⟩ := sendAll_cons h
    rw [send, if_pos (Or.inl hsocket)] at hsent
    cases hsent
    rcases hrest with ⟨hended, -⟩ | ⟨-, rest, hothers, rfl⟩
    · cases hended
    · have hrestNil : wire rest = [] := ih hothers
      exact hrestNil

/-- On a connection that stays broken once it is, the peer has got a beginning of the stream. -/
theorem wire_prefix_stream (server : Server) (socket : Socket) (calls : List Call)
    (outcomes : List Outcome) (hbreaks : Breaks outcomes) (sents : List Sent)
    (hsents : sendAll socket (Call.bodies server socket calls) outcomes = some sents) :
    wire sents <+: Call.stream server socket calls := by
  by_cases hsocket : socket < 0
  · rw [wire_of_invalid hsocket hsents]
    exact List.nil_prefix
  rw [Call.stream]
  generalize Call.bodies server socket calls = outs at hsents
  induction outs generalizing outcomes sents with
  | nil =>
    cases hsents
    exact List.nil_prefix
  | cons out outs ih =>
    obtain ⟨sent, hsent, hrest⟩ := sendAll_cons hsents
    have hdelivers := send_delivers (message_ne_nil out) hsent
    rw [send, if_neg fun hrefused => hrefused.elim hsocket (message_ne_nil out)] at hsent
    obtain ⟨hbreaks', hrefuses⟩ := sendLoop_breaks hbreaks hsent
    have hstream : Framing.encode header (out :: outs) =
        message out ++ Framing.encode header outs := Framing.encode_cons header out outs
    rw [hstream]
    rcases hrest with ⟨-, rfl⟩ | ⟨hlives, rest, hothers, rfl⟩
    · have hwire : wire [sent] = sent.taken := List.append_nil _
      rw [hwire]
      exact hdelivers.begins.trans (List.prefix_append _ _)
    · have hwire : wire (sent :: rest) = sent.taken ++ wire rest := List.flatMap_cons
      rw [hwire]
      cases hresult : sent.result with
      | none => exact absurd hresult hlives
      | some success =>
        cases success with
        | true =>
          rw [hdelivers.result_iff.mp hresult]
          exact (List.prefix_append_right_inj _).mpr (ih sent.outcomes hbreaks' rest hothers)
        | false =>
          rw [wire_of_refuses (hrefuses hresult) hothers, List.append_nil]
          exact hdelivers.begins.trans (List.prefix_append _ _)

/-- The first `Send` fails behind four bytes, and the second one ends the process. -/
theorem wire_prefix_stream_cut :
    let calls : List Call := [.hello 5, .wrongPassword 5, .correctPassword 5]
    ∃ sents, sendAll 5 (Call.bodies ⟨128, 128, []⟩ 5 calls)
        [.took 3, .took 1, .failed, .killed] = some sents ∧
      (wire sents).length = 4 ∧ sents.length = 2 ∧
      wire sents <+: Call.stream ⟨128, 128, []⟩ 5 calls := by
  intro calls
  have hany : (sendAll 5 (Call.bodies ⟨128, 128, []⟩ 5 calls)
      [.took 3, .took 1, .failed, .killed]).any
      (fun sents => decide ((wire sents).length = 4 ∧ sents.length = 2)) = true := by
    decide +kernel
  obtain ⟨sents, hsents, hlengths⟩ := (Option.any_eq_true _ _).mp hany
  obtain ⟨hwire, hcount⟩ := of_decide_eq_true hlengths
  exact ⟨sents, hsents, hwire, hcount, wire_prefix_stream ⟨128, 128, []⟩ 5 calls _
    (by simp [Breaks, Outcome.Refuses]) sents hsents⟩

end Transport
end WhiteSmo
