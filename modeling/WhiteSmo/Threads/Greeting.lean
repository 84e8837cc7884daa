import WhiteSmo.Threads.World

/-!
# The name in a hello

The listener takes as many bytes as `input[6]` says and two more.  In a hello this is
the first byte of the client's name, so the name decides how much of the buffer is taken.
-/

namespace WhiteSmo

/-- A signed `char`. -/
theorem toInt_toInt8 (b : UInt8) :
    b.toInt8.toInt = if b.toNat < 128 then (b.toNat : Int) else b.toNat - 256 := by
  show b.toBitVec.toInt = _
  rw [BitVec.toInt_eq_toNat_cond]
  show (if 2 * b.toNat < 2 ^ 8 then (b.toNat : Int) else (b.toNat : Int) - (2 ^ 8 : Nat)) = _
  split <;> split <;> omega

/-- Four leading bytes, the command, the version, and the name with its NUL. -/
def helloChunk (lead : Bytes) (version : UInt8) (name : Bytes) (hlead : lead.length = 4)
    (hfits : name.length ≤ 1017) : Chunk where
  bytes := lead ++ 2 :: version :: (name ++ [0])
  nonempty := List.append_ne_nil_of_right_ne_nil _ (List.cons_ne_nil _ _)
  fits := by
    simp only [List.length_append, List.length_cons, List.length_nil]
    omega

section

variable {lead : Bytes} {version : UInt8} {name : Bytes}

theorem helloChunk_drop (hlead : lead.length = 4) (hfits : name.length ≤ 1017) :
    (Packet.ofChunk (helloChunk lead version name hlead hfits)).bytes.drop 6 =
      name ++ List.replicate (1018 - name.length) 0 := by
  have hsix : (lead ++ [2, version]).length = 6 := by
    rw [List.length_append, hlead]
    rfl
  have hbytes : (helloChunk lead version name hlead hfits).bytes =
      (lead ++ [2, version]) ++ (name ++ [0]) := by
    show lead ++ 2 :: version :: (name ++ [0]) = _
    rw [List.append_assoc]
    rfl
  have hmore : 1018 - name.length = (1024 - 6 - (name.length + 1)) + 1 := by omega
  show (Delimited.fill 1024 0 (helloChunk lead version name hlead hfits).bytes).drop 6 = _
  rw [Delimited.fill_drop, hbytes, List.drop_left' hsix, Delimited.fill, List.append_assoc,
    List.length_append, List.length_singleton, List.append_cancel_left_eq, hmore,
    List.replicate_succ]
  rfl

/-- The byte that is used as a length is the first one of the name. -/
theorem helloChunk_six (hlead : lead.length = 4) (hfits : name.length ≤ 1017) :
    (Packet.ofChunk (helloChunk lead version name hlead hfits)).bytes.getD 6 0 =
      name.headD 0 := by
  have hhead : ∀ bytes : Bytes, bytes.getD 6 0 = (bytes.drop 6).headD 0 := by
    intro bytes
    rw [List.getD_eq_getElem?_getD, List.headD_eq_head?_getD, List.head?_drop]
  rw [hhead, helloChunk_drop]
  cases name with
  | nil => rfl
  | cons first rest => rfl

theorem helloName_helloChunk (hlead : lead.length = 4) (hfits : name.length ≤ 1017) :
    helloName (Packet.ofChunk (helloChunk lead version name hlead hfits)) =
      if (name.headD 0).toInt8.toInt + 2 < 0 then none
      else some ((name ++ List.replicate (1018 - name.length) 0).take
        (((name.headD 0).toInt8.toInt + 2).toNat - 6)) := by
  rw [helloName, helloChunk_six, List.drop_take, helloChunk_drop]

theorem take_append_eq_left_iff {α : Type} {l rest : List α} (hrest : rest ≠ []) (k : Nat) :
    (l ++ rest).take k = l ↔ k = l.length := by
  have hpos := List.length_pos_of_ne_nil hrest
  constructor
  · intro h
    have hlen := congrArg List.length h
    rw [List.length_take, List.length_append] at hlen
    omega
  · rintro rfl
    exact List.take_left

theorem helloName_eq_some_iff (hlead : lead.length = 4) (hfits : name.length ≤ 1017) :
    helloName (Packet.ofChunk (helloChunk lead version name hlead hfits)) = some name ↔
      name = [] ∨ ∃ first ∈ name.head?, first.toNat = name.length + 4 ∧ first.toNat ≤ 127 := by
  have hzeros : List.replicate (1018 - name.length) (0 : UInt8) ≠ [] :=
    List.ne_nil_of_length_pos (by rw [List.length_replicate]; omega)
  rw [helloName_helloChunk, Option.ite_none_left_eq_some, Option.some_inj,
    take_append_eq_left_iff hzeros]
  cases name with
  | nil => simp
  | cons first rest =>
    have hlt := first.toNat_lt
    simp only [List.headD_cons, List.length_cons, List.head?_cons, Option.mem_some_iff,
      exists_eq_left', reduceCtorEq, false_or]
    rw [toInt_toInt8]
    split <;> omega

/-- A name ends the process when its first byte, as a signed number, is below -2. -/
theorem helloName_eq_none_iff (hlead : lead.length = 4) (hfits : name.length ≤ 1017) :
    helloName (Packet.ofChunk (helloChunk lead version name hlead hfits)) = none ↔
      ∃ first ∈ name.head?, 128 ≤ first.toNat ∧ first.toNat ≤ 253 := by
  have hnone : ∀ {P : Prop} [Decidable P] (found : Bytes),
      (if P then none else some found) = none ↔ P := by
    intro P _ found
    by_cases hP : P <;> simp [hP]
  rw [helloName_helloChunk, hnone]
  cases name with
  | nil => exact ⟨fun h => absurd h (by decide), fun ⟨_, hfirst, _⟩ => absurd hfirst (by simp)⟩
  | cons first rest =>
    have hlt := first.toNat_lt
    simp only [List.headD_cons, List.head?_cons, Option.mem_some_iff, exists_eq_left']
    rw [toInt_toInt8]
    split <;> omega

end

/-- The name is taken from the message as the client wrote it, and no exception leaves the
listener. -/
def HelloDecodes (input : Packet) (name : Bytes) : Prop :=
  helloName input = some name ∧
    ∀ (env : Env) (s : Shared) (socket : Socket) (ip : Bytes) (pc : ListenerPc),
      Server.smoListener env s (.hello socket ip input) ≠ some (.throw, pc)

theorem helloDecodes_iff_helloName {input : Packet} {name : Bytes} :
    HelloDecodes input name ↔ helloName input = some name := by
  refine ⟨fun h => h.1, fun h => ⟨h, fun env s socket ip pc => ?_⟩⟩
  rw [Server.smoListener, h]
  simp

/-- When a hello is decoded. -/
theorem hello_decodes_iff {lead : Bytes} (version : UInt8) {name : Bytes}
    (hlead : lead.length = 4) (hfits : name.length ≤ 1017) :
    let input := Packet.ofReceived (.data (helloChunk lead version name hlead hfits))
    input.command = 2 ∧
      (HelloDecodes input name ↔
        name = [] ∨ ∃ first ∈ name.head?, first.toNat = name.length + 4 ∧ first.toNat ≤ 127) := by
  refine ⟨Packet.command_ofChunk hlead rfl, ?_⟩
  rw [helloDecodes_iff_helloName]
  exact helloName_eq_some_iff hlead hfits

/-- A name of three bytes whose first one is 7. -/
theorem hello_decodes_iff_seven :
    let input := Packet.ofReceived (.data (helloChunk [0, 0, 0, 6] 128 [7, 65, 66] rfl (by decide)))
    input.command = 2 ∧
      (HelloDecodes input [7, 65, 66] ↔
        ([7, 65, 66] : Bytes) = [] ∨
          ∃ first ∈ ([7, 65, 66] : Bytes).head?, first.toNat = 3 + 4 ∧ first.toNat ≤ 127) :=
  hello_decodes_iff 128 rfl (by decide)

namespace World

/-- In every run that gets to the hello section with a name that throws, the next step of
the listener ends the process with the mutex held. -/
theorem hello_ends_process {server : Server} {w w' w'' : World} {actions : List Action} {env : Env}
    {socket : Socket} {ip : Bytes} {input : Packet} (hboot : Boot w)
    (hrun : run server w actions = some w') (hpc : w'.listener = .hello socket ip input)
    (hname : helloName input = none) (hstep : step server w' ⟨.listener, env⟩ = some w'') :
    w''.shared.fate = .terminated ∧ w''.shared.mutex = some .listener := by
  have hheld : w'.shared.mutex = some .listener := by
    rw [run_locked hboot hrun, holds, hpc]
    rfl
  obtain ⟨-, hby⟩ := stepBy_of_step hstep
  cases hby with
  | listener _ hlistener haccess =>
    rw [hpc, Server.smoListener, hname] at hlistener
    cases hlistener
    cases haccess
    exact ⟨rfl, hheld⟩

/-- A hello arrives in which `name` is the name. -/
def hailing (name : Bytes) (hfits : name.length ≤ 1017) : List Action :=
  starting ++ accepting ++
    [⟨.listener, { idle with received := .data (helloChunk [0, 0, 0, 0] 128 name rfl hfits) }⟩] ++
    steps .listener 4

/-- The name of an ordinary hello is taken with the zeros behind it, and a name that starts
with the byte 128 ends the process with the mutex held. -/
theorem hello_not_decoded :
    (let input := Packet.ofReceived
      (.data (helloChunk [0, 0, 0, 6] 128 (ascii "Bob") rfl (by decide)))
    helloName input = some (ascii "Bob" ++ List.replicate 59 0) ∧
      ¬ HelloDecodes input (ascii "Bob")) ∧
    (run ⟨128, 128, []⟩ emptyStart (hailing [128] (by decide))).map
      (fun w => (w.shared.fate, w.shared.mutex)) = some (.terminated, some .listener) := by
  refine ⟨?_, by decide +kernel⟩
  intro input
  have hname : helloName input = some (ascii "Bob" ++ List.replicate 59 0) := by decide +kernel
  refine ⟨hname, fun h => ?_⟩
  have heq := hname.symm.trans h.1
  exact absurd heq (by decide +kernel)

end World
end WhiteSmo
