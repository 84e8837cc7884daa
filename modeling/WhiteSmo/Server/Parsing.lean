import WhiteSmo.Server.Login

/-!
# Reading the fields of a login

The reader queues the whole zero-filled buffer, and `Update` splits what is behind its
first eight bytes.  The zeros behind a message make empty pieces, which are dropped from
the third on.  A message that leaves no room for them can have a single piece.
-/

namespace WhiteSmo

/-- `vals` behind the `getline` loop. -/
def loginPieces (input : Packet) : List Bytes := Delimited.getlines 0 (input.bytes.drop 8)

/-- The eight leading bytes and two fields, each with the NUL that ends it. -/
def loginFields (lead name password : Bytes) : Bytes := lead ++ (name ++ 0 :: (password ++ [0]))

theorem loginFields_length (lead name password : Bytes) :
    (loginFields lead name password).length = lead.length + name.length + password.length + 2 := by
  simp only [loginFields, List.length_append, List.length_cons, List.length_nil]
  omega

/-- The fields as one `Receive` delivers them. -/
def loginChunk (lead name password : Bytes) (hlead : lead.length = 8)
    (hfits : name.length + password.length + 2 ≤ 1016) : Chunk where
  bytes := loginFields lead name password
  nonempty := List.ne_nil_of_length_pos (by rw [loginFields_length]; omega)
  fits := by rw [loginFields_length]; omega

/-- The value list of a login is the two fields that the client wrote. -/
theorem login_fields_decode {lead name password : Bytes} (hlead : lead.length = 8)
    (hcommand : lead.getD 4 0 = 12) (hname : 0 ∉ name) (hpassword : 0 ∉ password)
    (hfits : name.length + password.length + 2 ≤ 1016) :
    let input := Packet.ofReceived (.data (loginChunk lead name password hlead hfits))
    input.command = 12 ∧ loginValues input = some [name, password] := by
  have hbytes : (loginChunk lead name password hlead hfits).bytes =
      lead ++ (name ++ 0 :: (password ++ [0])) := rfl
  refine ⟨?_, loginValues_ofChunk hlead hname hpassword hbytes⟩
  rw [Packet.ofReceived, Packet.command, Packet.ofChunk_getD hbytes (by omega), hcommand]

/-- Both fields empty, and a name that fills the buffer. -/
theorem login_fields_decode_edges :
    (let input := Packet.ofReceived (.data (loginChunk [0, 0, 0, 4, 12, 0, 0, 0] [] [] rfl
      (by decide)))
    input.command = 12 ∧ loginValues input = some [[], []]) ∧
    (let input := Packet.ofReceived (.data (loginChunk [0, 0, 0, 0, 12, 0, 0, 0]
      (List.replicate 1014 65) [] rfl (by rw [List.length_replicate]; decide)))
    input.command = 12 ∧ loginValues input = some [List.replicate 1014 65, []]) :=
  ⟨login_fields_decode rfl rfl (by decide) (by decide) (by decide),
    login_fields_decode rfl rfl (by rw [List.mem_replicate]; decide) (by decide)
      (by rw [List.length_replicate]; decide)⟩

/-! ## The bounds of the value list -/

theorem credentials_eq_none_iff {input : Packet} :
    credentials input = none ↔ ¬ 2 ≤ (loginPieces input).length := by
  rw [Option.eq_none_iff_forall_ne_some]
  constructor
  · intro hnone hlen
    obtain ⟨name, rest, hfirst⟩ := List.exists_cons_of_length_pos
      (show 0 < (loginPieces input).length by omega)
    rw [hfirst, List.length_cons] at hlen
    obtain ⟨password, rest, rfl⟩ := List.exists_cons_of_length_pos (show 0 < rest.length by omega)
    exact hnone (name, password) (credentials_eq_some_iff.mpr ⟨rest, hfirst⟩)
  · rintro hshort ⟨name, password⟩ hsome
    obtain ⟨rest, hlines⟩ := credentials_eq_some_iff.mp hsome
    rw [loginPieces, hlines] at hshort
    simp at hshort

theorem undefined_not_mem_login {server : Server} {db : Database} {users : List Row}
    {client : Client} {name password : Bytes} :
    .undefined ∉ server.login db users client name password := by
  have hrefuse : ∀ row, .undefined ∉ server.refuse client.socket row := by
    intro row
    unfold Server.refuse
    split <;> simp
  have hafter : ∀ foundUser,
      .undefined ∉ server.afterLoop db users client name password foundUser := by
    intro foundUser
    unfold Server.afterLoop Server.accept
    cases foundUser <;> cases db.createUser name password users <;> simp
  rcases server.login_cases db users client name password with
    ⟨-, names, row, heq⟩ | ⟨-, names, foundUser, -, heq⟩ <;> rw [heq, List.mem_append, not_or]
  · exact ⟨by simp, hrefuse row⟩
  · exact ⟨by simp, hafter foundUser⟩

theorem undefined_mem_handleInput_iff {server : Server} {db : Database} {users : List Row}
    {client : Client} {input : Packet} (hcommand : input.command = 12)
    (hclient : client.loggedIn = false) :
    .undefined ∈ server.handleInput db users client input ↔
      ¬ 2 ≤ (loginPieces input).length := by
  rw [Server.handleInput, if_pos ⟨hcommand, hclient⟩, ← credentials_eq_none_iff]
  cases credentials input with
  | none => simp
  | some pair => simpa using undefined_not_mem_login

/-- The two values are there when the buffer has a zero behind the leading bytes and
before its last byte. -/
theorem two_le_length_loginPieces_iff (chunk : Chunk) :
    2 ≤ (loginPieces (Packet.ofChunk chunk)).length ↔
      chunk.bytes.length ≤ 1022 ∨ 0 ∈ (chunk.bytes.drop 8).take 1015 := by
  have hdrop : ((Packet.ofChunk chunk).bytes.drop 8).dropLast =
      Delimited.fill 1015 0 ((chunk.bytes.drop 8).take 1015) := by
    show ((Delimited.fill 1024 0 chunk.bytes).drop 8).dropLast = _
    rw [Delimited.fill_drop, List.dropLast_eq_take, Delimited.fill_length, Delimited.fill_take]
    · omega
    · rw [List.length_drop]
      have := chunk.fits
      omega
  rw [loginPieces, Delimited.two_le_length_getlines_iff, hdrop, Delimited.mem_fill_iff,
    List.length_take, List.length_drop]
  refine or_congr ?_ Iff.rfl
  omega

/-- When `vals.begin() + 2`, `vals[0]` and `vals[1]` are in range. -/
theorem login_values_in_range_iff (chunk : Chunk) :
    (2 ≤ (loginPieces (Packet.ofReceived (.data chunk))).length ∧
      ∀ (server : Server) (db : Database) (users : List Row) (client : Client),
        .undefined ∉ server.handleInput db users client (Packet.ofReceived (.data chunk))) ↔
      chunk.bytes.length ≤ 1022 ∨ 0 ∈ (chunk.bytes.drop 8).take 1015 := by
  rw [← two_le_length_loginPieces_iff]
  constructor
  · exact fun h => h.1
  · intro hlen
    refine ⟨hlen, fun server db users client hmem => ?_⟩
    by_cases hlogin : (Packet.ofChunk chunk).command = 12 ∧ client.loggedIn = false
    · exact (undefined_mem_handleInput_iff hlogin.1 hlogin.2).mp hmem hlen
    · rw [Packet.ofReceived, Server.handleInput, if_neg hlogin] at hmem
      exact List.not_mem_nil hmem

/-- A full buffer whose fields have no NUL. -/
def fullChunk : Chunk where
  bytes := [0, 0, 3, 252, 12, 0, 0, 0] ++ List.replicate 1016 65
  nonempty := List.append_ne_nil_of_left_ne_nil (by decide) _
  fits := by rw [List.length_append, List.length_replicate]; decide

theorem full_login_out_of_range :
    (Packet.ofReceived (.data fullChunk)).command = 12 ∧
      ¬ 2 ≤ (loginPieces (Packet.ofReceived (.data fullChunk))).length ∧
      ∀ (server : Server) (db : Database) (users : List Row) (client : Client),
        client.loggedIn = false →
          server.handleInput db users client (Packet.ofReceived (.data fullChunk)) =
            [.undefined] := by
  have hcommand : (Packet.ofReceived (.data fullChunk)).command = 12 := by decide +kernel
  have hshort : ¬ 2 ≤ (loginPieces (Packet.ofReceived (.data fullChunk))).length := by
    rw [Packet.ofReceived, two_le_length_loginPieces_iff]
    decide +kernel
  refine ⟨hcommand, hshort, fun server db users client hclient => ?_⟩
  rw [Server.handleInput, if_pos ⟨hcommand, hclient⟩, credentials_eq_none_iff.mpr hshort]

end WhiteSmo
