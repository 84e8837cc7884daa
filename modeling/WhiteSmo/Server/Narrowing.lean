import WhiteSmo.Server.Settings

/-!
# What becomes of the numbers

The four numbers of `Config.ini` are narrowed again where they are used: the port to 16
bits, the two versions to one byte, the protocol version with three offsets.  The check
of the constructor comes behind the first narrowing and before the others.
-/

namespace WhiteSmo

theorem toNat_ofInt (n : Int) : ((UInt32.ofInt n).toNat : Int) = n % 2 ^ 32 := by
  rw [UInt32.ofInt, UInt32.toNat_ofNat']
  omega

theorem refusesNumber_iff {text : Bytes} :
    Server.refusesNumber text = true ↔ atol text % 2 ^ 32 = 0 := by
  have hnat := toNat_ofInt (atol text)
  rw [Server.refusesNumber, decide_eq_true_eq, UInt32.le_iff_toNat_le]
  show (UInt32.ofInt (atol text)).toNat ≤ 0 ↔ _
  omega

theorem atol_digits {n : Nat} (h : n < 2 ^ 63) : atol (Decimal.digits n) = n := by
  have hzero : 0 ∉ Decimal.digits n := by
    intro hmem
    exact absurd (Decimal.isDigit_of_mem_digits n 0 hmem) (by decide)
  rw [atol, cStr_of_not_mem hzero, Decimal.strtol_digits h]

/-- The port goes through a text and an `int` and loses its upper 16 bits. -/
theorem portNumber_eq (port : UInt32) : Settings.portNumber port = port.toUInt16 := by
  have hlt := port.toNat_lt
  rw [← UInt16.toNat_inj, Settings.portNumber, atoi, atol_digits (by omega), UInt16.ofInt,
    UInt16.toNat_ofNat', UInt32.toNat_toUInt16, Int.bmod_def]
  split <;> omega

/-- The four keys with a number. -/
inductive NumericKey
  | port
  | maxPlayers
  | serverVersion
  | protocolVersion

namespace NumericKey

def key : NumericKey → String
  | .port => "Port"
  | .maxPlayers => "MaxPlayers"
  | .serverVersion => "ServerVersion"
  | .protocolVersion => "ProtocolVersion"

def field (settings : Settings) : NumericKey → UInt32
  | .port => settings.port
  | .maxPlayers => settings.maxPlayers
  | .serverVersion => settings.version
  | .protocolVersion => settings.protocolVersion

/-- The text that is put in the place of a refused one. -/
def text : NumericKey → Bytes
  | .port => ascii "8765"
  | .maxPlayers => ascii "255"
  | .serverVersion => ascii "128"
  | .protocolVersion => ascii "128"

def default : NumericKey → Int
  | .port => 8765
  | .maxPlayers => 255
  | .serverVersion => 128
  | .protocolVersion => 128

/-- No conversion behind the constructor loses information: the number is still there in
the port, in the field, in the second byte of the hello reply, and with its offset in the
first byte of every reply. -/
def Usable : NumericKey → Int → Prop
  | .port, n => ((Settings.portNumber (UInt32.ofInt n)).toNat : Int) = n
  | .maxPlayers, n => ((UInt32.ofInt n).toNat : Int) = n
  | .serverVersion, n =>
    (((Server.helloReply ⟨UInt32.ofInt n, 0, []⟩).getD 1 0).toNat : Int) = n
  | .protocolVersion, n =>
    ∀ offset ∈ [2, 7, 12],
      ((Server.replyByte ⟨0, UInt32.ofInt n, []⟩ offset).toNat : Int) = n + offset.toNat

instance : ∀ (key : NumericKey) (n : Int), Decidable (key.Usable n)
  | .port, _ | .maxPlayers, _ | .serverVersion, _ => inferInstanceAs (Decidable (_ = _))
  | .protocolVersion, _ => List.decidableBAll _ _

def limit : NumericKey → Int
  | .port => 65535
  | .maxPlayers => 4294967295
  | .serverVersion => 255
  | .protocolVersion => 243

/-- The field is the number of the text where this is positive and usable, and the default
otherwise. -/
def Sufficient (key : NumericKey) (ini : Ini) : Prop :=
  let n := atol (ini "Server" key.key)
  (0 < n ∧ key.Usable n → ((key.field (Server.settings ini)).toNat : Int) = n) ∧
    (¬ (0 < n ∧ key.Usable n) → ((key.field (Server.settings ini)).toNat : Int) = key.default)

instance (key : NumericKey) (ini : Ini) : Decidable (key.Sufficient ini) :=
  inferInstanceAs (Decidable (_ ∧ _))

theorem replyByte_toNat (n : Int) (offset : UInt32) :
    ((Server.replyByte ⟨0, UInt32.ofInt n, []⟩ offset).toNat : Int) =
      (n + offset.toNat) % 2 ^ 8 := by
  have hnat := toNat_ofInt n
  show (((UInt32.ofInt n + offset).toUInt8.toNat : Nat) : Int) = _
  rw [UInt32.toNat_toUInt8, UInt32.toNat_add]
  omega

theorem usable_iff_le_limit {key : NumericKey} {n : Int} (hn : 0 < n) :
    key.Usable n ↔ n ≤ key.limit := by
  have hnat := toNat_ofInt n
  cases key with
  | port =>
    show ((Settings.portNumber (UInt32.ofInt n)).toNat : Int) = n ↔ n ≤ 65535
    rw [portNumber_eq, UInt32.toNat_toUInt16]
    omega
  | maxPlayers =>
    show ((UInt32.ofInt n).toNat : Int) = n ↔ n ≤ 4294967295
    omega
  | serverVersion =>
    show ((UInt32.ofInt n).toUInt8.toNat : Int) = n ↔ n ≤ 255
    rw [UInt32.toNat_toUInt8]
    omega
  | protocolVersion =>
    show (∀ offset ∈ [2, 7, 12], _) ↔ n ≤ 243
    simp only [replyByte_toNat, List.forall_mem_cons]
    show ((n + 2) % 2 ^ 8 = n + 2 ∧ (n + 7) % 2 ^ 8 = n + 7 ∧ (n + 12) % 2 ^ 8 = n + 12 ∧ _) ↔ _
    constructor
    · omega
    · intro hle
      exact ⟨by omega, by omega, by omega, fun _ hmem => absurd hmem List.not_mem_nil⟩

theorem setting_mem (key : NumericKey) :
    ⟨Server.refusesNumber, "Server", key.key, key.text⟩ ∈ Server.allSettings := by
  cases key <;> simp [Server.allSettings, NumericKey.key, text]

theorem field_settings (key : NumericKey) (ini : Ini) :
    key.field (Server.settings ini) =
      UInt32.ofInt (atol (Server.allSettings.foldl Ini.settle ini "Server" key.key)) := by
  rw [Server.settings_eq]
  cases key <;> rfl

theorem atol_text (key : NumericKey) : atol key.text = key.default := by
  cases key <;> decide +kernel

/-- What a field is, by the number of its text. -/
theorem field_settings_toNat (key : NumericKey) (ini : Ini) :
    let n := atol (ini "Server" key.key)
    ((key.field (Server.settings ini)).toNat : Int) =
      if n % 2 ^ 32 = 0 then key.default else n % 2 ^ 32 := by
  intro n
  have htext := Ini.foldl_settle_apply Server.allSettings_pairwise key.setting_mem ini
  rw [field_settings, htext, toNat_ofInt]
  by_cases hzero : n % 2 ^ 32 = 0
  · rw [if_pos (refusesNumber_iff.mpr hzero), if_pos hzero, atol_text]
    cases key <;> rfl
  · rw [if_neg (refusesNumber_iff.not.mpr hzero), if_neg hzero]

/-- Where the check is sufficient the field survives the conversions behind it. -/
theorem usable_of_sufficient {key : NumericKey} {ini : Ini} (h : key.Sufficient ini) :
    key.Usable (key.field (Server.settings ini)).toNat := by
  by_cases hn : 0 < atol (ini "Server" key.key) ∧ key.Usable (atol (ini "Server" key.key))
  · rw [h.1 hn]
    exact hn.2
  · rw [h.2 hn]
    cases key <;> decide +kernel

theorem sufficient_iff (key : NumericKey) (ini : Ini) :
    let n := atol (ini "Server" key.key)
    key.Sufficient ini ↔
      (0 < n ∧ n ≤ key.limit) ∨ n % 2 ^ 32 = 0 ∨ n % 2 ^ 32 = key.default := by
  intro n
  have hfield := field_settings_toNat key ini
  have hlimit : key.limit < 2 ^ 32 := by cases key <;> decide
  have husable : (0 < n ∧ key.Usable n) ↔ (0 < n ∧ n ≤ key.limit) :=
    and_congr_right fun hn => usable_iff_le_limit hn
  rw [Sufficient, husable, hfield]
  change (0 < n ∧ n ≤ key.limit → (if n % 2 ^ 32 = 0 then key.default else n % 2 ^ 32) = n) ∧
    (¬ (0 < n ∧ n ≤ key.limit) →
      (if n % 2 ^ 32 = 0 then key.default else n % 2 ^ 32) = key.default) ↔ _
  by_cases hzero : n % 2 ^ 32 = 0
  · rw [if_pos hzero]
    omega
  · rw [if_neg hzero]
    omega

end NumericKey

/-- When the check of the constructor is sufficient for the conversions behind it. -/
theorem settings_sufficient_iff (ini : Ini) :
    (∀ key : NumericKey, key.Sufficient ini) ↔
      ∀ key : NumericKey,
        (0 < atol (ini "Server" key.key) ∧ atol (ini "Server" key.key) ≤ key.limit) ∨
          atol (ini "Server" key.key) % 2 ^ 32 = 0 ∨
            atol (ini "Server" key.key) % 2 ^ 32 = key.default :=
  forall_congr' fun key => key.sufficient_iff ini

/-- A negative port, and a version that is too large for its byte. -/
def accepted : Ini := fun group key =>
  if group = "Server" ∧ key = "Port" then ascii "-1"
  else if group = "Server" ∧ key = "ServerVersion" then ascii "300"
  else []

theorem settings_not_sufficient :
    (¬ NumericKey.port.Sufficient accepted ∧ (Server.settings accepted).port = 4294967295 ∧
      Settings.portNumber (Server.settings accepted).port = 65535) ∧
    (¬ NumericKey.serverVersion.Sufficient accepted ∧ (Server.settings accepted).version = 300 ∧
      (Server.settings accepted).server.helloReply.getD 1 0 = 44) := by
  decide +kernel

end WhiteSmo
