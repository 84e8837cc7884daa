import WhiteSmo.Library.Decimal
import WhiteSmo.Server.RoomReply

/-!
# The settings

`Server::Server` reads its settings from `Config.ini`, puts a default where it refuses
what it has read, and writes the file back.  A number goes through `atol` into an
`unsigned int` and is refused when this is at most 0; what uses it narrows it further.
-/

namespace WhiteSmo

/-- `mINI::INIStructure`: the text of a key in a group, empty when there is none.  mINI
ignores case, but no two keys of the constructor differ in case only. -/
abbrev Ini := String → String → Bytes

def Ini.set (ini : Ini) (group key : String) (text : Bytes) : Ini :=
  fun g k => if g = group ∧ k = key then text else ini g k

/-- `atol(text.c_str())` -/
def atol (text : Bytes) : Int := Decimal.strtol (cStr text)

/-- `atoi`, the same narrowed to an `int`. -/
def atoi (text : Bytes) : Int := (atol text).bmod (2 ^ 32)

/-- What the constructor keeps.  `written` is what it gives to `file.write`. -/
structure Settings where
  room : Room
  name : Bytes
  version : UInt32
  protocolVersion : UInt32
  port : UInt32
  maxPlayers : UInt32
  password : Bytes
  serverDB : Bytes
  salt : Bytes
  written : Ini

namespace Server

/-- A text: the default replaces an empty one. -/
def readText (group key : String) (default : Bytes) (ini : Ini) : Bytes × Ini :=
  if ini group key = [] then
    let ini := ini.set group key default
    (ini group key, ini)
  else (ini group key, ini)

/-- A number: the default replaces one that is at most 0 as an `unsigned int`. -/
def readNumber (key : String) (default : Bytes) (ini : Ini) : UInt32 × Ini :=
  let number := UInt32.ofInt (atol (ini "Server" key))
  if number ≤ 0 then
    let ini := ini.set "Server" key default
    (UInt32.ofInt (atol (ini "Server" key)), ini)
  else (number, ini)

def readName : Ini → Bytes × Ini := readText "Server" "Name" (ascii "White Elephant 2024")

def readVersion : Ini → UInt32 × Ini := readNumber "ServerVersion" (ascii "128")

def readProtocolVersion : Ini → UInt32 × Ini := readNumber "ProtocolVersion" (ascii "128")

def readPort : Ini → UInt32 × Ini := readNumber "Port" (ascii "8765")

def readMaxPlayers : Ini → UInt32 × Ini := readNumber "MaxPlayers" (ascii "255")

def readPassword : Ini → Bytes × Ini := readText "Server" "Password" (ascii "ChangeMe")

def readServerDB : Ini → Bytes × Ini := readText "ServerDB" "File" (ascii "ServerDB.db")

def readSalt : Ini → Bytes × Ini := readText "ServerDB" "Salt" (ascii "Salt")

def newRoom : Room := ⟨0, false, 0, ascii "WE2024", ascii "White Elephant 2024", [], []⟩

/-- `Server::Server` up to `file.write(ini)`. -/
def settings (ini : Ini) : Settings :=
  let name := readName ini
  let version := readVersion name.2
  let protocolVersion := readProtocolVersion version.2
  let port := readPort protocolVersion.2
  let maxPlayers := readMaxPlayers port.2
  let password := readPassword maxPlayers.2
  let serverDB := readServerDB password.2
  let salt := readSalt serverDB.2
  { room := newRoom
    name := name.1
    version := version.1
    protocolVersion := protocolVersion.1
    port := port.1
    maxPlayers := maxPlayers.1
    password := password.1
    serverDB := serverDB.1
    salt := salt.1
    written := salt.2 }

end Server

namespace Settings

/-- What the messages of the server use. -/
def server (settings : Settings) : Server :=
  ⟨settings.version, settings.protocolVersion, settings.name⟩

/-- `htons(atoi(std::to_string(_port).c_str()))`, as the number of the port. -/
def portNumber (port : UInt32) : UInt16 := UInt16.ofInt (atoi (Decimal.digits port.toNat))

end Settings

/-! ## The texts that remain -/

/-- A key with its check and its default. -/
structure Setting where
  refused : Bytes → Bool
  group : String
  key : String
  default : Bytes

namespace Ini

/-- A refused text is replaced. -/
def settle (ini : Ini) (e : Setting) : Ini :=
  fun g k =>
    if g = e.group ∧ k = e.key then if e.refused (ini e.group e.key) then e.default else ini g k
    else ini g k

variable {ini : Ini} {e : Setting}

theorem settle_of_refused (h : e.refused (ini e.group e.key) = true) :
    ini.settle e = ini.set e.group e.key e.default := by
  funext g k
  rw [settle, set, h, if_pos rfl]

theorem settle_of_accepted (h : e.refused (ini e.group e.key) = false) : ini.settle e = ini := by
  funext g k
  rw [settle, h, if_neg Bool.false_ne_true, ite_self]

theorem settle_of_ne {g k : String} (h : ¬ (g = e.group ∧ k = e.key)) :
    ini.settle e g k = ini g k :=
  if_neg h

theorem foldl_settle_of_accepted {es : List Setting}
    (h : ∀ e ∈ es, e.refused (ini e.group e.key) = false) : es.foldl settle ini = ini := by
  induction es with
  | nil => rfl
  | cons e es ih =>
    rw [List.foldl_cons, settle_of_accepted (h e List.mem_cons_self)]
    exact ih fun e' he' => h e' (List.mem_cons_of_mem e he')

/-- The checks of other keys leave a text as it is. -/
theorem foldl_settle_of_ne {es : List Setting} {g k : String}
    (h : ∀ e ∈ es, ¬ (g = e.group ∧ k = e.key)) (ini : Ini) :
    es.foldl settle ini g k = ini g k := by
  induction es generalizing ini with
  | nil => rfl
  | cons e es ih =>
    rw [List.foldl_cons, ih fun e' he' => h e' (List.mem_cons_of_mem e he')]
    exact settle_of_ne (h e List.mem_cons_self)

/-- What the checks leave of a text. -/
theorem foldl_settle_apply {es : List Setting}
    (hne : es.Pairwise fun e e' => ¬ (e.group = e'.group ∧ e.key = e'.key)) (he : e ∈ es)
    (ini : Ini) :
    es.foldl settle ini e.group e.key =
      if e.refused (ini e.group e.key) then e.default else ini e.group e.key := by
  induction es generalizing ini with
  | nil => exact absurd he List.not_mem_nil
  | cons first es ih =>
    obtain ⟨hfirst, hrest⟩ := List.pairwise_cons.mp hne
    rw [List.foldl_cons]
    rcases List.mem_cons.mp he with rfl | he
    · rw [foldl_settle_of_ne hfirst, settle, if_pos ⟨rfl, rfl⟩]
    · have hother : ini.settle first e.group e.key = ini e.group e.key :=
        settle_of_ne fun heq => hfirst e he ⟨heq.1.symm, heq.2.symm⟩
      rw [ih hrest he, hother]

theorem foldl_settle_accepted {es : List Setting}
    (hne : es.Pairwise fun e e' => ¬ (e.group = e'.group ∧ e.key = e'.key)) (he : e ∈ es)
    (hdefault : e.refused e.default = false) (ini : Ini) :
    e.refused (es.foldl settle ini e.group e.key) = false := by
  rw [foldl_settle_apply hne he]
  split
  case isTrue => exact hdefault
  case isFalse hkept => exact Bool.eq_false_iff.mpr hkept

end Ini

namespace Server

def refusesText (text : Bytes) : Bool := text = []

def refusesNumber (text : Bytes) : Bool := UInt32.ofInt (atol text) ≤ 0

theorem readText_eq (group key : String) (default : Bytes) (ini : Ini) :
    let settled := ini.settle ⟨refusesText, group, key, default⟩
    readText group key default ini = (settled group key, settled) := by
  intro settled
  rw [readText]
  split
  case isTrue h =>
    have hini : settled = ini.set group key default := Ini.settle_of_refused (decide_eq_true h)
    rw [hini]
  case isFalse h =>
    have hini : settled = ini := Ini.settle_of_accepted (decide_eq_false h)
    rw [hini]

theorem readNumber_eq (key : String) (default : Bytes) (ini : Ini) :
    let settled := ini.settle ⟨refusesNumber, "Server", key, default⟩
    readNumber key default ini = (UInt32.ofInt (atol (settled "Server" key)), settled) := by
  intro settled
  rw [readNumber]
  split
  case isTrue h =>
    have hini : settled = ini.set "Server" key default := Ini.settle_of_refused (decide_eq_true h)
    rw [hini]
  case isFalse h =>
    have hini : settled = ini := Ini.settle_of_accepted (decide_eq_false h)
    rw [hini]

/-- The keys in the order in which the constructor reads them. -/
def allSettings : List Setting :=
  [⟨refusesText, "Server", "Name", ascii "White Elephant 2024"⟩,
    ⟨refusesNumber, "Server", "ServerVersion", ascii "128"⟩,
    ⟨refusesNumber, "Server", "ProtocolVersion", ascii "128"⟩,
    ⟨refusesNumber, "Server", "Port", ascii "8765"⟩,
    ⟨refusesNumber, "Server", "MaxPlayers", ascii "255"⟩,
    ⟨refusesText, "Server", "Password", ascii "ChangeMe"⟩,
    ⟨refusesText, "ServerDB", "File", ascii "ServerDB.db"⟩,
    ⟨refusesText, "ServerDB", "Salt", ascii "Salt"⟩]

theorem default_accepted : ∀ e ∈ allSettings, e.refused e.default = false := by
  decide +kernel

theorem allSettings_pairwise :
    allSettings.Pairwise fun e e' => ¬ (e.group = e'.group ∧ e.key = e'.key) := by
  simp [allSettings]

/-- The settings are what the written texts say. -/
theorem settings_eq (ini : Ini) :
    let settled := allSettings.foldl Ini.settle ini
    settings ini =
      { room := newRoom
        name := settled "Server" "Name"
        version := UInt32.ofInt (atol (settled "Server" "ServerVersion"))
        protocolVersion := UInt32.ofInt (atol (settled "Server" "ProtocolVersion"))
        port := UInt32.ofInt (atol (settled "Server" "Port"))
        maxPlayers := UInt32.ofInt (atol (settled "Server" "MaxPlayers"))
        password := settled "Server" "Password"
        serverDB := settled "ServerDB" "File"
        salt := settled "ServerDB" "Salt"
        written := settled } := by
  simp only [settings, readName, readVersion, readProtocolVersion, readPort, readMaxPlayers,
    readPassword, readServerDB, readSalt, readText_eq, readNumber_eq, allSettings,
    List.foldl_cons, List.foldl_nil]
  simp (disch := simp) only [Ini.settle_of_ne]

/-- The server starts with the same settings from the file that it has written. -/
theorem settings_written (ini : Ini) : settings (settings ini).written = settings ini := by
  have hwritten : ∀ ini : Ini, (settings ini).written = allSettings.foldl Ini.settle ini :=
    fun ini => congrArg Settings.written (settings_eq ini)
  have hsame : allSettings.foldl Ini.settle (allSettings.foldl Ini.settle ini) =
      allSettings.foldl Ini.settle ini :=
    Ini.foldl_settle_of_accepted fun e he =>
      Ini.foldl_settle_accepted allSettings_pairwise he (default_accepted e he) ini
  rw [hwritten, settings_eq, settings_eq ini, hsame]

/-- The reply about the room that the constructor makes can be read. -/
theorem newRoom_plain {value : Bytes} (hvalue : 0 ∉ value) : newRoom.Plain value :=
  ⟨hvalue, by decide +kernel, by decide +kernel, by decide⟩

end Server
end WhiteSmo
