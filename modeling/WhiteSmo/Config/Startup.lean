import WhiteSmo.Config.File
import WhiteSmo.Server.Settings

/-!
# The file of the settings

`Server::Server` with the file itself: `Config.ini` is read into a structure, each setting is
looked up in it with `operator[]`, and the structure is written back over the file.  The
settings are the ones that the texts give, and a server that starts again finds the same
settings and leaves the same bytes.
-/

namespace WhiteSmo
namespace Startup

open MINI

/-- `ini[group][key]` -/
def subscript (ini : INIStructure) (group key : String) : Bytes × INIStructure :=
  let collection := ini.ref (ascii group)
  let value := collection.1.ref (ascii key)
  (value.1, collection.2 (value.2 value.1))

/-- `ini[group][key] = text` -/
def assign (ini : INIStructure) (group key : String) (text : Bytes) : INIStructure :=
  assignValue ini (ascii group) (ascii key) text

/-- A setting is read, replaced when it is refused, and read again. -/
def readSetting (e : Setting) (ini : INIStructure) : Bytes × INIStructure :=
  let text := subscript ini e.group e.key
  if e.refused text.1 then subscript (assign text.2 e.group e.key e.default) e.group e.key
  else text

def readText (group key : String) (default : Bytes) : INIStructure → Bytes × INIStructure :=
  readSetting ⟨Server.refusesText, group, key, default⟩

def readNumber (key : String) (default : Bytes) (ini : INIStructure) : UInt32 × INIStructure :=
  let text := readSetting ⟨Server.refusesNumber, "Server", key, default⟩ ini
  (UInt32.ofInt (atol text.1), text.2)

def readName : INIStructure → Bytes × INIStructure :=
  readText "Server" "Name" (ascii "White Elephant 2024")

def readVersion : INIStructure → UInt32 × INIStructure := readNumber "ServerVersion" (ascii "128")

def readProtocolVersion : INIStructure → UInt32 × INIStructure :=
  readNumber "ProtocolVersion" (ascii "128")

def readPort : INIStructure → UInt32 × INIStructure := readNumber "Port" (ascii "8765")

def readMaxPlayers : INIStructure → UInt32 × INIStructure := readNumber "MaxPlayers" (ascii "255")

def readPassword : INIStructure → Bytes × INIStructure :=
  readText "Server" "Password" (ascii "ChangeMe")

def readServerDB : INIStructure → Bytes × INIStructure :=
  readText "ServerDB" "File" (ascii "ServerDB.db")

def readSalt : INIStructure → Bytes × INIStructure := readText "ServerDB" "Salt" (ascii "Salt")

/-- What a structure gives to the constructor. -/
def view (ini : INIStructure) : Ini :=
  fun group key => (ini.value (normalise (ascii group)) (normalise (ascii key))).getD []

/-- The settings in a structure, and the structure that is given to `file.write`. -/
def settings (ini : INIStructure) : Settings × INIStructure :=
  let name := readName ini
  let version := readVersion name.2
  let protocolVersion := readProtocolVersion version.2
  let port := readPort protocolVersion.2
  let maxPlayers := readMaxPlayers port.2
  let password := readPassword maxPlayers.2
  let serverDB := readServerDB password.2
  let salt := readSalt serverDB.2
  ({ room := Server.newRoom
     name := name.1
     version := version.1
     protocolVersion := protocolVersion.1
     port := port.1
     maxPlayers := maxPlayers.1
     password := password.1
     serverDB := serverDB.1
     salt := salt.1
     written := view salt.2 }, salt.2)

def configFile : Bytes := ascii "Config.ini"

/-- `Server::Server` up to `file.write(ini)`, whose result it ignores. -/
def start (files : Files) : Option (Settings × Files) :=
  let file := INIFile.read files configFile INIMap.empty
  let started := settings file.2
  (INIFile.write false files configFile started.2).map fun result => (started.1, result.2)

/-! ## One setting -/

/-- What a setting is after it was looked up. -/
def text (ini : INIStructure) (e : Setting) : Bytes :=
  if e.refused (view ini e.group e.key) then e.default else view ini e.group e.key

/-- The setting has this place in the structure. -/
def At (e : Setting) (name key : Bytes) : Prop :=
  name = normalise (ascii e.group) ∧ key = normalise (ascii e.key)

instance (e : Setting) (name key : Bytes) : Decidable (At e name key) :=
  inferInstanceAs (Decidable (_ ∧ _))

variable {ini : INIStructure}

theorem subscript_eq (ini : INIStructure) (group key : String) :
    subscript ini group key = (view ini group key, assign ini group key (view ini group key)) := by
  have hget : ((ini.ref (ascii group)).1.ref (ascii key)).1 = view ini group key := by
    rw [INIMap.ref_fst, INIMap.ref_fst, INIStructure.get_get]
    rfl
  rw [assign, assignValue]
  dsimp only [subscript]
  rw [hget]

theorem view_assign (ini : INIStructure) (group key : String) (text : Bytes) :
    view (assign ini group key text) group key = text := by
  rw [view, assign, INIStructure.value_assignValue, if_pos ⟨rfl, rfl⟩, Option.getD_some]

theorem readSetting_fst (e : Setting) (ini : INIStructure) :
    (readSetting e ini).1 = text ini e := by
  rw [readSetting, text, subscript_eq, subscript_eq]
  dsimp only
  split
  case isTrue => exact view_assign _ _ _ _
  case isFalse => rfl

theorem value_readSetting (e : Setting) (ini : INIStructure) (name key : Bytes) :
    (readSetting e ini).2.value name key =
      if At e name key then some (text ini e) else ini.value name key := by
  rw [readSetting, text, subscript_eq, subscript_eq]
  dsimp only
  split
  case isTrue =>
    rw [view_assign, assign, assign, assign, INIStructure.value_assignValue,
      INIStructure.value_assignValue, INIStructure.value_assignValue]
    split
    case isTrue hat => exact (if_pos hat).symm
    case isFalse hat => exact (if_neg hat).symm
  case isFalse => exact INIStructure.value_assignValue _ _ _

theorem names_readSetting (e : Setting) (ini : INIStructure) (name : Bytes) :
    (readSetting e ini).2.Names name ↔ name = normalise (ascii e.group) ∨ ini.Names name := by
  rw [readSetting, subscript_eq, subscript_eq]
  dsimp only
  split
  case isTrue =>
    simp only [assign, INIStructure.names_assignValue, ← or_assoc, or_self]
  case isFalse => exact INIStructure.names_assignValue _ _

/-! ## All settings -/

/-- The structure when the settings have been looked up one after another. -/
def settle (ini : INIStructure) (e : Setting) : INIStructure := (readSetting e ini).2

theorem view_settle_of_not_at {e e' : Setting}
    (h : ¬ At e (normalise (ascii e'.group)) (normalise (ascii e'.key))) :
    view (settle ini e) e'.group e'.key = view ini e'.group e'.key := by
  rw [view, settle, value_readSetting, if_neg h, view]

variable {es : List Setting}

theorem foldl_settle_of_not_at {name key : Bytes} (h : ∀ e ∈ es, ¬ At e name key)
    (ini : INIStructure) : (es.foldl settle ini).value name key = ini.value name key := by
  induction es generalizing ini with
  | nil => rfl
  | cons e es ih =>
    rw [List.foldl_cons, ih fun e' he' => h e' (List.mem_cons_of_mem e he')]
    exact (value_readSetting e ini name key).trans (if_neg (h e List.mem_cons_self))

theorem foldl_settle_names (ini : INIStructure) (name : Bytes) : (es.foldl settle ini).Names name ↔
    (∃ e ∈ es, name = normalise (ascii e.group)) ∨ ini.Names name := by
  induction es generalizing ini with
  | nil => simp
  | cons e es ih =>
    rw [List.foldl_cons, ih, settle, names_readSetting, List.exists_mem_cons_iff, or_left_comm,
      or_assoc]

/-- No two settings have one place. -/
def Apart (e e' : Setting) : Prop :=
  ¬ At e (normalise (ascii e'.group)) (normalise (ascii e'.key))

instance (e e' : Setting) : Decidable (Apart e e') := inferInstanceAs (Decidable (¬ _))

theorem text_settle {e e' : Setting} (h : Apart e e') (ini : INIStructure) :
    text (settle ini e) e' = text ini e' := by
  rw [text, text, view_settle_of_not_at h]

theorem foldl_settle_at (hapart : es.Pairwise fun e e' => Apart e e' ∧ Apart e' e) {e : Setting}
    (he : e ∈ es) (ini : INIStructure) :
    (es.foldl settle ini).value (normalise (ascii e.group)) (normalise (ascii e.key)) =
      some (text ini e) := by
  induction es generalizing ini with
  | nil => exact absurd he List.not_mem_nil
  | cons first es ih =>
    obtain ⟨hfirst, hrest⟩ := List.pairwise_cons.mp hapart
    rw [List.foldl_cons]
    rcases List.mem_cons.mp he with rfl | he
    · rw [foldl_settle_of_not_at (fun e' he' => (hfirst e' he').2), settle, value_readSetting,
        if_pos ⟨rfl, rfl⟩]
    · rw [ih hrest he, text_settle (hfirst e he).1]

/-- The settings that were looked up before do not matter. -/
theorem text_foldl_settle {e : Setting} (h : ∀ e' ∈ es, Apart e' e) (ini : INIStructure) :
    text (es.foldl settle ini) e = text ini e := by
  induction es generalizing ini with
  | nil => rfl
  | cons first es ih =>
    rw [List.foldl_cons, ih fun e' he' => h e' (List.mem_cons_of_mem first he')]
    exact text_settle (h first List.mem_cons_self) ini

theorem allSettings_apart :
    Server.allSettings.Pairwise fun e e' => Apart e e' ∧ Apart e' e := by
  decide +kernel

theorem settings_snd (ini : INIStructure) :
    (settings ini).2 = Server.allSettings.foldl settle ini := by
  simp only [settings, readName, readVersion, readProtocolVersion, readPort, readMaxPlayers,
    readPassword, readServerDB, readSalt, readText, readNumber, Server.allSettings,
    List.foldl_cons, List.foldl_nil, settle]

theorem readSetting_take {e : Setting} {before after : List Setting}
    (hall : Server.allSettings = before ++ e :: after) (ini : INIStructure) :
    (readSetting e (before.foldl settle ini)).1 =
      Server.allSettings.foldl Ini.settle (view ini) e.group e.key := by
  have hmem : e ∈ Server.allSettings := by
    rw [hall]
    exact List.mem_append_right _ List.mem_cons_self
  have hapart := allSettings_apart
  rw [hall, List.pairwise_append] at hapart
  rw [readSetting_fst, text_foldl_settle fun e' he' => (hapart.2.2 e' he' e List.mem_cons_self).1,
    Ini.foldl_settle_apply Server.allSettings_pairwise hmem, text]

/-- The constructor gets the settings that the texts in the file give. -/
theorem settings_fst (ini : INIStructure) :
    (settings ini).1 = { Server.settings (view ini) with written := view (settings ini).2 } := by
  have hname := @readSetting_take _ [] _ rfl ini
  have hversion := @readSetting_take _ (Server.allSettings.take 1) _ rfl ini
  have hprotocol := @readSetting_take _ (Server.allSettings.take 2) _ rfl ini
  have hport := @readSetting_take _ (Server.allSettings.take 3) _ rfl ini
  have hplayers := @readSetting_take _ (Server.allSettings.take 4) _ rfl ini
  have hpassword := @readSetting_take _ (Server.allSettings.take 5) _ rfl ini
  have hserverDB := @readSetting_take _ (Server.allSettings.take 6) _ rfl ini
  have hsalt := @readSetting_take _ (Server.allSettings.take 7) _ rfl ini
  rw [Server.settings_eq]
  generalize Server.allSettings.foldl Ini.settle (view ini) = settled at *
  simp only [Server.allSettings, List.take_succ_cons, List.take_zero, List.foldl_cons,
    List.foldl_nil, settle] at hname hversion hprotocol hport hplayers hpassword hserverDB hsalt
  simp only [settings, readName, readVersion, readProtocolVersion, readPort, readMaxPlayers,
    readPassword, readServerDB, readSalt, readText, readNumber, hname, hversion, hprotocol,
    hport, hplayers, hpassword, hserverDB, hsalt]

/-! ## What is written -/

/-- The places and the defaults of the settings can stand in a file. -/
theorem allSettings_plain : ∀ e ∈ Server.allSettings,
    let name := normalise (ascii e.group)
    let key := normalise (ascii e.key)
    (semicolon ∉ name ∧ 10 ∉ name ∧ name.all kept = true) ∧
      (key.head? ≠ some semicolon ∧ key.head? ≠ some openingBracket ∧
        key.getLast? ≠ some backslash ∧ 10 ∉ key ∧ key.all kept = true) ∧
      trim e.default = e.default ∧ 10 ∉ e.default ∧ e.default.all kept = true ∧
      e.refused [] = true := by
  decide +kernel

theorem value_settings (ini : INIStructure) (name key : Bytes) :
    (∃ e ∈ Server.allSettings, At e name key ∧
        (settings ini).2.value name key = some (text ini e)) ∨
      (∀ e ∈ Server.allSettings, ¬ At e name key) ∧
        (settings ini).2.value name key = ini.value name key := by
  rw [settings_snd]
  by_cases h : ∃ e ∈ Server.allSettings, At e name key
  · obtain ⟨e, he, hat⟩ := h
    refine Or.inl ⟨e, he, hat, ?_⟩
    rw [hat.1, hat.2]
    exact foldl_settle_at allSettings_apart he ini
  · have hnot : ∀ e ∈ Server.allSettings, ¬ At e name key := fun e he hat => h ⟨e, he, hat⟩
    exact Or.inr ⟨hnot, foldl_settle_of_not_at hnot ini⟩

/-- A text that a setting takes from the file is the value of its key. -/
theorem text_cases {e : Setting} (he : e ∈ Server.allSettings) (ini : INIStructure) :
    (text ini e = e.default ∧ e.refused (view ini e.group e.key) = true) ∨
      ini.value (normalise (ascii e.group)) (normalise (ascii e.key)) = some (text ini e) := by
  rw [text]
  cases hrefused : e.refused (view ini e.group e.key) with
  | true => exact Or.inl ⟨if_pos rfl, rfl⟩
  | false =>
    right
    rw [if_neg Bool.false_ne_true, view]
    cases hvalue : ini.value (normalise (ascii e.group)) (normalise (ascii e.key)) with
    | some value => rfl
    | none =>
      rw [view, hvalue, Option.getD_none, (allSettings_plain e he).2.2.2.2.2] at hrefused
      cases hrefused

variable {file : File}

theorem said_value {name key value : Bytes} (h : file.said.value name key = some value) :
    value ∈ valuesAt name key none file.lines ∧ trim value = value := by
  rw [File.said, readLines_value] at h
  have hmem := List.mem_of_getLast? h
  obtain ⟨line, -, k, hparse, -⟩ := exists_of_mem_valuesAt hmem
  exact ⟨hmem, (trim_of_keyValue hparse).2⟩

theorem trim_settings {name key value : Bytes}
    (h : (settings file.said).2.value name key = some value) : trim value = value := by
  rcases value_settings file.said name key with ⟨e, he, -, hvalue⟩ | ⟨-, hvalue⟩
  · rw [hvalue, Option.some.injEq] at h
    rcases text_cases he file.said with ⟨hdefault, -⟩ | hsaid
    · rw [← h, hdefault]
      exact (allSettings_plain e he).2.2.1
    · exact h ▸ (said_value hsaid).2
  · exact (said_value (hvalue ▸ h)).2

/-- What the constructor has looked up can be written over the file. -/
theorem settings_storable (hplain : Unescaped file) :
    Storable false (settings file.said).2 file := by
  have hchanged : ∀ name key value, (settings file.said).2.value name key = some value →
      file.said.value name key ≠ some value → ∃ e ∈ Server.allSettings, At e name key ∧
        value = e.default := by
    intro name key value hnew hold
    rcases value_settings file.said name key with ⟨e, he, hat, hvalue⟩ | ⟨-, hvalue⟩
    · refine ⟨e, he, hat, ?_⟩
      rw [hvalue, Option.some.injEq] at hnew
      rcases text_cases he file.said with ⟨hdefault, -⟩ | hsaid
      · rw [← hnew, hdefault]
      · rw [← hat.1, ← hat.2, hnew] at hsaid
        exact absurd hsaid hold
    · exact absurd (hvalue ▸ hnew) hold
  have hnew : ∀ name, (settings file.said).2.Names name → ¬ file.said.Names name →
      ∃ e ∈ Server.allSettings, name = normalise (ascii e.group) := by
    intro name hname hlack
    rw [settings_snd, foldl_settle_names] at hname
    exact hname.resolve_right hlack
  refine ⟨⟨?_, ?_, ?_⟩, ⟨?_, ?_, ?_⟩⟩
  · intro name key value outputValue hold hvalue hne
    refine ⟨hplain name key value (said_value hold).1, fun hopen => ?_⟩
    obtain ⟨e, he, hat, -⟩ := hchanged name key outputValue hvalue fun heq =>
      hne (Option.some.inj (hold.symm.trans heq))
    exact absurd (hat.2 ▸ hopen) (allSettings_plain e he).2.1.2.1
  · intro name key value hold hvalue
    obtain ⟨e, he, hat, hdefault⟩ := hchanged name key value hvalue fun heq => by
      rw [hold] at heq
      cases heq
    obtain ⟨-, ⟨hcomment, hopen, hescape, -⟩, -⟩ := allSettings_plain e he
    rw [hat.2]
    exact ⟨hcomment, fun _ => hescape, fun hhead => absurd hhead hopen⟩
  · intro name hname hlack
    obtain ⟨e, he, rfl⟩ := hnew name hname hlack
    exact (allSettings_plain e he).1.1
  · intro name key value hvalue hold
    obtain ⟨e, he, -, rfl⟩ := hchanged name key value hvalue hold
    obtain ⟨-, -, htrim, hfeed, hkept, -⟩ := allSettings_plain e he
    rw [htrim]
    exact ⟨hfeed, List.all_eq_true.mp hkept⟩
  · intro name key value hvalue hold
    obtain ⟨e, he, hat, -⟩ := hchanged name key value hvalue fun heq => by
      rw [hold] at heq
      cases heq
    obtain ⟨-, ⟨-, -, -, hfeed, hkept⟩, -⟩ := allSettings_plain e he
    rw [hat.2]
    exact ⟨hfeed, List.all_eq_true.mp hkept⟩
  · intro name hname hlack
    obtain ⟨e, he, rfl⟩ := hnew name hname hlack
    obtain ⟨⟨-, hfeed, hkept⟩, -⟩ := allSettings_plain e he
    exact ⟨hfeed, List.all_eq_true.mp hkept⟩

/-! ## Starting again -/

theorem configFile_ne_nil : configFile ≠ [] := by
  decide +kernel

/-- The structure that is written says what the settings are. -/
theorem text_of_written {ini back : INIStructure}
    (hback : ∀ name key, back.value name key = (settings ini).2.value name key) {e : Setting}
    (he : e ∈ Server.allSettings) : text back e = text ini e := by
  have hvalue : back.value (normalise (ascii e.group)) (normalise (ascii e.key)) =
      some (text ini e) := by
    rw [hback, settings_snd]
    exact foldl_settle_at allSettings_apart he ini
  have hview : view back e.group e.key = text ini e := by
    rw [view, hvalue, Option.getD_some]
  have haccepted : e.refused (text ini e) = false := by
    rw [text]
    split
    case isTrue => exact Server.default_accepted e he
    case isFalse hkept => exact Bool.eq_false_iff.mpr hkept
  rw [text, hview, haccepted, if_neg Bool.false_ne_true]

/-- Looking the settings up in it changes nothing. -/
theorem settings_of_written {ini back : INIStructure}
    (hback : ∀ name key, back.value name key = (settings ini).2.value name key)
    (hnames : ∀ name, back.Names name ↔ (settings ini).2.Names name) :
    (settings back).1 = (settings ini).1 ∧
      (∀ name key, (settings back).2.value name key = (settings ini).2.value name key) ∧
      ∀ name, (settings back).2.Names name ↔ (settings ini).2.Names name := by
  have hvalue : ∀ name key,
      (settings back).2.value name key = (settings ini).2.value name key := by
    intro name key
    rcases value_settings back name key with ⟨e, he, hat, hset⟩ | ⟨-, hset⟩
    · rw [hset, text_of_written hback he, hat.1, hat.2, settings_snd]
      exact (foldl_settle_at allSettings_apart he ini).symm
    · rw [hset, hback]
  have hsettled : ∀ e ∈ Server.allSettings,
      Server.allSettings.foldl Ini.settle (view back) e.group e.key =
        Server.allSettings.foldl Ini.settle (view ini) e.group e.key := by
    intro e he
    rw [Ini.foldl_settle_apply Server.allSettings_pairwise he,
      Ini.foldl_settle_apply Server.allSettings_pairwise he]
    exact text_of_written hback he
  have hview : view (settings back).2 = view (settings ini).2 := by
    funext group key
    rw [view, view, hvalue]
  refine ⟨?_, hvalue, fun name => ?_⟩
  · rw [settings_fst, settings_fst, hview, Server.settings_eq, Server.settings_eq]
    simp only [Server.allSettings, List.forall_mem_cons] at hsettled
    obtain ⟨hname, hversion, hprotocol, hport, hplayers, hpassword, hserverDB, hsalt, -⟩ := hsettled
    simp only [Server.allSettings, hname, hversion, hprotocol, hport, hplayers, hpassword,
      hserverDB, hsalt]
  · rw [settings_snd, foldl_settle_names, hnames, settings_snd, foldl_settle_names]
    exact ⟨fun hor => hor.elim Or.inl id, Or.inr⟩

variable {files : Files}

theorem read_configFile (hread : (files configFile).readable = true) :
    (INIFile.read files configFile INIMap.empty).2 = (files configFile).said := by
  cases hcontents : (files configFile).contents with
  | some bytes =>
    exact congrArg Prod.snd (INIFile.read_eq configFile_ne_nil hread hcontents INIMap.empty)
  | none =>
    have hsaid : (files configFile).said = INIMap.empty := by
      rw [File.said, File.lines, hcontents]
      rfl
    rw [hsaid, INIFile.read, if_neg configFile_ne_nil, File.open, hcontents]
    rfl

theorem start_eq (hread : (files configFile).readable = true) {files' : Files}
    (hwritten : INIFile.write false files configFile (settings (files configFile).said).2 =
      some (true, files')) : start files = some ((settings (files configFile).said).1, files') := by
  rw [start, read_configFile hread, hwritten]
  rfl

/-- A server that starts again has the same settings, and leaves every byte of the file as it
was. -/
theorem start_start (hread : (files configFile).readable = true)
    (hwrite : (files configFile).writable = true) (hplain : Unescaped (files configFile)) :
    ∃ settings files', start files = some (settings, files') ∧
      start files' = some (settings, files') := by
  have hstorable := settings_storable hplain
  obtain ⟨files', text, hwritten, -, hfile, -, -, hnames, hvalues⟩ :=
    INIFile.said_write configFile_ne_nil hread hwrite hstorable
  have hread' : (files' configFile).readable = true := by rw [hfile]
  have hvalues' : ∀ name key, (files' configFile).said.value name key =
      (settings (files configFile).said).2.value name key := by
    intro name key
    rw [hvalues]
    cases hvalue : (settings (files configFile).said).2.value name key with
    | none => rfl
    | some value => rw [Option.map_some, trim_settings hvalue]
  obtain ⟨hsettings, hdata, hnames'⟩ := settings_of_written hvalues' hnames
  have hdata' : ∀ name key, (settings (files' configFile).said).2.value name key =
      ((settings (files configFile).said).2.value name key).map trim := by
    intro name key
    rw [hdata, ← hvalues, hvalues']
  have hsecond := INIFile.write_same configFile_ne_nil hread hwrite hstorable
    (fun name key value _ v hv => Or.inr (hplain name key v hv)) hwritten hnames' hdata' false
  exact ⟨_, files', start_eq hread hwritten, hsettings ▸ start_eq hread' hsecond⟩

/-- A file with a port that is taken and a number that is refused. -/
theorem start_start_refused :
    let files : Files := fun _ =>
      ⟨some (ascii "; here\n[Server]\nPort = 1\nMaxPlayers=many\n[Other]\nKey=a"), true, true⟩
    ∃ settings files', start files = some (settings, files') ∧
      start files' = some (settings, files') :=
  start_start rfl rfl (unescaped_of_lines (by decide +kernel))

/-- The settings are the ones that the texts of the file give.  What the file says about any
other key, its comments and its mark stay, and the file says every setting now. -/
theorem start_settings (hread : (files configFile).readable = true)
    (hwrite : (files configFile).writable = true) (hplain : Unescaped (files configFile)) :
    ∃ written files', start files = some
        ({ Server.settings (view (files configFile).said) with written := written }, files') ∧
      (∀ other, other ≠ configFile → files' other = files other) ∧
      (files' configFile).mark = (files configFile).mark ∧
      comments (files' configFile).lines = comments (files configFile).lines ∧
      (∀ name key, (∀ e ∈ Server.allSettings, ¬ At e name key) →
        (files' configFile).said.value name key = (files configFile).said.value name key) ∧
      ∀ e ∈ Server.allSettings, written e.group e.key =
          (Server.settings (view (files configFile).said)).written e.group e.key ∧
        (files' configFile).said.value (normalise (ascii e.group)) (normalise (ascii e.key)) =
          some (written e.group e.key) := by
  obtain ⟨files', text, hwritten, hothers, -, hmark, hcomments, -, hvalues⟩ :=
    INIFile.said_write configFile_ne_nil hread hwrite (settings_storable hplain)
  have hstart := start_eq hread hwritten
  rw [settings_fst] at hstart
  refine ⟨_, files', hstart, hothers, hmark, hcomments, fun name key hnot => ?_, fun e he => ?_⟩
  · rcases value_settings (files configFile).said name key with ⟨e, he, hat, -⟩ | ⟨-, hvalue⟩
    · exact absurd hat (hnot e he)
    · rw [hvalues, hvalue]
      cases hsaid : (files configFile).said.value name key with
      | none => rfl
      | some value => rw [Option.map_some, (said_value hsaid).2]
  · have hvalue := foldl_settle_at allSettings_apart he (files configFile).said
    rw [← settings_snd] at hvalue
    rw [hvalues, hvalue, Option.map_some, trim_settings hvalue, view, hvalue, Option.getD_some,
      Server.settings_eq]
    exact ⟨(Ini.foldl_settle_apply Server.allSettings_pairwise he _).symm, rfl⟩

theorem start_settings_refused :
    let files : Files := fun _ =>
      ⟨some (ascii "; here\n[Server]\nPort = 1\nMaxPlayers=many\n[Other]\nKey=a"), true, true⟩
    ∃ written files', start files = some
        ({ Server.settings (view (files configFile).said) with written := written }, files') ∧
      (∀ other, other ≠ configFile → files' other = files other) ∧
      (files' configFile).mark = (files configFile).mark ∧
      comments (files' configFile).lines = comments (files configFile).lines ∧
      (∀ name key, (∀ e ∈ Server.allSettings, ¬ At e name key) →
        (files' configFile).said.value name key = (files configFile).said.value name key) ∧
      ∀ e ∈ Server.allSettings, written e.group e.key =
          (Server.settings (view (files configFile).said)).written e.group e.key ∧
        (files' configFile).said.value (normalise (ascii e.group)) (normalise (ascii e.key)) =
          some (written e.group e.key) := by
  intro files
  have hplain : Unescaped (files configFile) := unescaped_of_lines (by decide +kernel)
  exact @start_settings files rfl rfl hplain

end Startup
end WhiteSmo
