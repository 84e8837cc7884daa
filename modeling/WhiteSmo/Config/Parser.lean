import WhiteSmo.Library.Text
import WhiteSmo.Server.Data

/-!
# One line of a settings file

`INIStringUtil` and `INIParser` of mINI.  A line is blank, a comment, the head of a
section, a key with its value, or nothing of these.  In a key the sign `=` is written
with a backslash in front of it.
-/

namespace WhiteSmo
namespace MINI

/-! ## `INIStringUtil` -/

abbrev semicolon : UInt8 := 59
abbrev equals : UInt8 := 61
abbrev openingBracket : UInt8 := 91
abbrev backslash : UInt8 := 92
abbrev closingBracket : UInt8 := 93
abbrev space : UInt8 := 32

/-- `" \t\n\r\f\v"` -/
def whitespaceDelimiters : Bytes := [32, 9, 10, 13, 12, 11]

def isDelimiter (c : UInt8) : Bool := whitespaceDelimiters.contains c

def trim (str : Bytes) : Bytes := Text.trim isDelimiter str

/-- `std::tolower` in the "C" locale. -/
def tolower (c : UInt8) : UInt8 := if 65 ≤ c ∧ c ≤ 90 then c + 32 else c

def toLower (str : Bytes) : Bytes := str.map tolower

/-- `replace(str, "=", "\\=")` -/
def escape (key : Bytes) : Bytes := Text.replace [equals] [backslash, equals] key

/-- `replace(str, "\\=", "=")` -/
def unescape (key : Bytes) : Bytes := Text.replace [backslash, equals] [equals] key

/-- `replace(str, "\\=", "  ")` -/
def blank (line : Bytes) : Bytes := Text.replace [backslash, equals] [space, space] line

def endl : Bytes := [10]

/-! ## `INIParser` -/

/-- `PDataType` with what `parseData` is set to. -/
inductive PDataType
  | none
  | comment
  | heading (name : Bytes)
  | keyValue (key value : Bytes)
  | unknown
  deriving DecidableEq

/-- `str.find_last_of(c)` -/
def findLastOf (c : UInt8) : Bytes → Option Nat
  | [] => Option.none
  | d :: str =>
    match findLastOf c str with
    | some i => some (i + 1)
    | Option.none => if d = c then some 0 else Option.none

/-- `line.substr(0, commentAt)`, where there is a semicolon. -/
def beforeComment (line : Bytes) : Bytes :=
  match line.findIdx? (· = semicolon) with
  | some commentAt => line.take commentAt
  | Option.none => line

/-- The end of `parseLine`: a key and a value around the first free `=`. -/
def parseKeyValue (line : Bytes) : PDataType :=
  match (blank line).findIdx? (· = equals) with
  | some equalsAt =>
    .keyValue (unescape (trim (line.take equalsAt))) (trim (line.drop (equalsAt + 1)))
  | Option.none => .unknown

def parseLine (line : Bytes) : PDataType :=
  let line := trim line
  match line.head? with
  | Option.none => .none
  | some firstCharacter =>
    if firstCharacter = semicolon then .comment
    else if firstCharacter = openingBracket then
      -- what follows a semicolon stays cut off when no bracket closes
      let line := beforeComment line
      match findLastOf closingBracket line with
      | some closingBracketAt => .heading (trim ((line.drop 1).take (closingBracketAt - 1)))
      | Option.none => parseKeyValue line
    else parseKeyValue line

/-! ## Where the signs stand -/

theorem findLastOf_eq_none_iff {c : UInt8} {str : Bytes} :
    findLastOf c str = Option.none ↔ c ∉ str := by
  induction str with
  | nil => simp [findLastOf]
  | cons d str ih =>
    rw [findLastOf, List.mem_cons, not_or, ← ih]
    cases findLastOf c str with
    | some i => simp
    | none =>
      dsimp only
      split
      case isTrue h => simp [h]
      case isFalse h => simp [Ne.symm h]

theorem findLastOf_append {c : UInt8} {str : Bytes} (lead : Bytes) (h : c ∉ str) :
    findLastOf c (lead ++ c :: str) = some lead.length := by
  induction lead with
  | nil =>
    rw [List.nil_append, findLastOf, findLastOf_eq_none_iff.mpr h]
    simp
  | cons d lead ih =>
    rw [List.cons_append, findLastOf, ih]
    rfl

theorem beforeComment_eq (line : Bytes) :
    beforeComment line = line.takeWhile (· ≠ semicolon) := by
  have htake : line.takeWhile (· ≠ semicolon) = line.take (line.findIdx (· = semicolon)) := by
    rw [List.takeWhile_eq_take_findIdx_not]
    simp
  rw [htake, beforeComment]
  cases hfind : line.findIdx? (· = semicolon) with
  | none => rw [List.findIdx_eq_length.mpr (List.findIdx?_eq_none_iff.mp hfind), List.take_length]
  | some i => rw [(List.findIdx?_eq_some_iff_findIdx_eq.mp hfind).2]

theorem beforeComment_of_not_mem {line : Bytes} (h : semicolon ∉ line) :
    beforeComment line = line := by
  rw [beforeComment_eq, List.takeWhile_eq_self_iff]
  intro c hc
  exact decide_eq_true fun heq => h (heq ▸ hc)

theorem not_mem_beforeComment (line : Bytes) : semicolon ∉ beforeComment line := by
  rw [beforeComment_eq]
  intro hmem
  have hne := List.mem_takeWhile_imp hmem
  simp at hne

/-! ## Letters -/

theorem isDelimiter_of_le {c : UInt8} (h : 33 ≤ c.toNat) : isDelimiter c = false := by
  rw [isDelimiter, List.contains_eq_mem, decide_eq_false_iff_not]
  intro hmem
  simp only [whitespaceDelimiters, List.mem_cons, List.not_mem_nil, or_false] at hmem
  rcases hmem with rfl | rfl | rfl | rfl | rfl | rfl <;> exact absurd h (by decide)

theorem toNat_tolower (c : UInt8) : (tolower c).toNat =
    if 65 ≤ c.toNat ∧ c.toNat ≤ 90 then c.toNat + 32 else c.toNat := by
  have hiff : (65 ≤ c ∧ c ≤ 90) ↔ (65 ≤ c.toNat ∧ c.toNat ≤ 90) := by
    rw [UInt8.le_iff_toNat_le, UInt8.le_iff_toNat_le]
    rfl
  by_cases h : 65 ≤ c.toNat ∧ c.toNat ≤ 90
  · rw [tolower, if_pos (hiff.mpr h), if_pos h, UInt8.toNat_add]
    show (c.toNat + 32) % 256 = _
    omega
  · rw [tolower, if_neg fun hc => h (hiff.mp hc), if_neg h]

theorem tolower_tolower (c : UInt8) : tolower (tolower c) = tolower c := by
  have honce := toNat_tolower c
  have htwice := toNat_tolower (tolower c)
  rw [← UInt8.toNat_inj]
  split at honce <;> split at htwice <;> omega

theorem isDelimiter_tolower (c : UInt8) : isDelimiter (tolower c) = isDelimiter c := by
  have htoNat := toNat_tolower c
  split at htoNat
  case isTrue h =>
    rw [isDelimiter_of_le (c := c) (by omega), isDelimiter_of_le (c := tolower c) (by omega)]
  case isFalse h => rw [UInt8.toNat_inj.mp htoNat]

theorem trim_toLower (str : Bytes) : trim (toLower str) = toLower (trim str) :=
  Text.trim_map isDelimiter_tolower str

@[simp]
theorem trim_trim (str : Bytes) : trim (trim str) = trim str := Text.trim_trim str

theorem toLower_toLower (str : Bytes) : toLower (toLower str) = toLower str := by
  rw [toLower, toLower, List.map_map]
  exact List.map_congr_left fun c _ => tolower_tolower c

theorem trim_space_append (str : Bytes) : trim (space :: str) = trim str :=
  Text.trim_append_left (t := [space]) (by simp [isDelimiter, whitespaceDelimiters])

/-! ## What a line has to be to hold a key -/

/-- The part of a trimmed line in which the key and the value stand. -/
def content (body : Bytes) : Bytes :=
  if body.head? = some openingBracket then beforeComment body else body

/-- The texts around the first free `=` of a line that is neither a comment nor the
head of a section. -/
structure Entry (line pre post : Bytes) : Prop where
  content_eq : content (trim line) = pre ++ equals :: post
  closed : Text.Closed backslash equals space pre
  last : pre.getLast? ≠ some backslash
  not_comment : (trim line).head? ≠ some semicolon
  not_heading : (trim line).head? = some openingBracket → closingBracket ∉ content (trim line)

theorem parseKeyValue_free {line pre post : Bytes} (h : line = pre ++ equals :: post)
    (hclosed : Text.Closed backslash equals space pre) (hlast : pre.getLast? ≠ some backslash) :
    parseKeyValue line = .keyValue (unescape (trim pre)) (trim post) := by
  have hfind : (blank line).findIdx? (· = equals) = some pre.length := by
    rw [h]
    exact Text.findIdx?_free (by decide) hclosed hlast
  rw [parseKeyValue, hfind, h]
  simp

theorem parseKeyValue_closed {line : Bytes} (hclosed : Text.Closed backslash equals space line) :
    parseKeyValue line = .unknown := by
  have hfind : (blank line).findIdx? (· = equals) = Option.none := Text.findIdx?_closed hclosed
  rw [parseKeyValue, hfind]

/-- A trimmed line that is no comment and no head of a section. -/
theorem parseLine_eq_parseKeyValue {line : Bytes} (hne : trim line ≠ [])
    (hcomment : (trim line).head? ≠ some semicolon)
    (hheading : (trim line).head? = some openingBracket →
      closingBracket ∉ content (trim line)) :
    parseLine line = parseKeyValue (content (trim line)) := by
  cases hbody : trim line with
  | nil => exact absurd hbody hne
  | cons c body =>
    rw [hbody] at hcomment hheading
    have hc : c ≠ semicolon := fun heq => hcomment (congrArg some heq)
    rw [parseLine, hbody]
    simp only [List.head?_cons, if_neg hc]
    by_cases hopen : c = openingBracket
    · have hcontent : content (c :: body) = beforeComment (c :: body) :=
        if_pos (congrArg some hopen)
      have hclosing := hheading (congrArg some hopen)
      rw [hcontent] at hclosing
      rw [if_pos hopen, findLastOf_eq_none_iff.mpr hclosing, hcontent]
    · have hcontent : content (c :: body) = c :: body :=
        if_neg fun heq => hopen (Option.some.inj heq)
      rw [if_neg hopen, hcontent]

theorem Entry.parseLine {line pre post : Bytes} (h : Entry line pre post) :
    parseLine line = .keyValue (unescape (trim pre)) (trim post) := by
  have hne : trim line ≠ [] := by
    intro hnil
    have hcontent := h.content_eq
    rw [hnil] at hcontent
    cases pre <;> cases hcontent
  rw [parseLine_eq_parseKeyValue hne h.not_comment h.not_heading]
  exact parseKeyValue_free h.content_eq h.closed h.last

theorem exists_entry {line key value : Bytes} (h : parseLine line = .keyValue key value) :
    ∃ pre post, Entry line pre post ∧ key = unescape (trim pre) ∧ value = trim post := by
  have hne : trim line ≠ [] := by
    intro hnil
    rw [MINI.parseLine, hnil] at h
    cases h
  have hcomment : (trim line).head? ≠ some semicolon := by
    intro hhead
    rw [MINI.parseLine, hhead] at h
    cases h
  have hheading : (trim line).head? = some openingBracket →
      closingBracket ∉ content (trim line) := by
    intro hhead hmem
    rw [content, if_pos hhead] at hmem
    rw [MINI.parseLine, hhead] at h
    have hopen : openingBracket ≠ semicolon := by decide
    simp only [if_neg hopen, if_true] at h
    cases hfind : findLastOf closingBracket (beforeComment (trim line)) with
    | none => exact findLastOf_eq_none_iff.mp hfind hmem
    | some i => rw [hfind] at h; cases h
  rw [parseLine_eq_parseKeyValue hne hcomment hheading] at h
  by_cases hclosed : Text.Closed backslash equals space (content (trim line))
  · rw [parseKeyValue_closed hclosed] at h
    cases h
  · obtain ⟨pre, post, hsplit, hpre, hlast⟩ := Text.exists_free (by decide) (by decide) hclosed
    rw [parseKeyValue_free hsplit hpre hlast] at h
    cases h
    exact ⟨pre, post, ⟨hsplit, hpre, hlast, hcomment, hheading⟩, rfl, rfl⟩

theorem trimmed_of_trim {str : Bytes} (h : trim str = str) : Text.Trimmed isDelimiter str :=
  Text.trimmed_iff.mpr h

theorem not_mem_delimiters {gap : Bytes} {c : UInt8} (hc : isDelimiter c = false)
    (hgap : ∀ d ∈ gap, isDelimiter d = true) : c ∉ gap := by
  intro hmem
  rw [hgap c hmem] at hc
  cases hc

/-- A key between white space, and a value behind the sign. -/
theorem parseLine_of_parts {lead key gap post : Bytes} (hlead : ∀ c ∈ lead, isDelimiter c = true)
    (hgap : ∀ c ∈ gap, isDelimiter c = true) (hkey : trim key = key)
    (hclosed : Text.Closed backslash equals space key)
    (hlast : (key ++ gap).getLast? ≠ some backslash) (hcomment : key.head? ≠ some semicolon)
    (hheading : key.head? = some openingBracket →
      ∀ c ∈ key ++ post, c ≠ semicolon ∧ c ≠ closingBracket) :
    parseLine (lead ++ (key ++ (gap ++ equals :: post))) =
      .keyValue (unescape key) (trim post) := by
  have hequals : equals ∉ gap := not_mem_delimiters rfl hgap
  -- white space in front of the sign is part of the text unless there is no key at all
  obtain ⟨pre, hbody, hpre, hpreClosed, hpreLast, hhead, hmem⟩ : ∃ pre,
      trim (lead ++ (key ++ (gap ++ equals :: post))) =
        pre ++ equals :: post.rdropWhile isDelimiter ∧
      trim pre = key ∧ Text.Closed backslash equals space pre ∧ pre.getLast? ≠ some backslash ∧
      (pre ++ [equals]).head? = (key ++ [equals]).head? ∧ ∀ c ∈ pre, c ∈ key ∨ c ∈ gap := by
    have htrim : trim (lead ++ (key ++ (gap ++ equals :: post))) =
        trim (key ++ (gap ++ equals :: post)) := Text.trim_append_left hlead
    by_cases hnil : key = []
    · subst hnil
      refine ⟨[], ?_, rfl, hclosed, by simp, rfl, by simp⟩
      have hnone : ∀ c ∈ ([] : Bytes).head?, isDelimiter c = false := fun c hc => by cases hc
      rw [htrim, List.nil_append]
      exact (Text.trim_append_left hgap).trans (Text.trim_append_cons hnone rfl post)
    · refine ⟨key ++ gap, ?_, ?_, hclosed.append (by decide) hequals, hlast, ?_, ?_⟩
      · rw [htrim, ← List.append_assoc]
        refine Text.trim_append_cons ?_ rfl post
        rw [List.head?_append_of_ne_nil _ hnil]
        exact (trimmed_of_trim hkey).1
      · exact (Text.trim_append_right hgap).trans hkey
      · rw [List.append_assoc, List.head?_append_of_ne_nil _ hnil,
          List.head?_append_of_ne_nil _ hnil]
      · exact fun c hc => List.mem_append.mp hc
  have hkeyHead : ∀ c : UInt8, c ≠ equals →
      (pre ++ equals :: post.rdropWhile isDelimiter).head? = some c → key.head? = some c := by
    intro c hc hsome
    have hfirst : (pre ++ equals :: post.rdropWhile isDelimiter).head? =
        (pre ++ [equals]).head? := by cases pre <;> rfl
    rw [hfirst, hhead] at hsome
    cases key with
    | nil => exact absurd (Option.some.inj hsome).symm hc
    | cons d key => exact hsome
  have hplain : key.head? = some openingBracket →
      ∀ c ∈ pre ++ equals :: post.rdropWhile isDelimiter, c ≠ semicolon ∧ c ≠ closingBracket := by
    intro hopen c hc
    have hall := hheading hopen
    rcases List.mem_append.mp hc with hc | hc
    · rcases hmem c hc with hc | hc
      · exact hall c (List.mem_append_left _ hc)
      · have hdelimiter := hgap c hc
        constructor <;> rintro rfl <;> cases hdelimiter
    · rcases List.mem_cons.mp hc with rfl | hc
      · exact ⟨by decide, by decide⟩
      · exact hall c (List.mem_append_right _ ((List.rdropWhile_prefix _ _).subset hc))
  have hentry : Entry (lead ++ (key ++ (gap ++ equals :: post))) pre
      (post.rdropWhile isDelimiter) := by
    have hcontent : content (trim (lead ++ (key ++ (gap ++ equals :: post)))) =
        pre ++ equals :: post.rdropWhile isDelimiter := by
      rw [hbody, content]
      split
      case isTrue hopen =>
        have hkeyOpen := hkeyHead _ (by decide) hopen
        exact beforeComment_of_not_mem fun hsemi => (hplain hkeyOpen _ hsemi).1 rfl
      case isFalse => rfl
    refine ⟨hcontent, hpreClosed, hpreLast, ?_, ?_⟩
    · rw [hbody]
      exact fun hsemi => hcomment (hkeyHead _ (by decide) hsemi)
    · rw [hcontent, hbody]
      intro hopen hclosing
      exact (hplain (hkeyHead _ (by decide) hopen) _ hclosing).2 rfl
  rw [hentry.parseLine, hpre]
  exact congrArg _ (Text.trim_rdropWhile post)

/-- The head of a section as mINI writes it. -/
theorem parseLine_heading {name : Bytes} (htrim : trim name = name) (h : semicolon ∉ name) :
    parseLine (openingBracket :: (name ++ [closingBracket])) = .heading name := by
  have hbody : trim (openingBracket :: (name ++ [closingBracket])) =
      openingBracket :: (name ++ [closingBracket]) := by
    refine Text.trim_of_trimmed ⟨?_, ?_⟩
    · rintro a ⟨⟩
      rfl
    · intro a ha
      rw [List.getLast?_cons, List.getLast?_concat] at ha
      cases ha
      rfl
  have hline : beforeComment (openingBracket :: (name ++ [closingBracket])) =
      openingBracket :: (name ++ [closingBracket]) := by
    refine beforeComment_of_not_mem ?_
    rw [List.mem_cons, List.mem_append, List.mem_singleton, not_or, not_or]
    exact ⟨by decide, h, by decide⟩
  have hlast : findLastOf closingBracket (openingBracket :: (name ++ [closingBracket])) =
      some (name.length + 1) :=
    findLastOf_append (openingBracket :: name) List.not_mem_nil
  have hopen : openingBracket ≠ semicolon := by decide
  rw [parseLine, hbody, List.head?_cons]
  simp only [if_neg hopen, if_true, hline, hlast]
  simp [htrim]

end MINI
end WhiteSmo
