import WhiteSmo.Config.Parser

/-!
# A line with a new value

`INIWriter` keeps a line whose key has another value now up to where its value begins.
It looks for that place in the blanked line, so an escape sequence in front of the old
value is taken for white space and stays.
-/

namespace WhiteSmo
namespace MINI

/-- `line` up to its value, and the new value behind it. -/
def rewriteLine (prettyPrint : Bool) (line outputValue : Bytes) : Bytes :=
  let outputValue := trim outputValue
  let lineNorm := blank line
  -- `equalsAt + 1`, which is 0 behind `npos`
  let behind :=
    match lineNorm.findIdx? (· = equals) with
    | some equalsAt => equalsAt + 1
    | none => 0
  let valueAt := ((lineNorm.drop behind).findIdx? (!isDelimiter ·)).map (· + behind)
  let outputLine :=
    match valueAt with
    | some valueAt => line.take valueAt
    | none => line
  let outputLine :=
    if prettyPrint ∧ valueAt = some behind then outputLine ++ [space] else outputLine
  outputLine ++ outputValue

/-- The value begins with what `replace` blanks out. -/
def BeginsEscaped (value : Bytes) : Prop := [backslash, equals] <+: value

instance (value : Bytes) : Decidable (BeginsEscaped value) :=
  inferInstanceAs (Decidable ([backslash, equals] <+: value))

theorem content_append (body : Bytes) : ∃ comment, body = content body ++ comment ∧
    (comment = [] ∨ comment.head? = some semicolon) := by
  unfold content
  split
  case isFalse => exact ⟨[], (List.append_nil body).symm, Or.inl rfl⟩
  case isTrue =>
    rw [beforeComment_eq]
    refine ⟨body.dropWhile (· ≠ semicolon), List.takeWhile_append_dropWhile.symm, ?_⟩
    cases hdrop : body.dropWhile (· ≠ semicolon) with
    | nil => exact Or.inl rfl
    | cons c rest =>
      have hhead := List.head?_dropWhile_not (· ≠ semicolon) body
      rw [hdrop] at hhead
      right
      simpa using hhead

theorem content_prefix (body : Bytes) : content body <+: body := by
  obtain ⟨comment, hbody, -⟩ := content_append body
  exact ⟨comment, hbody.symm⟩

/-- The parts of a raw line with a key, `rest` being all that stands behind the sign. -/
structure Parts (line key value : Bytes) where
  lead : Bytes
  name : Bytes
  gap : Bytes
  rest : Bytes
  line_eq : line = lead ++ (name ++ (gap ++ equals :: rest))
  lead_delimiters : ∀ c ∈ lead, isDelimiter c = true
  gap_delimiters : ∀ c ∈ gap, isDelimiter c = true
  name_trim : trim name = name
  closed : Text.Closed backslash equals space name
  last : (name ++ gap).getLast? ≠ some backslash
  not_comment : name.head? ≠ some semicolon
  not_heading : name.head? = some openingBracket →
    ∀ c ∈ name ++ value, c ≠ semicolon ∧ c ≠ closingBracket
  key_eq : key = unescape name
  value_escaped : BeginsEscaped (rest.dropWhile isDelimiter) → BeginsEscaped value

theorem exists_parts {line key value : Bytes} (h : parseLine line = .keyValue key value) :
    Nonempty (Parts line key value) := by
  obtain ⟨pre, post, hentry, rfl, rfl⟩ := exists_entry h
  obtain ⟨lead, trail, hline, hlead, htrail⟩ := Text.exists_append_trim isDelimiter line
  obtain ⟨comment, hbody, hcomment⟩ := content_append (trim line)
  obtain ⟨before, gap, hpre, hbefore, hgap⟩ := Text.exists_append_trim isDelimiter pre
  have hsplit : trim line = pre ++ equals :: (post ++ comment) := by
    rw [hbody, hentry.content_eq, List.append_assoc, List.cons_append]
  have hheadOf : ∀ c ∈ pre.head?, (trim line).head? = some c := by
    intro c hc
    rw [hsplit]
    cases pre with
    | nil => cases hc
    | cons d pre => exact hc
  have hhead : ∀ c ∈ pre.head?, isDelimiter c = false :=
    fun c hc => (Text.trim_trimmed line).1 c (hheadOf c hc)
  have hnil : before = [] := by
    cases before with
    | nil => rfl
    | cons c before =>
      have hc := hhead c (by rw [hpre]; rfl)
      rw [hbefore c List.mem_cons_self] at hc
      cases hc
  rw [hnil, List.nil_append] at hpre
  have hname : ∀ c ∈ (trim pre).head?, (trim line).head? = some c := by
    intro c hc
    refine hheadOf c ?_
    rw [hpre]
    cases htrim : trim pre with
    | nil => rw [htrim] at hc; cases hc
    | cons d rest =>
      rw [htrim] at hc
      rw [show Text.trim isDelimiter pre = d :: rest from htrim]
      exact hc
  have hequals : equals ∉ gap := not_mem_delimiters rfl hgap
  refine ⟨⟨lead, trim pre, gap, post ++ (comment ++ trail), ?_, hlead, hgap, trim_trim pre, ?_, ?_,
    ?_, ?_, rfl, ?_⟩⟩
  · have hraw : line = lead ++ (trim line ++ trail) := hline
    rw [hsplit] at hraw
    conv_lhs => rw [hraw]
    conv_lhs => rw [hpre]
    simp only [List.append_assoc, List.cons_append]
    rfl
  · exact Text.Closed.of_append (by decide) hequals (hpre ▸ hentry.closed)
  · have hlast := hentry.last
    rw [hpre] at hlast
    exact hlast
  · exact fun hsemi => hentry.not_comment (hname _ hsemi)
  · intro hopen c hc
    have hhead := hname _ hopen
    have hmem : c ∈ content (trim line) := by
      rw [hentry.content_eq]
      rcases List.mem_append.mp hc with hc | hc
      · exact List.mem_append_left _ (Text.mem_of_mem_trim hc)
      · exact List.mem_append_right _ (List.mem_cons_of_mem _ (Text.mem_of_mem_trim hc))
    constructor
    · rintro rfl
      rw [content, if_pos hhead] at hmem
      exact not_mem_beforeComment _ hmem
    · rintro rfl
      exact hentry.not_heading hhead hmem
  · refine Text.prefix_trim rfl rfl ?_ ?_
    · rcases hcomment with rfl | hsemi
      · rw [List.nil_append, List.dropWhile_eq_nil_iff.mpr htrail]
        exact fun h => by cases h
      · cases comment with
        | nil => cases hsemi
        | cons c comment =>
          cases hsemi
          rw [List.cons_append, List.dropWhile_cons_of_neg (by decide)]
          exact fun h => by cases h
    · rcases hcomment with rfl | hsemi
      · intro h
        have hequals := htrail equals (List.mem_of_mem_head? h)
        cases hequals
      · cases comment with
        | nil => cases hsemi
        | cons c comment =>
          cases hsemi
          exact fun h => by cases h

theorem Parts.closed_front {line key value : Bytes} (p : Parts line key value) :
    Text.Closed backslash equals space (p.lead ++ (p.name ++ p.gap)) ∧
      (p.lead ++ (p.name ++ p.gap)).getLast? ≠ some backslash := by
  have hlead : p.lead.getLast? ≠ some backslash := by
    intro hlast
    have hbackslash := p.lead_delimiters backslash (List.mem_of_getLast? hlast)
    cases hbackslash
  constructor
  · refine Text.Closed.prepend (by decide) (not_mem_delimiters rfl p.lead_delimiters) hlead ?_
    exact p.closed.append (by decide) (not_mem_delimiters rfl p.gap_delimiters)
  · by_cases hnil : p.name ++ p.gap = []
    · rw [hnil, List.append_nil]
      exact hlead
    · rw [List.getLast?_append_of_ne_nil _ hnil]
      exact p.last

/-- What is written: the line up to its sign, letters that were passed over, and the value. -/
theorem rewriteLine_eq {line key value : Bytes} (p : Parts line key value) (prettyPrint : Bool)
    (outputValue : Bytes) : ∃ mid,
      rewriteLine prettyPrint line outputValue =
        p.lead ++ (p.name ++ (p.gap ++ equals :: (mid ++ trim outputValue))) ∧
      (∀ c ∈ mid, isDelimiter c = true ∨ c = backslash ∨ c = equals) ∧
      (¬ BeginsEscaped value → ∀ c ∈ mid, isDelimiter c = true) ∧
      (∀ c ∈ mid, c ∈ p.rest ∨ c = space) := by
  obtain ⟨hclosed, hlast⟩ := p.closed_front
  obtain ⟨gap, tail, hrest, hlength, hgap, hplain⟩ :=
    Text.exists_gap (x := backslash) (y := equals) (z := space) (p := isDelimiter) rfl rfl p.rest
  have hsplain : ¬ BeginsEscaped value → ∀ c ∈ gap, isDelimiter c = true :=
    fun hescaped => hplain fun hprefix => hescaped (p.value_escaped hprefix)
  have hgapRest : ∀ c ∈ gap, c ∈ p.rest := fun c hc => by
    rw [hrest]
    exact List.mem_append_left _ hc
  generalize hfront : p.lead ++ (p.name ++ p.gap) = front at hclosed hlast
  have hline : line = front ++ equals :: p.rest :=
    p.line_eq.trans (by simp only [← hfront, List.append_assoc])
  have hfind : (blank line).findIdx? (· = equals) = some front.length := by
    rw [congrArg blank hline]
    exact Text.findIdx?_free (by decide) hclosed hlast
  have hdrop : (blank line).drop (front.length + 1) = blank p.rest := by
    have hfree : blank line = blank front ++ equals :: blank p.rest :=
      (congrArg blank hline).trans (Text.blank_free (by decide) hlast _)
    have hfrontLength : front.length = (blank front).length := (Text.length_blank front).symm
    rw [hfree, hfrontLength, ← List.drop_drop, List.drop_left, List.drop_one, List.tail_cons]
  have hout : ∀ mid : Bytes, front ++ equals :: (mid ++ trim outputValue) =
      p.lead ++ (p.name ++ (p.gap ++ equals :: (mid ++ trim outputValue))) := by
    intro mid
    rw [← hfront]
    simp only [List.append_assoc]
  unfold rewriteLine
  dsimp only
  rw [hfind]
  dsimp only
  rw [hdrop]
  change ((blank p.rest).findIdx? (!isDelimiter ·)).getD p.rest.length = gap.length at hlength
  cases hvalue : (blank p.rest).findIdx? (!isDelimiter ·) with
  | none =>
    rw [hvalue, Option.getD_none, hrest, List.length_append] at hlength
    have htail : tail = [] := List.length_eq_zero_iff.mp (by omega)
    refine ⟨gap, ?_, hgap, hsplain, fun c hc => Or.inl (hgapRest c hc)⟩
    rw [htail, List.append_nil] at hrest
    have hkeep : line = front ++ equals :: gap := hrest ▸ hline
    rw [← hout, ← List.cons_append, ← List.append_assoc, ← hkeep]
    simp
  | some i =>
    rw [hvalue, Option.getD_some] at hlength
    have htake : line.take (i + (front.length + 1)) = front ++ equals :: gap := by
      have hline' : line = (front ++ equals :: gap) ++ tail := by
        rw [hline, hrest, List.append_assoc, List.cons_append]
      rw [hline', List.take_left']
      simp only [List.length_append, List.length_cons]
      omega
    simp only [Option.map_some, htake]
    split
    case isTrue =>
      refine ⟨gap ++ [space], ?_, ?_, ?_, ?_⟩
      · rw [← hout]
        simp only [List.append_assoc, List.cons_append]
      · intro c hc
        rcases List.mem_append.mp hc with hc | hc
        · exact hgap c hc
        · rw [List.mem_singleton.mp hc]
          exact Or.inl rfl
      · intro hescaped c hc
        rcases List.mem_append.mp hc with hc | hc
        · exact hsplain hescaped c hc
        · rw [List.mem_singleton.mp hc]
          rfl
      · intro c hc
        rcases List.mem_append.mp hc with hc | hc
        · exact Or.inl (hgapRest c hc)
        · exact Or.inr (List.mem_singleton.mp hc)
    case isFalse =>
      refine ⟨gap, ?_, hgap, hsplain, fun c hc => Or.inl (hgapRest c hc)⟩
      rw [← hout, List.append_assoc, List.cons_append]

/-- A rewritten line still has its key.  Its value is the new one unless the old one began
with an escape sequence. -/
theorem parseLine_rewriteLine {line key value : Bytes} (h : parseLine line = .keyValue key value)
    (prettyPrint : Bool) (outputValue : Bytes)
    (hplain : key.head? = some openingBracket →
      ∀ c ∈ trim outputValue, c ≠ semicolon ∧ c ≠ closingBracket) :
    ∃ value', parseLine (rewriteLine prettyPrint line outputValue) = .keyValue key value' ∧
      (¬ BeginsEscaped value → value' = trim outputValue) := by
  obtain ⟨p⟩ := exists_parts h
  obtain ⟨mid, hline, hmid, hdelimiters, -⟩ := rewriteLine_eq p prettyPrint outputValue
  have hopen : p.name.head? = some openingBracket → key.head? = some openingBracket := by
    intro hhead
    cases hname : p.name with
    | nil => rw [hname] at hhead; cases hhead
    | cons c name =>
      rw [hname] at hhead
      cases hhead
      have hskip : ¬ Text.Opens backslash equals openingBracket name := fun h => by cases h.1
      rw [p.key_eq, hname, unescape, Text.replace_of_not_opens hskip, List.head?_cons]
  have hheading : p.name.head? = some openingBracket →
      ∀ c ∈ p.name ++ (mid ++ trim outputValue), c ≠ semicolon ∧ c ≠ closingBracket := by
    intro hhead c hc
    rw [List.mem_append, List.mem_append] at hc
    rcases hc with hc | hc | hc
    · exact p.not_heading hhead c (List.mem_append_left _ hc)
    · rcases hmid c hc with hdelimiter | rfl | rfl
      · constructor <;> rintro rfl <;> cases hdelimiter
      · exact ⟨by decide, by decide⟩
      · exact ⟨by decide, by decide⟩
    · exact hplain (hopen hhead) c hc
  refine ⟨trim (mid ++ trim outputValue), ?_, ?_⟩
  · rw [hline, congrArg PDataType.keyValue p.key_eq]
    exact parseLine_of_parts p.lead_delimiters p.gap_delimiters p.name_trim p.closed p.last
      p.not_comment hheading
  · intro hescaped
    exact (Text.trim_append_left (hdelimiters hescaped)).trans (Text.trim_trim outputValue)

end MINI
end WhiteSmo
