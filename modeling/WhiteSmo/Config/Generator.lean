import WhiteSmo.Config.Reader

/-!
# `INIGenerator`

A structure is written as one section below the other.  What can be read back depends on
the keys: mINI escapes the sign `=` in them, but nothing else.
-/

namespace WhiteSmo
namespace MINI

/-! ## Lines of its own -/

/-- `"[" + section + "]"` -/
def headingLine (name : Bytes) : Bytes := openingBracket :: (name ++ [closingBracket])

/-- `key + (prettyPrint ? " = " : "=") + value`, behind `replace` and `trim`. -/
def entryLine (prettyPrint : Bool) (key value : Bytes) : Bytes :=
  escape key ++ (if prettyPrint then ascii " = " else ascii "=") ++ trim value

/-- A key and a value whose line is read as nothing else. -/
structure Plain (prettyPrint : Bool) (key value : Bytes) : Prop where
  not_comment : key.head? ≠ some semicolon
  not_escape : prettyPrint = false → key.getLast? ≠ some backslash
  not_heading : key.head? = some openingBracket →
    ∀ c ∈ key ++ value, c ≠ semicolon ∧ c ≠ closingBracket

instance (prettyPrint : Bool) (key value : Bytes) : Decidable (Plain prettyPrint key value) :=
  decidable_of_iff (key.head? ≠ some semicolon ∧
      (prettyPrint = false → key.getLast? ≠ some backslash) ∧
      (key.head? = some openingBracket →
        (key ++ value).all (fun c => c != semicolon && c != closingBracket) = true))
    (by simp only [List.all_eq_true, Bool.and_eq_true, bne_iff_ne]
        exact ⟨fun h => ⟨h.1, h.2.1, h.2.2⟩,
          fun h => ⟨h.not_comment, h.not_escape, h.not_heading⟩⟩)

theorem trim_escape {key : Bytes} (h : trim key = key) : trim (escape key) = escape key := by
  have hkey := trimmed_of_trim h
  refine Text.trim_of_trimmed ⟨?_, ?_⟩
  · cases key with
    | nil => intro c hc; cases hc
    | cons c key =>
      intro d hd
      rw [escape, Text.escape_cons] at hd
      split at hd
      case isTrue => cases hd; rfl
      case isFalse => exact hkey.1 d hd
  · intro c hc
    rw [escape, Text.getLast?_escape] at hc
    exact hkey.2 c hc

theorem mem_of_mem_escape {key : Bytes} {c : UInt8} (h : c ∈ escape key) :
    c ∈ key ∨ c = backslash := by
  rw [escape, Text.replace_single, List.mem_flatMap] at h
  obtain ⟨d, hd, hc⟩ := h
  split at hc
  case isTrue heq =>
    rcases List.mem_cons.mp hc with rfl | hc
    · exact Or.inr rfl
    · rw [List.mem_singleton.mp hc, ← heq]
      exact Or.inl hd
  case isFalse =>
    rw [List.mem_singleton.mp hc]
    exact Or.inl hd

theorem head?_escape {key : Bytes} {c : UInt8} (h : (escape key).head? = some c)
    (hc : c ≠ backslash) : key.head? = some c := by
  cases key with
  | nil => cases h
  | cons d key =>
    rw [escape, Text.escape_cons] at h
    split at h
    case isTrue => exact absurd (Option.some.inj h).symm hc
    case isFalse => exact h

/-- What is written for a key is read as the key and its value. -/
theorem parseLine_entryLine {prettyPrint : Bool} {key value : Bytes} (hkey : trim key = key)
    (h : Plain prettyPrint key (trim value)) :
    parseLine (entryLine prettyPrint key value) = .keyValue key (trim value) := by
  have hclosed : Text.Closed backslash equals space (escape key) :=
    Text.closed_escape (by decide) (by decide) key
  have hcomment : (escape key).head? ≠ some semicolon :=
    fun hhead => h.not_comment (head?_escape hhead (by decide))
  have hplain : ∀ gap : Bytes, (∀ c ∈ gap, isDelimiter c = true) →
      (escape key).head? = some openingBracket →
      ∀ c ∈ escape key ++ (gap ++ trim value), c ≠ semicolon ∧ c ≠ closingBracket := by
    intro gap hgap hopen c hc
    have hall := h.not_heading (head?_escape hopen (by decide))
    rw [List.mem_append, List.mem_append] at hc
    rcases hc with hc | hc | hc
    · rcases mem_of_mem_escape hc with hc | rfl
      · exact hall c (List.mem_append_left _ hc)
      · exact ⟨by decide, by decide⟩
    · have hdelimiter := hgap c hc
      constructor <;> rintro rfl <;> cases hdelimiter
    · exact hall c (List.mem_append_right _ hc)
  have hunescape : unescape (escape key) = key := Text.unescape_escape (by decide) key
  have hnil : ∀ c ∈ ([] : Bytes), isDelimiter c = true := fun _ hmem => absurd hmem List.not_mem_nil
  have hspace : ∀ c ∈ [space], isDelimiter c = true := fun c hc => by
    rw [List.mem_singleton.mp hc]
    rfl
  cases prettyPrint with
  | false =>
    have hlast : (escape key ++ []).getLast? ≠ some backslash := by
      rw [List.append_nil, escape, Text.getLast?_escape]
      exact h.not_escape rfl
    have hline : entryLine false key value =
        [] ++ (escape key ++ ([] ++ equals :: ([] ++ trim value))) := by
      rw [entryLine, List.append_assoc]
      rfl
    rw [hline, parseLine_of_parts hnil hnil (trim_escape hkey) hclosed hlast hcomment
      (hplain [] hnil), hunescape, List.nil_append, trim_trim]
  | true =>
    have hlast : (escape key ++ [space]).getLast? ≠ some backslash := by
      rw [List.getLast?_concat]
      decide
    have hline : entryLine true key value =
        [] ++ (escape key ++ ([space] ++ equals :: ([space] ++ trim value))) := by
      rw [entryLine, List.append_assoc]
      rfl
    rw [hline, parseLine_of_parts hnil hspace (trim_escape hkey) hclosed hlast hcomment
      (hplain [space] hspace), hunescape, List.singleton_append, trim_space_append, trim_trim]

/-! ## `operator<<` -/

/-- The loop over a collection. -/
def writeCollection (prettyPrint : Bool) : List (Bytes × Bytes) → Bytes
  | [] => []
  | [it2] => entryLine prettyPrint it2.1 it2.2
  | it2 :: next :: rest =>
    entryLine prettyPrint it2.1 it2.2 ++ endl ++ writeCollection prettyPrint (next :: rest)

def writeSection (prettyPrint : Bool) (it : Bytes × INIMap Bytes) : Bytes :=
  headingLine it.1 ++ if it.2.size ≠ 0 then endl ++ writeCollection prettyPrint it.2.data else []

/-- The loop over the sections. -/
def writeSections (prettyPrint : Bool) : List (Bytes × INIMap Bytes) → Bytes
  | [] => []
  | [it] => writeSection prettyPrint it
  | it :: next :: rest =>
    writeSection prettyPrint it ++ endl ++ (if prettyPrint then endl else []) ++
      writeSections prettyPrint (next :: rest)

/-- `generator << data`: the contents of the file. -/
def generate (prettyPrint : Bool) (data : INIStructure) : Bytes :=
  writeSections prettyPrint data.data

/-! ## Its lines -/

def sectionLines (prettyPrint : Bool) (it : Bytes × INIMap Bytes) : List Bytes :=
  headingLine it.1 :: it.2.data.map fun it2 => entryLine prettyPrint it2.1 it2.2

def generatedLines (prettyPrint : Bool) : List (Bytes × INIMap Bytes) → List Bytes
  | [] => []
  | [it] => sectionLines prettyPrint it
  | it :: next :: rest =>
    sectionLines prettyPrint it ++ (if prettyPrint then [[]] else []) ++
      generatedLines prettyPrint (next :: rest)

theorem joinLines_cons (line : Bytes) {lines : List Bytes} (h : lines ≠ []) :
    joinLines (line :: lines) = line ++ endl ++ joinLines lines := by
  cases lines with
  | nil => exact absurd rfl h
  | cons line' lines => rfl

theorem joinLines_append {lines lines' : List Bytes} (h : lines ≠ []) (h' : lines' ≠ []) :
    joinLines (lines ++ lines') = joinLines lines ++ endl ++ joinLines lines' := by
  induction lines with
  | nil => exact absurd rfl h
  | cons line lines ih =>
    cases lines with
    | nil => exact joinLines_cons line h'
    | cons second lines =>
      have hne : second :: lines ≠ [] := List.cons_ne_nil _ _
      rw [List.cons_append, joinLines_cons line (List.append_ne_nil_of_left_ne_nil hne _), ih hne,
        joinLines_cons line hne]
      simp only [List.append_assoc]

theorem writeCollection_eq (prettyPrint : Bool) (data : List (Bytes × Bytes)) :
    writeCollection prettyPrint data =
      joinLines (data.map fun it2 => entryLine prettyPrint it2.1 it2.2) := by
  induction data with
  | nil => rfl
  | cons it2 rest ih =>
    cases rest with
    | nil => rfl
    | cons next rest => rw [writeCollection, ih]; rfl

theorem writeSection_eq (prettyPrint : Bool) (it : Bytes × INIMap Bytes) :
    writeSection prettyPrint it = joinLines (sectionLines prettyPrint it) := by
  rw [writeSection, sectionLines, writeCollection_eq, INIMap.size]
  cases hdata : it.2.data with
  | nil => simp [joinLines]
  | cons e es =>
    rw [if_pos (by simp), joinLines_cons _ (by simp), List.append_assoc]

theorem generatedLines_ne_nil (prettyPrint : Bool) (it : Bytes × INIMap Bytes)
    (rest : List (Bytes × INIMap Bytes)) : generatedLines prettyPrint (it :: rest) ≠ [] := by
  cases rest with
  | nil => exact List.cons_ne_nil _ _
  | cons next rest =>
    exact List.append_ne_nil_of_left_ne_nil
      (List.append_ne_nil_of_left_ne_nil (List.cons_ne_nil _ _) _) _

theorem writeSections_eq (prettyPrint : Bool) (sections : List (Bytes × INIMap Bytes)) :
    writeSections prettyPrint sections = joinLines (generatedLines prettyPrint sections) := by
  induction sections with
  | nil => rfl
  | cons it rest ih =>
    cases rest with
    | nil => exact writeSection_eq prettyPrint it
    | cons next rest =>
      have hne := generatedLines_ne_nil prettyPrint next rest
      have hhead : sectionLines prettyPrint it ≠ [] := List.cons_ne_nil _ _
      rw [writeSections, ih, writeSection_eq, generatedLines]
      cases prettyPrint with
      | false => simp [joinLines_append hhead hne]
      | true =>
        have hblank : ([[]] : List Bytes) ≠ [] := List.cons_ne_nil _ _
        simp only [if_true]
        rw [joinLines_append (List.append_ne_nil_of_left_ne_nil hhead _) hne,
          joinLines_append hhead hblank]
        simp [joinLines]

/-! ## Reading the lines back -/

/-- The sections with their entries, in order. -/
def INIStructure.contents (data : INIStructure) : List (Bytes × List (Bytes × Bytes)) :=
  data.data.map fun it => (it.1, it.2.data)

theorem contents_set (data : INIStructure) (name : Bytes) (collection : INIMap Bytes) :
    INIStructure.contents (data.set name collection) =
      OrderedMap.put (normalise name) collection.data data.contents := by
  rw [INIStructure.contents, INIMap.set_data, INIStructure.contents,
    OrderedMap.put_map (fun collection : INIMap Bytes => collection.data)]

theorem get_data (data : INIStructure) (name : Bytes) : (data.get name).data =
    (OrderedMap.find (normalise name) data.contents).getD [] := by
  rw [INIStructure.contents, OrderedMap.find_map (fun collection : INIMap Bytes => collection.data),
    INIMap.get_eq]
  cases OrderedMap.find (normalise name) data.data <;> rfl

/-- The head of a section that is not there yet. -/
theorem readLine_headingLine {r : Reading} {name : Bytes} (hname : normalise name = name)
    (hplain : semicolon ∉ name) (hnew : name ∉ OrderedMap.keys r.data.contents) :
    let r' := readLine r (headingLine name)
    r'.data.contents = r.data.contents ++ [(name, [])] ∧ r'.current = name ∧
      r'.inSection = true := by
  intro r'
  have hparse : parseLine (headingLine name) = .heading name :=
    parseLine_heading (trim_of_normal hname) hplain
  have hread : r' = { r with
      inSection := true
      current := name
      data := (r.data.ref name).2 (r.data.ref name).1
      lineData := r.lineData ++ [headingLine name] } := by
    show readLine r (headingLine name) = _
    rw [readLine, hparse]
  refine ⟨?_, by rw [hread], by rw [hread]⟩
  have hnone : OrderedMap.find name r.data.contents = none :=
    OrderedMap.find_eq_none_iff_not_mem.mpr hnew
  rw [hread]
  show INIStructure.contents ((r.data.ref name).2 (r.data.ref name).1) = _
  rw [INIMap.ref_snd, INIMap.ref_fst, contents_set, get_data, hname, hnone,
    OrderedMap.put_of_not_mem hnew, Option.getD_none]

/-- A key that the last section does not have yet. -/
theorem readLine_entryLine {r : Reading} {prettyPrint : Bool} {name key value : Bytes}
    {before : List (Bytes × List (Bytes × Bytes))} {es : List (Bytes × Bytes)}
    (hcurrent : r.current = name) (hin : r.inSection = true) (hname : normalise name = name)
    (hdata : r.data.contents = before ++ [(name, es)]) (hbefore : name ∉ OrderedMap.keys before)
    (hkey : normalise key = key) (hplain : Plain prettyPrint key (trim value))
    (hnew : key ∉ OrderedMap.keys es) :
    let r' := readLine r (entryLine prettyPrint key value)
    r'.data.contents = before ++ [(name, es ++ [(key, trim value)])] ∧ r'.current = name ∧
      r'.inSection = true := by
  intro r'
  have hparse := parseLine_entryLine (trim_of_normal hkey) hplain
  have hread : r' = { r with
      data := assignValue r.data r.current key (trim value)
      lineData := r.lineData ++ [entryLine prettyPrint key value] } := by
    show readLine r (entryLine prettyPrint key value) = _
    rw [readLine, hparse]
    simp [hin]
  refine ⟨?_, by rw [hread]; exact hcurrent, by rw [hread]; exact hin⟩
  rw [hread]
  show INIStructure.contents (assignValue r.data r.current key (trim value)) = _
  rw [INIStructure.assignValue_eq, contents_set, INIMap.set_data, get_data, hcurrent, hname, hdata,
    OrderedMap.find_append_last hbefore, Option.getD_some, hkey, OrderedMap.put_of_not_mem hnew,
    OrderedMap.put_append_last hbefore]

/-- What the file of a structure gives back. -/
def trimmedEntries (es : List (Bytes × Bytes)) : List (Bytes × Bytes) :=
  es.map fun e => (e.1, trim e.2)

theorem foldl_readLine_entries {prettyPrint : Bool} {name : Bytes}
    {before : List (Bytes × List (Bytes × Bytes))} (hname : normalise name = name)
    (hbefore : name ∉ OrderedMap.keys before) {es : List (Bytes × Bytes)}
    (hplain : ∀ e ∈ es, normalise e.1 = e.1 ∧ Plain prettyPrint e.1 (trim e.2))
    {r : Reading} {read : List (Bytes × Bytes)} (hcurrent : r.current = name)
    (hin : r.inSection = true) (hdata : r.data.contents = before ++ [(name, read)])
    (hnodup : (OrderedMap.keys (read ++ es)).Nodup) :
    let r' := (es.map fun e => entryLine prettyPrint e.1 e.2).foldl readLine r
    r'.data.contents = before ++ [(name, read ++ trimmedEntries es)] := by
  induction es generalizing r read with
  | nil => simpa [trimmedEntries] using hdata
  | cons e es ih =>
    obtain ⟨hkey, hline⟩ := hplain e List.mem_cons_self
    have hnew : e.1 ∉ OrderedMap.keys read := by
      rw [OrderedMap.keys_append, List.nodup_append] at hnodup
      exact fun hmem => hnodup.2.2 e.1 hmem e.1 List.mem_cons_self rfl
    obtain ⟨hdata', hcurrent', hin'⟩ :=
      readLine_entryLine hcurrent hin hname hdata hbefore hkey hline hnew
    have hnodup' : (OrderedMap.keys ((read ++ [(e.1, trim e.2)]) ++ es)).Nodup := by
      rw [List.append_assoc]
      simpa using hnodup
    have hrest := ih (fun e he => hplain e (List.mem_cons_of_mem _ he)) hcurrent' hin' hdata'
      hnodup'
    rw [List.map_cons, List.foldl_cons]
    simpa [trimmedEntries] using hrest

theorem readLine_sectionLines {prettyPrint : Bool} {r : Reading} {it : Bytes × INIMap Bytes}
    (hname : normalise it.1 = it.1) (hsemi : semicolon ∉ it.1)
    (hplain : ∀ e ∈ it.2.data, Plain prettyPrint e.1 (trim e.2))
    (hnew : it.1 ∉ OrderedMap.keys r.data.contents) :
    ((sectionLines prettyPrint it).foldl readLine r).data.contents =
      r.data.contents ++ [(it.1, trimmedEntries it.2.data)] := by
  obtain ⟨hdata, hcurrent, hin⟩ := readLine_headingLine hname hsemi hnew
  have hentries : ∀ e ∈ it.2.data, normalise e.1 = e.1 ∧ Plain prettyPrint e.1 (trim e.2) :=
    fun e he => ⟨it.2.normal e.1 (List.mem_map_of_mem he), hplain e he⟩
  rw [sectionLines, List.foldl_cons]
  exact foldl_readLine_entries hname hnew hentries hcurrent hin hdata it.2.indexes.nodup

theorem foldl_readLine_generatedLines {prettyPrint : Bool} {sections : List (Bytes × INIMap Bytes)}
    (hnames : ∀ it ∈ sections, normalise it.1 = it.1 ∧ semicolon ∉ it.1)
    (hplain : ∀ it ∈ sections, ∀ e ∈ it.2.data, Plain prettyPrint e.1 (trim e.2)) {r : Reading}
    (hnodup : (OrderedMap.keys r.data.contents ++ OrderedMap.keys sections).Nodup) :
    ((generatedLines prettyPrint sections).foldl readLine r).data.contents =
      r.data.contents ++ sections.map fun it => (it.1, trimmedEntries it.2.data) := by
  induction sections generalizing r with
  | nil => simp [generatedLines]
  | cons it rest ih =>
    obtain ⟨hname, hsemi⟩ := hnames it List.mem_cons_self
    have hnew : it.1 ∉ OrderedMap.keys r.data.contents := by
      intro hmem
      exact (List.nodup_append.mp hnodup).2.2 it.1 hmem it.1 List.mem_cons_self rfl
    have hfirst := readLine_sectionLines hname hsemi (hplain it List.mem_cons_self) hnew
    cases rest with
    | nil => exact hfirst
    | cons next rest =>
      rw [generatedLines, List.foldl_append, List.foldl_append]
      generalize (sectionLines prettyPrint it).foldl readLine r = r' at hfirst
      have hblank : ((if prettyPrint then [[]] else []).foldl readLine r').data = r'.data := by
        cases prettyPrint <;> rfl
      generalize (if prettyPrint then [[]] else []).foldl readLine r' = r'' at hblank
      have hkeys : OrderedMap.keys r''.data.contents =
          OrderedMap.keys r.data.contents ++ [it.1] := by
        rw [hblank, hfirst, OrderedMap.keys_append]
        rfl
      rw [ih (fun it hit => hnames it (List.mem_cons_of_mem _ hit))
        (fun it hit => hplain it (List.mem_cons_of_mem _ hit))]
      · rw [hblank, hfirst, List.append_assoc]
        rfl
      · rw [hkeys, List.append_assoc]
        exact hnodup

/-! ## Reading the file back -/

/-- A structure that its file can hold. -/
structure Legal (prettyPrint : Bool) (data : INIStructure) : Prop where
  names : ∀ it ∈ data.data, semicolon ∉ it.1 ∧ IsLine it.1
  entries : ∀ it ∈ data.data, ∀ e ∈ it.2.data,
    Plain prettyPrint e.1 (trim e.2) ∧ IsLine e.1 ∧ IsLine (trim e.2)

theorem isLine_escape {key : Bytes} (h : IsLine key) : IsLine (escape key) := by
  constructor
  · intro hmem
    rcases mem_of_mem_escape hmem with hmem | heq
    · exact h.1 hmem
    · cases heq
  · intro c hc
    rcases mem_of_mem_escape hc with hc | rfl
    · exact h.2 c hc
    · rfl

theorem isLine_singleton {c : UInt8} (h : 10 ≠ c ∧ kept c = true) : IsLine [c] := by
  simpa [IsLine] using h

theorem isLine_entryLine {prettyPrint : Bool} {key value : Bytes} (hkey : IsLine key)
    (hvalue : IsLine (trim value)) : IsLine (entryLine prettyPrint key value) := by
  have hsign : IsLine (if prettyPrint then ascii " = " else ascii "=") := by
    cases prettyPrint
    · exact isLine_singleton (by decide)
    · have hspace : IsLine [space] := isLine_singleton (by decide)
      exact isLine_append hspace (isLine_append (isLine_singleton (by decide)) hspace)
  exact isLine_append (isLine_append (isLine_escape hkey) hsign) hvalue

theorem isLine_headingLine {name : Bytes} (h : IsLine name) : IsLine (headingLine name) := by
  have hopen : IsLine [openingBracket] := isLine_singleton (by decide)
  have hclose : IsLine [closingBracket] := isLine_singleton (by decide)
  exact isLine_append hopen (isLine_append h hclose)

theorem isLine_nil : IsLine [] :=
  ⟨List.not_mem_nil, fun _ hc => absurd hc List.not_mem_nil⟩

theorem generatedLines_isLine {prettyPrint : Bool} {sections : List (Bytes × INIMap Bytes)}
    (h : ∀ it ∈ sections, IsLine it.1 ∧ ∀ e ∈ it.2.data, IsLine e.1 ∧ IsLine (trim e.2)) :
    ∀ line ∈ generatedLines prettyPrint sections, IsLine line := by
  have hsection : ∀ it ∈ sections, ∀ line ∈ sectionLines prettyPrint it, IsLine line := by
    intro it hit line hline
    obtain ⟨hname, hentries⟩ := h it hit
    rcases List.mem_cons.mp hline with rfl | hline
    · exact isLine_headingLine hname
    · obtain ⟨e, he, rfl⟩ := List.mem_map.mp hline
      exact isLine_entryLine (hentries e he).1 (hentries e he).2
  clear h
  induction sections with
  | nil => exact fun _ hnil => absurd hnil List.not_mem_nil
  | cons it rest ih =>
    have hfirst := hsection it List.mem_cons_self
    have hrest := ih fun it' hit' => hsection it' (List.mem_cons_of_mem _ hit')
    cases rest with
    | nil => exact hfirst
    | cons next rest =>
      intro line hline
      rw [generatedLines, List.mem_append, List.mem_append] at hline
      rcases hline with (hline | hline) | hline
      · exact hfirst line hline
      · cases prettyPrint with
        | false => exact absurd hline List.not_mem_nil
        | true =>
          rw [List.mem_singleton.mp hline]
          exact isLine_nil
      · exact hrest line hline

theorem head?_generate {prettyPrint : Bool} {data : INIStructure} (h : data.data ≠ []) :
    (generate prettyPrint data).head? = some openingBracket := by
  rw [generate]
  cases hdata : data.data with
  | nil => exact absurd hdata h
  | cons it rest => cases rest <;> rfl

theorem isBOM_of_head {file : Bytes} {c : UInt8} (hhead : file.head? = some c) (hc : c ≠ 0xEF) :
    isBOM file = false := by
  cases file with
  | nil => cases hhead
  | cons d file =>
    cases hhead
    rw [isBOM, Bool.and_eq_false_iff]
    right
    rw [beq_eq_false_iff_ne]
    intro heq
    cases file with
    | nil => cases heq
    | cons d file => exact hc (List.cons.inj heq).1

theorem readFile_generate {prettyPrint : Bool} {data : INIStructure} (h : Legal prettyPrint data) :
    readFile (generate prettyPrint data) = generatedLines prettyPrint data.data := by
  by_cases hnil : data.data = []
  · rw [generate, hnil]
    rfl
  · have hhead := @head?_generate prettyPrint data hnil
    have hjoin : withMark false (joinLines (generatedLines prettyPrint data.data)) =
        generate prettyPrint data := (writeSections_eq prettyPrint data.data).symm
    have hlines : ∀ line ∈ generatedLines prettyPrint data.data, IsLine line :=
      generatedLines_isLine fun it hit =>
        ⟨(h.names it hit).2, fun e he => (h.entries it hit e he).2⟩
    have hne : generatedLines prettyPrint data.data ≠ [] := by
      cases hdata : data.data with
      | nil => exact absurd hdata hnil
      | cons it rest => exact generatedLines_ne_nil prettyPrint it rest
    rw [← hjoin]
    refine readFile_withMark hlines hne ?_ ?_
    · rw [hjoin]
      intro hempty
      rw [hempty] at hhead
      cases hhead
    · rw [hjoin]
      exact isBOM_of_head hhead (by decide)

/-- A legal structure is read back from the file that is generated for it: the same
sections and keys in the same order, each value without the white space around it. -/
theorem readStructure_generate {prettyPrint : Bool} {data : INIStructure}
    (h : Legal prettyPrint data) :
    (readStructure (generate prettyPrint data) INIMap.empty).data.contents =
      data.data.map fun it => (it.1, trimmedEntries it.2.data) := by
  rw [readStructure, readFile_generate h, readLines]
  have hnames : ∀ it ∈ data.data, normalise it.1 = it.1 ∧ semicolon ∉ it.1 :=
    fun it hit => ⟨data.normal it.1 (List.mem_map_of_mem hit), (h.names it hit).1⟩
  have hplain : ∀ it ∈ data.data, ∀ e ∈ it.2.data, Plain prettyPrint e.1 (trim e.2) :=
    fun it hit e he => (h.entries it hit e he).1
  exact foldl_readLine_generatedLines hnames hplain data.indexes.nodup

/-- A key with the sign in it, and a value between white space. -/
theorem readStructure_generate_escaped :
    let data := assignValue INIMap.empty (ascii "Server") (ascii "a=b") (ascii " 8765 ")
    (readStructure (generate false data) INIMap.empty).data.contents =
      data.data.map fun it => (it.1, trimmedEntries it.2.data) :=
  readStructure_generate ⟨by decide +kernel, by decide +kernel⟩

end MINI
end WhiteSmo
