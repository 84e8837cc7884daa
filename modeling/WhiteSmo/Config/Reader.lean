import WhiteSmo.Config.Map
import WhiteSmo.Library.Delimited

/-!
# `INIReader`

A file is cut into lines, and the lines are put into a structure one after another.
What a file means is said without the structure: the sections it names, and for a key
of a section the values that its lines give it, of which the last one counts.
-/

namespace WhiteSmo
namespace MINI

abbrev INIStructure := INIMap (INIMap Bytes)

/-! ## Lines -/

def utf8BOM : Bytes := [0xEF, 0xBB, 0xBF]

def isBOM (file : Bytes) : Bool := file.length ≥ 3 && file.take 3 == utf8BOM

/-- `fileContents`: as many bytes as the file has, read from behind its mark. -/
def fileContents (file : Bytes) : Bytes :=
  Delimited.fill file.length 0 (file.drop (if isBOM file then 3 else 0))

/-- The loop over `fileContents`. -/
def splitLines : List Bytes → Bytes → Bytes → List Bytes
  | output, buffer, [] => output ++ [buffer]
  | output, buffer, c :: rest =>
    if c = 10 then splitLines (output ++ [buffer]) [] rest
    else if c ≠ 0 ∧ c ≠ 13 then splitLines output (buffer ++ [c]) rest
    else splitLines output buffer rest

def readFile (file : Bytes) : List Bytes :=
  if file.length = 0 then [] else splitLines [] [] (fileContents file)

/-- The bytes that `readFile` does not pass over. -/
def kept (c : UInt8) : Bool := c ≠ 0 ∧ c ≠ 13

theorem splitLines_eq (output : List Bytes) (buffer rest : Bytes) :
    splitLines output buffer rest =
      output ++ ((rest.filter kept).splitOn 10).modifyHead (buffer ++ ·) := by
  induction rest generalizing output buffer with
  | nil => simp [splitLines]
  | cons c rest ih =>
    rw [splitLines]
    split
    case isTrue hline =>
      have hkept : kept c = true := by rw [hline]; rfl
      rw [ih, List.filter_cons_of_pos hkept, List.splitOn_cons_eq_if_modifyHead, hline]
      cases List.splitOn 10 (rest.filter kept) <;> simp
    case isFalse hline =>
      split
      case isTrue hnot =>
        have hkept : kept c = true := decide_eq_true hnot
        rw [ih, List.filter_cons_of_pos hkept, List.splitOn_cons_eq_if_modifyHead]
        cases List.splitOn 10 (rest.filter kept) <;> simp [hline]
      case isFalse hnot =>
        have hkept : ¬ kept c = true := fun htrue => hnot (of_decide_eq_true htrue)
        rw [ih, List.filter_cons_of_neg hkept]

theorem readFile_eq (file : Bytes) : readFile file =
    if file = [] then [] else ((fileContents file).filter kept).splitOn 10 := by
  rw [readFile, splitLines_eq]
  simp only [List.length_eq_zero_iff, List.nil_append]
  split
  · rfl
  · cases List.splitOn 10 ((fileContents file).filter kept) <;> rfl

/-- A line of a file has neither a line feed nor what is passed over. -/
def IsLine (line : Bytes) : Prop := 10 ∉ line ∧ ∀ c ∈ line, kept c = true

instance (line : Bytes) : Decidable (IsLine line) := inferInstanceAs (Decidable (_ ∧ _))

theorem isLine_append {line line' : Bytes} (h : IsLine line) (h' : IsLine line') :
    IsLine (line ++ line') :=
  ⟨fun hmem => (List.mem_append.mp hmem).elim h.1 h'.1,
    fun c hc => (List.mem_append.mp hc).elim (h.2 c) (h'.2 c)⟩

theorem isLine_of_subset {line line' : Bytes} (h : IsLine line') (hsub : line ⊆ line') :
    IsLine line :=
  ⟨fun hmem => h.1 (hsub hmem), fun c hc => h.2 c (hsub hc)⟩

theorem splitLines_isLine {output : List Bytes} {buffer rest : Bytes}
    (houtput : ∀ line ∈ output, IsLine line) (hbuffer : IsLine buffer) :
    ∀ line ∈ splitLines output buffer rest, IsLine line := by
  induction rest generalizing output buffer with
  | nil =>
    intro line hline
    rcases List.mem_append.mp hline with hline | hline
    · exact houtput line hline
    · rw [List.mem_singleton.mp hline]
      exact hbuffer
  | cons c rest ih =>
    rw [splitLines]
    split
    case isTrue =>
      refine ih (fun line hline => ?_) ⟨List.not_mem_nil, fun _ hc => absurd hc List.not_mem_nil⟩
      rcases List.mem_append.mp hline with hline | hline
      · exact houtput line hline
      · rw [List.mem_singleton.mp hline]
        exact hbuffer
    case isFalse hfeed =>
      split
      case isTrue hkept =>
        refine ih houtput (isLine_append hbuffer ⟨?_, ?_⟩)
        · rw [List.mem_singleton]
          exact fun heq => hfeed heq.symm
        · intro d hd
          rw [List.mem_singleton.mp hd]
          exact decide_eq_true hkept
      case isFalse => exact ih houtput hbuffer

theorem readFile_isLine (file : Bytes) : ∀ line ∈ readFile file, IsLine line := by
  unfold readFile
  split
  case isTrue => exact fun _ hnil => absurd hnil List.not_mem_nil
  case isFalse =>
    exact splitLines_isLine (fun _ hnil => absurd hnil List.not_mem_nil)
      ⟨List.not_mem_nil, fun _ hc => absurd hc List.not_mem_nil⟩

/-! ### Lines that were written one below the other -/

/-- The loop that writes lines with `endl` between them. -/
def joinLines : List Bytes → Bytes
  | [] => []
  | [line] => line
  | line :: line' :: lines => line ++ endl ++ joinLines (line' :: lines)

theorem joinLines_eq (lines : List Bytes) : joinLines lines = [10].intercalate lines := by
  induction lines with
  | nil => rfl
  | cons line lines ih =>
    cases lines with
    | nil => simp [joinLines]
    | cons line' lines => rw [joinLines, ih, List.intercalate_cons_cons]; rfl

theorem filter_joinLines {lines : List Bytes} (h : ∀ line ∈ lines, IsLine line) :
    (joinLines lines).filter kept = joinLines lines := by
  rw [List.filter_eq_self]
  induction lines with
  | nil => exact fun _ hnil => absurd hnil List.not_mem_nil
  | cons line lines ih =>
    have hline := (h line List.mem_cons_self).2
    have hlines := ih fun l hl => h l (List.mem_cons_of_mem line hl)
    cases lines with
    | nil => exact hline
    | cons line' lines =>
      intro c hc
      rw [joinLines, List.mem_append, List.mem_append] at hc
      rcases hc with (hc | hc) | hc
      · exact hline c hc
      · rw [List.mem_singleton.mp hc]
        rfl
      · exact hlines c hc

/-- A file with its mark, if it has one. -/
def withMark (mark : Bool) (text : Bytes) : Bytes := (if mark then utf8BOM else []) ++ text

theorem isBOM_withMark (text : Bytes) : isBOM (withMark true text) = true := by
  simp [isBOM, withMark, utf8BOM]

theorem readFile_withMark {mark : Bool} {lines : List Bytes} (hlines : ∀ l ∈ lines, IsLine l)
    (hne : lines ≠ []) (hfile : withMark mark (joinLines lines) ≠ [])
    (hmark : isBOM (withMark mark (joinLines lines)) = mark) :
    readFile (withMark mark (joinLines lines)) = lines := by
  have hdrop : (withMark mark (joinLines lines)).drop (if mark then 3 else 0) =
      joinLines lines := by
    cases mark <;> rfl
  have hcontents : (fileContents (withMark mark (joinLines lines))).filter kept =
      joinLines lines := by
    have hzeros : ∀ n : Nat, (List.replicate n (0 : UInt8)).filter kept = [] := by
      intro n
      rw [List.filter_eq_nil_iff]
      intro c hc
      rw [List.eq_of_mem_replicate hc]
      decide
    rw [fileContents, hmark, hdrop, Delimited.fill, List.filter_append, filter_joinLines hlines,
      hzeros, List.append_nil]
  rw [readFile_eq, if_neg hfile, hcontents, joinLines_eq]
  exact List.splitOn_intercalate 10 (fun l hl => (hlines l hl).1) hne

/-! ## `operator>>` -/

/-- The locals of `operator>>`, with the lines that are kept for the writer. -/
structure Reading where
  data : INIStructure
  current : Bytes
  inSection : Bool
  lineData : List Bytes

/-- `data[section][key] = value` -/
def assignValue (data : INIStructure) (name key value : Bytes) : INIStructure :=
  let collection := data.ref name
  collection.2 ((collection.1.ref key).2 value)

/-- One round of the loop. -/
def readLine (r : Reading) (line : Bytes) : Reading :=
  let parseResult := parseLine line
  let r :=
    match parseResult with
    | .heading name =>
      let collection := r.data.ref name
      { r with inSection := true, current := name, data := collection.2 collection.1 }
    | .keyValue key value =>
      if r.inSection then { r with data := assignValue r.data r.current key value } else r
    | _ => r
  match parseResult with
  | .unknown => r
  | .keyValue _ _ => if r.inSection then { r with lineData := r.lineData ++ [line] } else r
  | _ => { r with lineData := r.lineData ++ [line] }

def readLines (lines : List Bytes) (data : INIStructure) : Reading :=
  lines.foldl readLine ⟨data, [], false, []⟩

/-! ## What a structure says -/

/-- The value of a key in a section, both as the maps keep them. -/
def INIStructure.value (data : INIStructure) (name key : Bytes) : Option Bytes :=
  (OrderedMap.find name data.data).bind fun collection => OrderedMap.find key collection.data

/-- The section is there, if only without keys. -/
def INIStructure.Names (data : INIStructure) (name : Bytes) : Prop :=
  (OrderedMap.find name data.data).isSome = true

namespace INIStructure

variable {data : INIStructure} {name key : Bytes}

theorem has_iff_names : data.has name = true ↔ data.Names (normalise name) := by
  rw [Names, INIMap.has_eq]

theorem has_get :
    (data.get name).has key = (data.value (normalise name) (normalise key)).isSome := by
  rw [INIMap.has_eq, INIMap.get_eq, value]
  cases OrderedMap.find (normalise name) data.data <;> rfl

theorem get_get :
    (data.get name).get key = (data.value (normalise name) (normalise key)).getD [] := by
  rw [INIMap.get_eq, INIMap.get_eq, value]
  cases OrderedMap.find (normalise name) data.data <;> rfl

theorem value_set (collection : INIMap Bytes) (n k : Bytes) :
    value (data.set name collection) n k =
      if n = normalise name then OrderedMap.find k collection.data else data.value n k := by
  rw [value, INIMap.set_data, OrderedMap.find_put]
  split <;> rfl

theorem names_set (collection : INIMap Bytes) (n : Bytes) :
    Names (data.set name collection) n ↔ n = normalise name ∨ data.Names n := by
  rw [Names, INIMap.set_data, OrderedMap.find_put]
  by_cases h : n = normalise name
  · simp [h]
  · simp [h, Names]

theorem find_get (k : Bytes) :
    OrderedMap.find k (data.get name).data = data.value (normalise name) k := by
  rw [INIMap.get_eq, value]
  cases OrderedMap.find (normalise name) data.data <;> rfl

theorem value_ref (n k : Bytes) :
    value ((data.ref name).2 (data.ref name).1) n k = data.value n k := by
  rw [INIMap.ref_snd, INIMap.ref_fst, value_set]
  split
  case isTrue h => rw [h, find_get]
  case isFalse => rfl

theorem names_ref (n : Bytes) :
    Names ((data.ref name).2 (data.ref name).1) n ↔ n = normalise name ∨ data.Names n := by
  rw [INIMap.ref_snd, names_set]

theorem assignValue_eq (value : Bytes) :
    assignValue data name key value = data.set name ((data.get name).set key value) := by
  rw [assignValue, INIMap.ref_snd, INIMap.ref_snd, INIMap.ref_fst]

theorem value_assignValue (v n k : Bytes) : value (assignValue data name key v) n k =
    if n = normalise name ∧ k = normalise key then some v else data.value n k := by
  rw [assignValue_eq, value_set]
  by_cases hn : n = normalise name
  · rw [if_pos hn, INIMap.set_data, OrderedMap.find_put, find_get, hn]
    simp
  · rw [if_neg hn, if_neg fun h => hn h.1]

theorem names_assignValue (v n : Bytes) :
    Names (assignValue data name key v) n ↔ n = normalise name ∨ data.Names n := by
  rw [assignValue_eq, names_set]

theorem names_of_value {v : Bytes} (h : data.value name key = some v) : data.Names name := by
  rw [value] at h
  obtain ⟨collection, hfind, -⟩ := Option.bind_eq_some_iff.mp h
  rw [Names, hfind]
  rfl

@[simp]
theorem value_empty (name key : Bytes) : value INIMap.empty name key = none := rfl

@[simp]
theorem not_names_empty (name : Bytes) : ¬ Names INIMap.empty name := Bool.false_ne_true

end INIStructure

/-! ## What the lines mean -/

/-- The section behind a line. -/
def sectionAfter (line : Bytes) (current : Option Bytes) : Option Bytes :=
  match parseLine line with
  | .heading name => some (normalise name)
  | _ => current

/-- The section behind some lines. -/
def sectionBehind (lines : List Bytes) (current : Option Bytes) : Option Bytes :=
  lines.foldl (fun current line => sectionAfter line current) current

/-- The sections that have a line of their own. -/
def headings (lines : List Bytes) : List Bytes :=
  lines.filterMap fun line =>
    match parseLine line with
    | .heading name => some (normalise name)
    | _ => none

/-- The value that a line in section `current` gives to `key` of section `name`. -/
def valueAt (name key : Bytes) (current : Option Bytes) (line : Bytes) : Option Bytes :=
  match parseLine line with
  | .keyValue k value => if current = some name ∧ normalise k = key then some value else none
  | _ => none

/-- All values that the lines give to a key, in their order. -/
def valuesAt (name key : Bytes) : Option Bytes → List Bytes → List Bytes
  | _, [] => []
  | current, line :: lines =>
    (valueAt name key current line).toList ++ valuesAt name key (sectionAfter line current) lines

theorem sectionBehind_cons (line : Bytes) (lines : List Bytes) (current : Option Bytes) :
    sectionBehind (line :: lines) current = sectionBehind lines (sectionAfter line current) := rfl

theorem sectionBehind_append (lines lines' : List Bytes) (current : Option Bytes) :
    sectionBehind (lines ++ lines') current = sectionBehind lines' (sectionBehind lines current) :=
  List.foldl_append

theorem headings_append (lines lines' : List Bytes) :
    headings (lines ++ lines') = headings lines ++ headings lines' :=
  List.filterMap_append

theorem valuesAt_append (name key : Bytes) (current : Option Bytes) (lines lines' : List Bytes) :
    valuesAt name key current (lines ++ lines') =
      valuesAt name key current lines ++
        valuesAt name key (sectionBehind lines current) lines' := by
  induction lines generalizing current with
  | nil => rfl
  | cons line lines ih =>
    rw [List.cons_append, valuesAt, valuesAt, ih, List.append_assoc]
    rfl

theorem valuesAt_singleton (name key : Bytes) (current : Option Bytes) (line : Bytes) :
    valuesAt name key current [line] = (valueAt name key current line).toList := by
  rw [valuesAt, valuesAt, List.append_nil]

/-! ## What is read -/

namespace Reading

/-- The section that the next key goes to. -/
def place (r : Reading) : Option Bytes := if r.inSection then some (normalise r.current) else none

/-- The section of the next key is in the structure. -/
def Placed (r : Reading) : Prop := ∀ name ∈ r.place, r.data.Names name

variable {r : Reading}

theorem readLine_place (r : Reading) (line : Bytes) :
    (readLine r line).place = sectionAfter line r.place := by
  unfold readLine sectionAfter
  cases parseLine line with
  | keyValue key value => cases hin : r.inSection <;> simp [place, hin]
  | _ => rfl

theorem readLine_names (h : r.Placed) (line name : Bytes) :
    (readLine r line).data.Names name ↔ name ∈ headings [line] ∨ r.data.Names name := by
  unfold readLine headings
  cases hparse : parseLine line with
  | heading n => simp [hparse, INIStructure.names_ref]
  | keyValue key value =>
    cases hin : r.inSection with
    | false => simp [hparse, hin]
    | true =>
      have hplace : r.data.Names (normalise r.current) := h _ (by simp [place, hin])
      simp only [hparse, if_true, List.filterMap_cons_none, List.filterMap_nil,
        List.not_mem_nil, false_or, INIStructure.names_assignValue]
      exact ⟨fun hor => hor.elim (fun heq => heq ▸ hplace) id, Or.inr⟩
  | _ => simp [hparse]

theorem readLine_value (r : Reading) (line name key : Bytes) :
    (readLine r line).data.value name key =
      (valueAt name key r.place line).or (r.data.value name key) := by
  unfold readLine valueAt
  cases parseLine line with
  | heading n => simp [INIStructure.value_ref]
  | keyValue k v =>
    cases hin : r.inSection with
    | false => simp [place, hin]
    | true =>
      simp only [if_true, hin, INIStructure.value_assignValue, place, Option.some.injEq]
      by_cases hat : name = normalise r.current ∧ key = normalise k
      · simp [hat]
      · rw [if_neg hat, if_neg fun h => hat ⟨h.1.symm, h.2.symm⟩, Option.none_or]
  | _ => simp

theorem readLine_placed (h : r.Placed) (line : Bytes) : (readLine r line).Placed := by
  intro name hname
  rw [readLine_place] at hname
  rw [readLine_names h]
  unfold sectionAfter at hname
  cases hparse : parseLine line with
  | heading n =>
    rw [hparse] at hname
    left
    simpa [headings, hparse] using hname.symm
  | _ =>
    rw [hparse] at hname
    exact Or.inr (h name hname)

end Reading

/-- What the lines put into a structure: the sections they name, and for each key the last
value that they give it. -/
theorem foldl_readLine {r : Reading} (h : r.Placed) (lines : List Bytes) (name key : Bytes) :
    let last := lines.foldl readLine r
    last.place = sectionBehind lines r.place ∧
      (last.data.Names name ↔ name ∈ headings lines ∨ r.data.Names name) ∧
      last.data.value name key =
        (valuesAt name key r.place lines).getLast?.or (r.data.value name key) := by
  intro last
  induction lines generalizing r with
  | nil => simp [last, sectionBehind, headings, valuesAt]
  | cons line lines ih =>
    obtain ⟨hplace, hnames, hvalue⟩ := ih (Reading.readLine_placed h line)
    refine ⟨?_, ?_, ?_⟩
    · rw [Reading.readLine_place] at hplace
      exact hplace
    · have hsplit : headings (line :: lines) = headings [line] ++ headings lines :=
        headings_append [line] lines
      rw [show last = lines.foldl readLine (readLine r line) from rfl, hnames,
        Reading.readLine_names h, hsplit, List.mem_append, or_assoc, or_left_comm]
    · rw [show last = lines.foldl readLine (readLine r line) from rfl, hvalue,
        Reading.readLine_value, Reading.readLine_place, valuesAt, List.getLast?_append,
        Option.or_assoc]
      congr 2
      cases valueAt name key r.place line <;> rfl

/-! ## The lines that are kept -/

/-- Whether a line in section `current` is kept for the writer. -/
def keeps (current : Option Bytes) (line : Bytes) : Bool :=
  match parseLine line with
  | .unknown => false
  | .keyValue _ _ => current.isSome
  | _ => true

def keptLines : Option Bytes → List Bytes → List Bytes
  | _, [] => []
  | current, line :: lines =>
    if keeps current line then line :: keptLines (sectionAfter line current) lines
    else keptLines (sectionAfter line current) lines

theorem readLine_lineData (r : Reading) (line : Bytes) : (readLine r line).lineData =
    r.lineData ++ if keeps r.place line then [line] else [] := by
  unfold readLine keeps
  cases parseLine line with
  | keyValue key value => cases hin : r.inSection <;> simp [Reading.place, hin]
  | _ => simp

theorem foldl_readLine_lineData (r : Reading) (lines : List Bytes) :
    (lines.foldl readLine r).lineData = r.lineData ++ keptLines r.place lines := by
  induction lines generalizing r with
  | nil => simp [keptLines]
  | cons line lines ih =>
    rw [List.foldl_cons, ih, readLine_lineData, Reading.readLine_place, keptLines,
      List.append_assoc]
    split <;> rfl

/-- A line that is not kept says nothing. -/
theorem of_not_keeps {current : Option Bytes} {line : Bytes} (h : keeps current line = false) :
    sectionAfter line current = current ∧ headings [line] = [] ∧
      ∀ name key, valueAt name key current line = none := by
  unfold keeps at h
  unfold sectionAfter headings valueAt
  cases hparse : parseLine line with
  | keyValue key value =>
    rw [hparse, Option.isSome_eq_false_iff, Option.isNone_iff_eq_none] at h
    subst h
    simp [hparse]
  | unknown => simp [hparse]
  | _ => rw [hparse] at h; cases h

theorem keptLines_meaning (lines : List Bytes) (current : Option Bytes) (name key : Bytes) :
    sectionBehind (keptLines current lines) current = sectionBehind lines current ∧
      headings (keptLines current lines) = headings lines ∧
      valuesAt name key current (keptLines current lines) = valuesAt name key current lines := by
  induction lines generalizing current with
  | nil => exact ⟨rfl, rfl, rfl⟩
  | cons line lines ih =>
    obtain ⟨hbehind, hheadings, hvalues⟩ := ih (sectionAfter line current)
    have hsplit : headings (line :: lines) = headings [line] ++ headings lines :=
      headings_append [line] lines
    rw [keptLines]
    split
    case isTrue =>
      have hsplit' : headings (line :: keptLines (sectionAfter line current) lines) =
          headings [line] ++ headings (keptLines (sectionAfter line current) lines) :=
        headings_append [line] _
      exact ⟨hbehind, by rw [hsplit, hsplit', hheadings], by rw [valuesAt, hvalues, valuesAt]⟩
    case isFalse hkeeps =>
      obtain ⟨hsection, hnone, hvalue⟩ := of_not_keeps (Bool.eq_false_iff.mpr hkeeps)
      rw [hsection] at hbehind hheadings hvalues ⊢
      refine ⟨?_, ?_, ?_⟩
      · rw [hbehind, sectionBehind_cons, hsection]
      · rw [hheadings, hsplit, hnone, List.nil_append]
      · rw [hvalues, valuesAt, hvalue, hsection]
        rfl

theorem keptLines_sublist (current : Option Bytes) (lines : List Bytes) :
    (keptLines current lines).Sublist lines := by
  induction lines generalizing current with
  | nil => exact .slnil
  | cons line lines ih =>
    rw [keptLines]
    split
    case isTrue => exact (ih _).cons_cons line
    case isFalse => exact (ih _).cons line

/-- Every line is one that is kept. -/
def AllKept : Option Bytes → List Bytes → Prop
  | _, [] => True
  | current, line :: lines =>
    keeps current line = true ∧ AllKept (sectionAfter line current) lines

theorem allKept_keptLines (current : Option Bytes) (lines : List Bytes) :
    AllKept current (keptLines current lines) := by
  induction lines generalizing current with
  | nil => trivial
  | cons line lines ih =>
    rw [keptLines]
    split
    case isTrue hkeeps => exact ⟨hkeeps, ih _⟩
    case isFalse hkeeps =>
      rw [(of_not_keeps (Bool.eq_false_iff.mpr hkeeps)).1]
      exact ih current

theorem keptLines_of_allKept {current : Option Bytes} {lines : List Bytes}
    (h : AllKept current lines) : keptLines current lines = lines := by
  induction lines generalizing current with
  | nil => rfl
  | cons line lines ih => rw [keptLines, if_pos h.1, ih h.2]

theorem readLine_of_not_keeps {r : Reading} {line : Bytes} (h : keeps r.place line = false) :
    readLine r line = r := by
  unfold keeps at h
  unfold readLine
  cases hparse : parseLine line with
  | keyValue key value =>
    rw [hparse, Reading.place] at h
    cases hin : r.inSection with
    | false => simp [hin]
    | true => rw [hin] at h; cases h
  | unknown => rfl
  | heading name => rw [hparse] at h; cases h
  | comment => rw [hparse] at h; cases h
  | none => rw [hparse] at h; cases h

/-- The lines that are kept say what the file says. -/
theorem foldl_readLine_keptLines (r : Reading) (lines : List Bytes) :
    (keptLines r.place lines).foldl readLine r = lines.foldl readLine r := by
  induction lines generalizing r with
  | nil => rfl
  | cons line lines ih =>
    have hrest := ih (readLine r line)
    rw [Reading.readLine_place] at hrest
    rw [keptLines]
    split
    case isTrue => exact hrest
    case isFalse hkeeps =>
      have hsame := readLine_of_not_keeps (Bool.eq_false_iff.mpr hkeeps)
      rw [hsame] at hrest
      rw [List.foldl_cons, hsame]
      exact hrest

/-! ## A whole file -/

/-- `INIReader reader(filename, true); reader >> data` on a file that can be opened. -/
def readStructure (file : Bytes) (data : INIStructure) : Reading :=
  readLines (readFile file) data

theorem placed_empty : Reading.Placed ⟨INIMap.empty, [], false, []⟩ :=
  fun _ hname => by cases hname

theorem readLines_names (lines : List Bytes) (name : Bytes) :
    (readLines lines INIMap.empty).data.Names name ↔ name ∈ headings lines := by
  have hread := (foldl_readLine placed_empty lines name []).2.1
  rw [or_iff_left (INIStructure.not_names_empty name)] at hread
  exact hread

theorem readLines_value (lines : List Bytes) (name key : Bytes) :
    (readLines lines INIMap.empty).data.value name key =
      (valuesAt name key none lines).getLast? := by
  have hread := (foldl_readLine placed_empty lines name key).2.2
  rw [INIStructure.value_empty, Option.or_none] at hread
  exact hread

theorem readLines_lineData (lines : List Bytes) (data : INIStructure) :
    (readLines lines data).lineData = keptLines none lines :=
  foldl_readLine_lineData _ lines

theorem readLines_keptLines (lines : List Bytes) (data : INIStructure) :
    readLines (keptLines none lines) data = readLines lines data :=
  foldl_readLine_keptLines ⟨data, [], false, []⟩ lines

/-- What a file means: the sections that have a line in it, and for a key the last value that
a line gives it.  The lines that are kept for the writer are lines of the file, and mean the
same. -/
theorem readStructure_meaning (file : Bytes) :
    let reading := readStructure file INIMap.empty
    (∀ name, reading.data.Names name ↔ name ∈ headings (readFile file)) ∧
      (∀ name key, reading.data.value name key =
        (valuesAt name key none (readFile file)).getLast?) ∧
      reading.lineData.Sublist (readFile file) ∧
      readLines reading.lineData INIMap.empty = reading := by
  intro reading
  have hlines : reading.lineData = keptLines none (readFile file) :=
    readLines_lineData (readFile file) INIMap.empty
  refine ⟨readLines_names (readFile file), readLines_value (readFile file), ?_, ?_⟩
  · rw [hlines]
    exact keptLines_sublist none (readFile file)
  · rw [hlines, readLines_keptLines]
    rfl

end MINI
end WhiteSmo
