import WhiteSmo.Config.Preserved

/-!
# `INIFile`

The three calls on a file: `read`, `generate` and `write`.  A file that is not there yet is
generated, any other one is read first and written with its lines.  What has been written
is read back, and writing it once more leaves every byte.
-/

namespace WhiteSmo
namespace MINI

/-! ## The calls -/

/-- What stands under a name, and what the system lets the program do with it. -/
structure File where
  /-- `none` when `stat` finds nothing. -/
  contents : Option Bytes
  readable : Bool
  writable : Bool

abbrev Files := Bytes → File

/-- The file behind a `std::ofstream` that has written `text`. -/
def Files.put (files : Files) (filename text : Bytes) : Files :=
  Function.update files filename { files filename with contents := some text }

theorem Files.put_self (files : Files) (filename text : Bytes) :
    files.put filename text filename =
      ⟨some text, (files filename).readable, (files filename).writable⟩ :=
  Function.update_self _ _ _

theorem Files.put_of_ne (files : Files) {filename other : Bytes} (h : other ≠ filename)
    (text : Bytes) : files.put filename text other = files other :=
  Function.update_of_ne h _ _

/-- `INIReader reader(filename, true); reader >> data`, `none` when the file is not open. -/
def File.open (file : File) (data : INIStructure) : Option Reading :=
  match file.contents with
  | some bytes => if file.readable then some (readStructure bytes data) else none
  | none => none

namespace INIFile

def read (files : Files) (filename : Bytes) (data : INIStructure) : Bool × INIStructure :=
  let data := if data.size ≠ 0 then data.clear else data
  if filename = [] then (false, data)
  else
    match (files filename).open data with
    | some reading => (true, reading.data)
    | none => (false, data)

def generate (prettyPrint : Bool) (files : Files) (filename : Bytes) (data : INIStructure) :
    Bool × Files :=
  if filename = [] then (false, files)
  else if (files filename).writable then
    (true, files.put filename (MINI.generate prettyPrint data))
  else (false, files)

/-- `write`, `none` when the loop of `getLazyOutput` does not end. -/
def write (prettyPrint : Bool) (files : Files) (filename : Bytes) (data : INIStructure) :
    Option (Bool × Files) :=
  if filename = [] then some (false, files)
  else
    match (files filename).contents with
    | none => some (generate prettyPrint files filename data)
    | some bytes =>
      match (files filename).open INIMap.empty with
      | none => some (false, files)
      | some reading =>
        (getLazyOutput prettyPrint data reading.data reading.lineData).map fun output =>
          if (files filename).writable then
            (true, files.put filename (withMark (isBOM bytes) (joinLines output)))
          else (false, files)

end INIFile

/-! ## A new file is one without lines -/

section

variable {prettyPrint : Bool} {data : INIStructure}

theorem sectionLines_getLast? (it : Bytes × INIMap Bytes) :
    (sectionLines prettyPrint it).getLast? ≠ some [] := by
  intro hlast
  have hmem := List.mem_of_getLast? hlast
  rcases List.mem_cons.mp hmem with hnil | hmem
  · cases hnil
  · obtain ⟨e, -, hnil⟩ := List.mem_map.mp hmem
    have hsign : equals ∈ entryLine prettyPrint e.1 e.2 := by
      rw [entryLine, List.mem_append, List.mem_append]
      left; right
      cases prettyPrint <;> decide
    rw [hnil] at hsign
    cases hsign

theorem addSection_empty (it : Bytes × INIMap Bytes) {output : List Bytes}
    (hlast : output.getLast? ≠ some []) :
    addSection prettyPrint INIMap.empty output it =
      output ++
        ((if prettyPrint ∧ output ≠ [] then [[]] else []) ++ sectionLines prettyPrint it) := by
  have hhas : ((INIMap.empty : INIStructure).has it.1) = false := rfl
  rw [addSection, hhas, if_neg Bool.false_ne_true]
  dsimp only
  rw [sectionLines, List.append_assoc, List.singleton_append]
  by_cases hblank : prettyPrint = true ∧ output ≠ []
  · rw [if_pos ⟨hblank.1, List.length_pos_iff.mpr hblank.2, hlast⟩, if_pos hblank,
      List.append_assoc]
  · rw [if_neg fun h => hblank ⟨h.1, List.length_pos_iff.mp h.2.1⟩, if_neg hblank,
      List.nil_append]

/-- The sections that come behind `output` when none of them is in the file. -/
theorem foldl_addSection_empty (sections : List (Bytes × INIMap Bytes)) {output : List Bytes}
    (hlast : output.getLast? ≠ some []) :
    sections.foldl (addSection prettyPrint INIMap.empty) output =
      output ++ ((if prettyPrint ∧ output ≠ [] ∧ sections ≠ [] then [[]] else []) ++
        generatedLines prettyPrint sections) := by
  induction sections generalizing output with
  | nil => simp [generatedLines]
  | cons it rest ih =>
    have hne : sectionLines prettyPrint it ≠ [] := List.cons_ne_nil _ _
    have hlast' : (addSection prettyPrint INIMap.empty output it).getLast? ≠ some [] := by
      rw [addSection_empty it hlast, ← List.append_assoc, List.getLast?_append_of_ne_nil _ hne]
      exact sectionLines_getLast? it
    have hne' : addSection prettyPrint INIMap.empty output it ≠ [] := by
      rw [addSection_empty it hlast, ← List.append_assoc]
      exact List.append_ne_nil_of_right_ne_nil _ hne
    rw [List.foldl_cons, ih hlast', addSection_empty it hlast]
    rw [addSection_empty it hlast] at hne'
    cases rest with
    | nil => simp [generatedLines]
    | cons next rest => simp [generatedLines, hne]

/-- Over a file without lines the writer gives out the lines of the generator. -/
theorem getLazyOutput_nil : getLazyOutput prettyPrint data INIMap.empty [] =
    some (generatedLines prettyPrint data.data) := by
  rw [getLazyOutput_eq]
  have hlast : ([] : List Bytes).getLast? ≠ some [] := by simp
  have hfold := @foldl_addSection_empty prettyPrint data.data [] hlast
  rw [if_neg fun h => h.2.1 rfl] at hfold
  exact congrArg some hfold

end

/-! ## Bytes that were written -/

/-- The first line that is kept cannot be taken for a mark. -/
theorem head?_of_keeps {line : Bytes} (h : keeps none line = true) : line.head? ≠ some 0xEF := by
  intro hhead
  cases line with
  | nil => cases hhead
  | cons c line =>
    cases hhead
    have htrim : (trim (0xEF :: line)).head? = some 0xEF := by
      have hnil : ∀ c ∈ ([] : Bytes).head?, isDelimiter c = false := fun _ hmem => by cases hmem
      exact congrArg List.head? (Text.trim_append_cons hnil (by decide) line)
    have hparse : parseLine (0xEF :: line) = parseKeyValue (content (trim (0xEF :: line))) := by
      refine parseLine_eq_parseKeyValue ?_ ?_ fun hopen => ?_
      · intro hnil
        rw [hnil] at htrim
        cases htrim
      · rw [htrim]
        decide
      · rw [htrim] at hopen
        cases hopen
    rw [keeps, hparse, parseKeyValue] at h
    cases hsign : (blank (content (trim (0xEF :: line)))).findIdx? (· = equals) with
    | none => rw [hsign] at h; cases h
    | some i => rw [hsign] at h; cases h

theorem isBOM_joinLines {output : List Bytes} (hkept : AllKept none output) :
    isBOM (joinLines output) = false := by
  cases output with
  | nil => rfl
  | cons line lines =>
    have hline := head?_of_keeps hkept.1
    have hjoin : ∃ rest : Bytes, joinLines (line :: lines) = line ++ rest ∧
        rest.head? ≠ some 0xEF := by
      cases lines with
      | nil => exact ⟨[], (List.append_nil _).symm, by simp⟩
      | cons next lines =>
        refine ⟨endl ++ joinLines (next :: lines), List.append_assoc _ _ _, ?_⟩
        show some (10 : UInt8) ≠ some 0xEF
        decide
    obtain ⟨rest, hjoin, hrest⟩ := hjoin
    rw [hjoin]
    cases line with
    | nil =>
      cases rest with
      | nil => rfl
      | cons c rest => exact isBOM_of_head rfl fun heq => hrest (congrArg some heq)
    | cons c line => exact isBOM_of_head rfl fun heq => hline (congrArg some heq)

/-- What is read from a file that was written: its lines, or an empty one. -/
theorem readFile_written {mark : Bool} {output : List Bytes} (hlines : ∀ l ∈ output, IsLine l)
    (hkept : AllKept none output) :
    let file := withMark mark (joinLines output)
    isBOM file = mark ∧ (readFile file = output ∨
      (∀ l ∈ output, l = []) ∧ joinLines output = [] ∧
        (readFile file = [] ∨ readFile file = [[]])) := by
  intro file
  have hmark : isBOM file = mark := by
    cases mark with
    | true => exact isBOM_withMark _
    | false => exact isBOM_joinLines hkept
  refine ⟨hmark, ?_⟩
  by_cases hne : output = []
  · right
    subst hne
    refine ⟨fun _ hnil => absurd hnil List.not_mem_nil, rfl, ?_⟩
    cases mark with
    | true =>
      right
      decide
    | false =>
      left
      rfl
  · by_cases hfile : file = []
    · right
      have hjoin : joinLines output = [] := (List.append_eq_nil_iff.mp hfile).2
      refine ⟨?_, hjoin, Or.inl (hfile ▸ rfl)⟩
      · cases output with
        | nil => exact absurd rfl hne
        | cons line lines =>
          cases lines with
          | nil => exact fun l hl => (List.mem_singleton.mp hl).trans hjoin
          | cons next lines =>
            have hpos := congrArg List.length hjoin
            rw [joinLines, List.length_append, List.length_append] at hpos
            simp [endl] at hpos
    · left
      exact readFile_withMark hlines hne hfile hmark

/-- Empty lines say nothing. -/
theorem blank_meaning {lines : List Bytes} (h : ∀ l ∈ lines, l = []) :
    AllKept none lines ∧ headings lines = [] ∧ comments lines = [] ∧
      ∀ name key, valuesAt name key none lines = [] := by
  have hinert : ∀ l ∈ lines, Inert l := fun l hl => Or.inl (by rw [h l hl]; rfl)
  refine ⟨allKept_of_inert hinert _, (inert_meaning hinert none [] []).2.1, ?_,
    fun name key => (inert_meaning hinert none name key).2.2⟩
  refine List.filter_eq_nil_iff.mpr fun l hl => ?_
  rw [h l hl]
  decide

/-- The lines that are read back say what was written, and are written as the same bytes. -/
theorem readFile_meaning {mark : Bool} {output : List Bytes} (hlines : ∀ l ∈ output, IsLine l)
    (hkept : AllKept none output) :
    let back := readFile (withMark mark (joinLines output))
    AllKept none back ∧ headings back = headings output ∧ comments back = comments output ∧
      (∀ name key, valuesAt name key none back = valuesAt name key none output) ∧
      joinLines back = joinLines output := by
  intro back
  rcases (readFile_written hlines hkept).2 with hsame | ⟨hblank, hjoin, hback⟩
  · rw [show back = output from hsame]
    exact ⟨hkept, rfl, rfl, fun _ _ => rfl, rfl⟩
  · have hblank' : ∀ l ∈ back, l = [] := by
      rcases hback with hnil | hone
      · rw [show back = [] from hnil]
        exact fun _ hmem => absurd hmem List.not_mem_nil
      · rw [show back = [[]] from hone]
        exact fun l hl => List.mem_singleton.mp hl
    have hjoin' : joinLines back = [] := by
      rcases hback with hnil | hone
      · rw [show back = [] from hnil]
        rfl
      · rw [show back = [[]] from hone]
        rfl
    obtain ⟨-, hheadings, hcomments, hvalues⟩ := blank_meaning hblank
    obtain ⟨hkept', hheadings', hcomments', hvalues'⟩ := blank_meaning hblank'
    refine ⟨hkept', hheadings'.trans hheadings.symm, hcomments'.trans hcomments.symm,
      fun name key => (hvalues' name key).trans (hvalues name key).symm, hjoin'.trans hjoin.symm⟩

/-! ## Writing and reading -/

namespace File

def lines (file : File) : List Bytes :=
  match file.contents with
  | some bytes => readFile bytes
  | none => []

def mark (file : File) : Bool :=
  match file.contents with
  | some bytes => isBOM bytes
  | none => false

/-- What the file says. -/
def said (file : File) : INIStructure := (readLines file.lines INIMap.empty).data

end File

variable {prettyPrint : Bool} {data : INIStructure} {file : File} {files : Files}
  {filename : Bytes}

/-- What can be written over a file and read back from it. -/
structure Storable (prettyPrint : Bool) (data : INIStructure) (file : File) : Prop where
  savable : Savable prettyPrint data file.said
  fits : Fits data file.said

/-- No value in the file begins with an escape sequence. -/
def Unescaped (file : File) : Prop :=
  ∀ name key, ∀ value ∈ valuesAt name key none file.lines, ¬ BeginsEscaped value

/-- The value on the line, if it has one, does not begin with an escape sequence. -/
def unescapedLine (line : Bytes) : Bool :=
  match parseLine line with
  | .keyValue _ value => !decide (BeginsEscaped value)
  | _ => true

theorem unescaped_of_lines (h : file.lines.all unescapedLine = true) : Unescaped file := by
  intro name key value hvalue hbegins
  obtain ⟨line, hline, k, hparse, -⟩ := exists_of_mem_valuesAt hvalue
  have hplain := List.all_eq_true.mp h line hline
  rw [unescapedLine, hparse] at hplain
  simp [hbegins] at hplain

/-- What can be generated can be written over any such file. -/
theorem Legal.storable (h : Legal prettyPrint data) (hplain : Unescaped file) :
    Storable prettyPrint data file := by
  have hentry : ∀ name key value, data.value name key = some value →
      Plain prettyPrint key (trim value) ∧ IsLine key ∧ IsLine (trim value) := by
    intro name key value hvalue
    obtain ⟨collection, hname, hkey⟩ := Option.bind_eq_some_iff.mp hvalue
    exact h.entries (name, collection) ((OrderedMap.mem_iff_find data.indexes.nodup).mpr hname)
      (key, value) ((OrderedMap.mem_iff_find collection.indexes.nodup).mpr hkey)
  have hsection : ∀ name, data.Names name → semicolon ∉ name ∧ IsLine name := by
    intro name hname
    obtain ⟨collection, hfind⟩ := Option.isSome_iff_exists.mp hname
    exact h.names (name, collection) ((OrderedMap.mem_iff_find data.indexes.nodup).mpr hfind)
  refine ⟨⟨?_, ?_, ?_⟩, ⟨?_, ?_, ?_⟩⟩
  · intro name key value outputValue hold hvalue _
    have hmem : value ∈ valuesAt name key none file.lines := by
      rw [File.said, readLines_value] at hold
      exact List.mem_of_getLast? hold
    exact ⟨hplain name key value hmem, fun hopen c hc =>
      (hentry name key outputValue hvalue).1.not_heading hopen c (List.mem_append_right _ hc)⟩
  · exact fun name key value _ hvalue => (hentry name key value hvalue).1
  · exact fun name hname _ => (hsection name hname).1
  · exact fun name key value hvalue _ => (hentry name key value hvalue).2.2
  · exact fun name key value hvalue _ => (hentry name key value hvalue).2.1
  · exact fun name hname _ => (hsection name hname).2

theorem File.said_eq (file : File) :
    file.said = (readLines (keptLines none file.lines) INIMap.empty).data := by
  rw [readLines_keptLines, said]

theorem File.lines_isLine (file : File) : ∀ line ∈ keptLines none file.lines, IsLine line := by
  have hlines : ∀ line ∈ file.lines, IsLine line := by
    unfold lines
    cases file.contents with
    | none => exact fun _ hnil => absurd hnil List.not_mem_nil
    | some bytes => exact readFile_isLine bytes
  exact fun line hline => hlines line ((keptLines_sublist none file.lines).subset hline)

/-- The lines that are written. -/
theorem Storable.exists_output (h : Storable prettyPrint data file) : ∃ output,
    getLazyOutput prettyPrint data file.said (keptLines none file.lines) = some output ∧
      (∀ line ∈ output, IsLine line) ∧ AllKept none output ∧
      comments output = comments file.lines ∧ (∀ name, name ∈ headings output ↔ data.Names name) ∧
      ∀ name key, (valuesAt name key none output).getLast? = (data.value name key).map trim := by
  have hsavable := h.savable
  have hfits := h.fits
  rw [File.said_eq] at hsavable hfits
  obtain ⟨output, houtput, hkept, hcomments, hnames, hvalues⟩ :=
    readLines_getLazyOutput (allKept_keptLines none file.lines) hsavable
  refine ⟨output, File.said_eq file ▸ houtput,
    getLazyOutput_isLine file.lines_isLine hsavable hfits houtput, hkept,
    hcomments.trans (comments_keptLines none _), fun name => ?_, fun name key => ?_⟩
  · rw [← readLines_names, hnames]
  · rw [← readLines_value, hvalues]

namespace INIFile

theorem write_eq (hname : filename ≠ []) (hread : (files filename).readable = true)
    (hwrite : (files filename).writable = true) {output : List Bytes}
    (h : getLazyOutput prettyPrint data (files filename).said
      (keptLines none (files filename).lines) = some output) :
    write prettyPrint files filename data =
      some (true, files.put filename (withMark (files filename).mark (joinLines output))) := by
  rw [write, if_neg hname]
  unfold File.said File.lines at h
  unfold File.mark File.open
  cases hcontents : (files filename).contents with
  | none =>
    rw [hcontents] at h
    have hlines : generatedLines prettyPrint data.data = output :=
      Option.some.inj (getLazyOutput_nil.symm.trans h)
    simp only [generate, if_neg hname, hwrite, if_true, ← hlines, ← writeSections_eq]
    rfl
  | some bytes =>
    simp only [hcontents, hread, if_true] at h ⊢
    rw [readStructure, readLines_lineData, h]
    simp [hwrite]

theorem read_eq (hname : filename ≠ []) (hread : (files filename).readable = true) {bytes : Bytes}
    (hcontents : (files filename).contents = some bytes) (before : INIStructure) :
    read files filename before = (true, (files filename).said) := by
  have hclear : (if before.size ≠ 0 then before.clear else before) = INIMap.empty := by
    split
    case isTrue => rfl
    case isFalse hsize =>
      exact INIMap.ext_data (List.length_eq_zero_iff.mp (not_not.mp hsize))
  rw [read, hclear, if_neg hname, File.open, hcontents, hread, File.said, File.lines, hcontents]
  rfl

/-- What a file says when a structure has been written over it. -/
theorem said_write (hname : filename ≠ []) (hread : (files filename).readable = true)
    (hwrite : (files filename).writable = true)
    (h : Storable prettyPrint data (files filename)) :
    ∃ files' text, write prettyPrint files filename data = some (true, files') ∧
      (∀ other, other ≠ filename → files' other = files other) ∧
      files' filename = ⟨some text, true, true⟩ ∧
      (files' filename).mark = (files filename).mark ∧
      comments (files' filename).lines = comments (files filename).lines ∧
      (∀ name, (files' filename).said.Names name ↔ data.Names name) ∧
      ∀ name key, (files' filename).said.value name key = (data.value name key).map trim := by
  obtain ⟨output, houtput, hlines, hkept, hcomments, hnames, hvalues⟩ := h.exists_output
  obtain ⟨-, hheadings', hcomments', hvalues', -⟩ :=
    @readFile_meaning (files filename).mark output hlines hkept
  generalize htext : withMark (files filename).mark (joinLines output) = text at *
  have hfile : files.put filename text filename = ⟨some text, true, true⟩ := by
    rw [files.put_self, hread, hwrite]
  have hlines' : (files.put filename text filename).lines = readFile text := by rw [hfile]; rfl
  refine ⟨files.put filename text, text, htext ▸ write_eq hname hread hwrite houtput,
    fun other hne => files.put_of_ne hne text, hfile, ?_, ?_, fun name => ?_, fun name key => ?_⟩
  · rw [hfile]
    exact htext ▸ (readFile_written hlines hkept).1
  · rw [hlines', hcomments', hcomments]
  · rw [File.said, readLines_names, hlines', hheadings', hnames]
  · rw [File.said, readLines_value, hlines', hvalues', hvalues]

/-- Whatever the file was, after a write a read gives the structure back: its sections, and
each key with its value without the white space around it.  The file keeps its mark and its
comments, and no other file changes. -/
theorem read_write (hname : filename ≠ []) (hread : (files filename).readable = true)
    (hwrite : (files filename).writable = true)
    (h : Storable prettyPrint data (files filename)) :
    ∃ files', write prettyPrint files filename data = some (true, files') ∧
      (∀ other, other ≠ filename → files' other = files other) ∧
      (files' filename).mark = (files filename).mark ∧
      comments (files' filename).lines = comments (files filename).lines ∧
      ∀ before, ∃ back, read files' filename before = (true, back) ∧
        (∀ name, back.Names name ↔ data.Names name) ∧
        ∀ name key, back.value name key = (data.value name key).map trim := by
  obtain ⟨files', text, hwritten, hothers, hfile, hmark, hcomments, hnames, hvalues⟩ :=
    said_write hname hread hwrite h
  refine ⟨files', hwritten, hothers, hmark, hcomments, fun before => ⟨_, ?_, hnames, hvalues⟩⟩
  exact read_eq hname (by rw [hfile]) (congrArg File.contents hfile) before

/-- One key changes, one goes and one comes. -/
theorem read_write_changed :
    let filename := ascii "Config.ini"
    let files : Files := fun _ => ⟨some (ascii "[Server]\nPort=1\n; old\nName=a"), true, true⟩
    let data := assignValue (assignValue INIMap.empty (ascii "Server") (ascii "Port")
      (ascii "8765")) (ascii "ServerDB") (ascii "Salt") (ascii " b ")
    ∃ files', write true files filename data = some (true, files') ∧
      (∀ other, other ≠ filename → files' other = files other) ∧
      (files' filename).mark = (files filename).mark ∧
      comments (files' filename).lines = comments (files filename).lines ∧
      ∀ before, ∃ back, read files' filename before = (true, back) ∧
        (∀ name, back.Names name ↔ data.Names name) ∧
        ∀ name key, back.value name key = (data.value name key).map trim := by
  intro filename files data
  exact read_write (by decide +kernel) rfl rfl (Legal.storable
    ⟨by decide +kernel, by decide +kernel⟩ (unescaped_of_lines (by decide +kernel)))

/-- Over an empty file the writer leaves the bytes of the generator. -/
theorem write_eq_generate (hread : (files filename).readable = true)
    (hcontents : (files filename).contents = some []) :
    write prettyPrint files filename data = some (generate prettyPrint files filename data) := by
  by_cases hname : filename = []
  · simp [write, generate, hname]
  · have hopen : (files filename).open INIMap.empty = some ⟨INIMap.empty, [], false, []⟩ := by
      rw [File.open, hcontents, hread]
      rfl
    have hbytes : withMark (isBOM []) (joinLines (generatedLines prettyPrint data.data)) =
        MINI.generate prettyPrint data := (writeSections_eq prettyPrint data.data).symm
    rw [write, if_neg hname, hcontents, hopen]
    dsimp only
    rw [getLazyOutput_nil, Option.map_some, hbytes, generate, if_neg hname]

theorem write_eq_generate_empty :
    let files : Files := fun _ => ⟨some [], true, true⟩
    let data := assignValue INIMap.empty (ascii "Server") (ascii "Port") (ascii "8765")
    write true files (ascii "Config.ini") data =
      some (generate true files (ascii "Config.ini") data) :=
  write_eq_generate rfl rfl

/-- A write always comes to an end.  When it succeeds is known before, and when it does not
no file has changed. -/
theorem write_result (prettyPrint : Bool) (files : Files) (filename : Bytes)
    (data : INIStructure) : ∃ success files',
      write prettyPrint files filename data = some (success, files') ∧
      (success = true ↔ filename ≠ [] ∧ (files filename).writable = true ∧
        ((files filename).contents.isSome = true → (files filename).readable = true)) ∧
      (success = false → files' = files) := by
  by_cases hname : filename = []
  · exact ⟨false, files, by rw [write, if_pos hname], by simp [hname], fun _ => rfl⟩
  · rw [write, if_neg hname]
    cases hcontents : (files filename).contents with
    | none =>
      cases hwrite : (files filename).writable with
      | true =>
        exact ⟨true, _, by rw [generate, if_neg hname, hwrite, if_pos rfl], by simp [hname],
          fun hfalse => by cases hfalse⟩
      | false =>
        exact ⟨false, _, by rw [generate, if_neg hname, hwrite, if_neg Bool.false_ne_true], by simp,
          fun _ => rfl⟩
    | some bytes =>
      cases hread : (files filename).readable with
      | false =>
        have hopen : (files filename).open INIMap.empty = none := by
          rw [File.open, hcontents, hread]
          rfl
        exact ⟨false, files, by rw [hopen], by simp, fun _ => rfl⟩
      | true =>
        have hopen : (files filename).open INIMap.empty =
            some (readStructure bytes INIMap.empty) := by
          rw [File.open, hcontents, hread]
          rfl
        rw [hopen]
        dsimp only
        rw [getLazyOutput_eq]
        cases hwrite : (files filename).writable with
        | true => exact ⟨true, _, rfl, by simp [hname], fun hfalse => by cases hfalse⟩
        | false => exact ⟨false, _, rfl, by simp, fun _ => rfl⟩

/-- A structure that a file says already is written over it without touching a line. -/
theorem write_of_settled (hname : filename ≠ []) (hread : (files filename).readable = true)
    (hwrite : (files filename).writable = true)
    (hnames : ∀ name, (files filename).said.Names name ↔ data.Names name)
    (hvalues : ∀ name key, ∀ value ∈ valuesAt name key none (files filename).lines,
      data.value name key = some value)
    (hkeys : ∀ name key value, data.value name key = some value →
      ((files filename).said.value name key).isSome = true) :
    write prettyPrint files filename data = some (true, files.put filename
      (withMark (files filename).mark (joinLines (keptLines none (files filename).lines)))) := by
  refine write_eq hname hread hwrite (getLazyOutput_of_settled (allKept_keptLines none _) ?_ ?_
    (fun name => (hnames name).mpr) hkeys)
  · intro name hmem
    rw [(keptLines_meaning _ none [] []).2.1] at hmem
    exact (hnames name).mp ((readLines_names _ name).mpr hmem)
  · intro name key value hmem
    rw [(keptLines_meaning _ none name key).2.2] at hmem
    exact hvalues name key value hmem

/-- A structure that says what was written is written again as the same bytes, with or
without pretty printing.  No other value of its keys in the old file may begin with an
escape sequence. -/
theorem write_same (hname : filename ≠ []) (hread : (files filename).readable = true)
    (hwrite : (files filename).writable = true) (h : Storable prettyPrint data (files filename))
    (hplain : ∀ name key value, data.value name key = some value →
      ∀ v ∈ valuesAt name key none (files filename).lines, v = value ∨ ¬ BeginsEscaped v)
    {files' : Files} (hfirst : write prettyPrint files filename data = some (true, files'))
    {data' : INIStructure} (hnames' : ∀ name, data'.Names name ↔ data.Names name)
    (hdata' : ∀ name key, data'.value name key = (data.value name key).map trim)
    (prettyPrint' : Bool) : write prettyPrint' files' filename data' = some (true, files') := by
  obtain ⟨output, houtput, hlines, hkept, -, hnames, hvalues⟩ := h.exists_output
  obtain ⟨hkept', hheadings', -, hvalues', hjoin'⟩ :=
    @readFile_meaning (files filename).mark output hlines hkept
  have hmark := (@readFile_written (files filename).mark output hlines hkept).1
  rw [write_eq hname hread hwrite houtput] at hfirst
  generalize htext : withMark (files filename).mark (joinLines output) = text at *
  have hfile : files' filename = ⟨some text, true, true⟩ := by
    rw [← (Prod.mk.inj (Option.some.inj hfirst)).2, files.put_self, hread, hwrite]
  have hlines' : (files' filename).lines = readFile text := by rw [hfile]; rfl
  have hsaid : ∀ name key, (files' filename).said.value name key =
      (data.value name key).map trim := by
    intro name key
    rw [File.said, readLines_value, hlines', hvalues', hvalues]
  have hsame := @write_of_settled prettyPrint' data' files' filename hname (by rw [hfile])
    (by rw [hfile]) (fun name => ?_) (fun name key value hmem => ?_) fun name key value hvalue => ?_
  · have hput : files'.put filename text = files' := by
      refine funext fun other => ?_
      by_cases hother : other = filename
      · rw [hother, files'.put_self, hfile]
      · exact files'.put_of_ne hother text
    have hmark' : (files' filename).mark = (files filename).mark := by rw [hfile]; exact hmark
    rw [hsame, hmark', hlines', keptLines_of_allKept hkept', hjoin', htext, hput]
  · rw [File.said, readLines_names, hlines', hheadings', hnames, hnames']
  · rw [hlines', hvalues'] at hmem
    have hsavable := h.savable
    rw [File.said_eq] at hsavable houtput
    obtain ⟨v, hv, rfl⟩ := valuesAt_getLazyOutput (allKept_keptLines none _) hsavable
      (fun name key value hvalue v hv => hplain name key value hvalue v (by
        rw [(keptLines_meaning _ none name key).2.2] at hv
        exact hv)) houtput hmem
    rw [hdata', hv]
    rfl
  · rw [hsaid, ← hdata', hvalue]
    rfl

/-- What has been written, read and written again leaves every byte where it is, with or
without pretty printing. -/
theorem write_write (hname : filename ≠ []) (hread : (files filename).readable = true)
    (hwrite : (files filename).writable = true) (h : Storable prettyPrint data (files filename))
    (hplain : ∀ name key value, data.value name key = some value →
      ∀ v ∈ valuesAt name key none (files filename).lines, v = value ∨ ¬ BeginsEscaped v) :
    ∃ files', write prettyPrint files filename data = some (true, files') ∧
      ∀ prettyPrint' before,
        write prettyPrint' files' filename (read files' filename before).2 =
          some (true, files') := by
  obtain ⟨files', text, hwritten, -, hfile, -, -, hnames, hvalues⟩ :=
    said_write hname hread hwrite h
  refine ⟨files', hwritten, fun prettyPrint' before => ?_⟩
  have hback := read_eq hname (by rw [hfile]) (congrArg File.contents hfile) before
  rw [hback]
  exact write_same hname hread hwrite h hplain hwritten hnames hvalues prettyPrint'

/-- Two values in one file, one of which changes. -/
theorem write_write_changed :
    let filename := ascii "Config.ini"
    let files : Files := fun _ => ⟨some (ascii "[Server]\nPort = 1 \n; old\nPort=2"), true, true⟩
    let data := assignValue INIMap.empty (ascii "Server") (ascii "Port") (ascii "8765")
    ∃ files', write true files filename data = some (true, files') ∧
      ∀ prettyPrint' before,
        write prettyPrint' files' filename (read files' filename before).2 =
          some (true, files') := by
  intro filename files data
  have hplain : Unescaped (files filename) := unescaped_of_lines (by decide +kernel)
  exact write_write (by decide +kernel) rfl rfl
    (Legal.storable ⟨by decide +kernel, by decide +kernel⟩ hplain)
    fun name key _ _ v hv => Or.inr (hplain name key v hv)

/-- What is read from a file and written back leaves its lines as they are, when the lines of
a key have one value.  Lines that mean nothing go, and so does what the reader passes over. -/
theorem write_read (hname : filename ≠ []) (hread : (files filename).readable = true)
    (hwrite : (files filename).writable = true) {bytes : Bytes}
    (hcontents : (files filename).contents = some bytes)
    (hone : ∀ name key, ∀ v ∈ valuesAt name key none (readFile bytes),
      ∀ v' ∈ valuesAt name key none (readFile bytes), v = v') (before : INIStructure) :
    write prettyPrint files filename (read files filename before).2 =
      some (true, files.put filename
        (withMark (isBOM bytes) (joinLines (keptLines none (readFile bytes))))) := by
  have hlines : (files filename).lines = readFile bytes := by rw [File.lines, hcontents]
  have hmark : (files filename).mark = isBOM bytes := by rw [File.mark, hcontents]
  rw [read_eq hname hread hcontents before, ← hlines, ← hmark]
  refine write_of_settled hname hread hwrite (fun name => Iff.rfl) (fun name key value hmem => ?_)
    fun name key value hvalue => ?_
  · rw [hlines] at hmem
    rw [File.said, readLines_value, hlines]
    cases hlast : (valuesAt name key none (readFile bytes)).getLast? with
    | none =>
      rw [List.getLast?_eq_none_iff.mp hlast] at hmem
      cases hmem
    | some last => rw [hone name key value hmem last (List.mem_of_getLast? hlast)]
  · rw [hvalue]
    rfl

theorem write_read_one :
    let filename := ascii "Config.ini"
    let bytes := ascii "[Server]\r\nnothing\n Port=1"
    let files : Files := fun _ => ⟨some bytes, true, true⟩
    write true files filename (read files filename INIMap.empty).2 =
      some (true, files.put filename
        (withMark (isBOM bytes) (joinLines (keptLines none (readFile bytes))))) := by
  intro filename bytes files
  have hparse : (readFile bytes).map parseLine =
      [.heading (ascii "Server"), .unknown, .keyValue (ascii "Port") (ascii "1")] := by
    decide +kernel
  have hvalue : ∀ name key, ∀ v ∈ valuesAt name key none (readFile bytes), v = ascii "1" := by
    intro name key v hv
    obtain ⟨line, hline, k, hkey, -⟩ := exists_of_mem_valuesAt hv
    have hmem := List.mem_map_of_mem (f := parseLine) hline
    rw [hparse, hkey] at hmem
    simp at hmem
    exact hmem.2
  exact write_read (by decide +kernel) rfl rfl rfl
    (fun name key v hv v' hv' => (hvalue name key v hv).trans (hvalue name key v' hv').symm) _

end INIFile

end MINI
end WhiteSmo
