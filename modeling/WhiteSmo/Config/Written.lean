import WhiteSmo.Config.Writer

/-!
# What is read back from a written file

`getLazyOutput` takes the lines of a file, what they say, and a structure that is to be
written.  The lines it gives out say what the structure says: they name its sections, and
the last value of each key is the one in the structure.
-/

namespace WhiteSmo
namespace MINI

/-! ## Keys and values of a line -/

theorem trim_of_keyValue {line key value : Bytes} (h : parseLine line = .keyValue key value) :
    trim key = key ∧ trim value = value := by
  obtain ⟨pre, post, -, rfl, rfl⟩ := exists_entry h
  refine ⟨Text.trim_of_trimmed ⟨?_, ?_⟩, trim_trim post⟩
  · intro c hc
    rcases Text.head?_unescape hc with rfl | hhead
    · rfl
    · exact (Text.trim_trimmed pre).1 c hhead
  · intro c hc
    rw [unescape, Text.getLast?_unescape] at hc
    exact (Text.trim_trimmed pre).2 c hc

/-- Behind an opening bracket neither the key nor the value has a sign that would make the
line something else. -/
theorem plain_of_keyValue {line key value : Bytes} (h : parseLine line = .keyValue key value)
    (hopen : key.head? = some openingBracket) :
    ∀ c ∈ value, c ≠ semicolon ∧ c ≠ closingBracket := by
  obtain ⟨p⟩ := exists_parts h
  have hname : p.name.head? = some openingBracket := by
    rw [p.key_eq] at hopen
    rcases Text.head?_unescape hopen with heq | hhead
    · cases heq
    · exact hhead
  exact fun c hc => p.not_heading hname c (List.mem_append_right _ hc)

theorem tolower_eq_openingBracket_iff {c : UInt8} :
    tolower c = openingBracket ↔ c = openingBracket := by
  have htoNat := toNat_tolower c
  rw [← UInt8.toNat_inj, ← UInt8.toNat_inj]
  show (tolower c).toNat = 91 ↔ c.toNat = 91
  split at htoNat <;> omega

/-- A key begins with a bracket as it stands in the line when it does in the map. -/
theorem head?_normalise_iff {key : Bytes} (h : trim key = key) :
    (normalise key).head? = some openingBracket ↔ key.head? = some openingBracket := by
  rw [normalise, h]
  cases key with
  | nil => rfl
  | cons c key =>
    show some (tolower c) = some openingBracket ↔ some c = some openingBracket
    rw [Option.some.injEq, Option.some.injEq, tolower_eq_openingBracket_iff]

/-! ## Lines that say nothing, and lines that mINI makes -/

/-- Blank lines and comments. -/
def Inert (line : Bytes) : Prop := parseLine line = .none ∨ parseLine line = .comment

theorem Inert.meaning {line : Bytes} (h : Inert line) (current : Option Bytes) :
    sectionAfter line current = current ∧ headings [line] = [] ∧
      ∀ name key, valueAt name key current line = none := by
  unfold sectionAfter headings valueAt
  rcases h with h | h <;> simp [h]

theorem inert_meaning {lines : List Bytes} (h : ∀ line ∈ lines, Inert line)
    (current : Option Bytes) (name key : Bytes) :
    sectionBehind lines current = current ∧ headings lines = [] ∧
      valuesAt name key current lines = [] := by
  induction lines with
  | nil => exact ⟨rfl, rfl, rfl⟩
  | cons line lines ih =>
    obtain ⟨hsection, hheading, hvalue⟩ := (h line List.mem_cons_self).meaning current
    obtain ⟨hbehind, hheadings, hvalues⟩ := ih fun l hl => h l (List.mem_cons_of_mem line hl)
    refine ⟨?_, ?_, ?_⟩
    · rw [sectionBehind_cons, hsection, hbehind]
    · rw [show line :: lines = [line] ++ lines from rfl, headings_append, hheading, hheadings]
      rfl
    · rw [valuesAt, hsection, hvalue, hvalues]
      rfl

theorem allKept_append {lines lines' : List Bytes} {current : Option Bytes} :
    AllKept current (lines ++ lines') ↔
      AllKept current lines ∧ AllKept (sectionBehind lines current) lines' := by
  induction lines generalizing current with
  | nil => exact (iff_of_eq (true_and _)).symm
  | cons line lines ih => rw [List.cons_append, AllKept, ih, AllKept, and_assoc]; rfl

theorem allKept_of_inert {lines : List Bytes} (h : ∀ line ∈ lines, Inert line)
    (current : Option Bytes) : AllKept current lines := by
  induction lines generalizing current with
  | nil => trivial
  | cons line lines ih =>
    refine ⟨?_, ih (fun l hl => h l (List.mem_cons_of_mem line hl)) _⟩
    unfold keeps
    rcases h line List.mem_cons_self with hparse | hparse <;> rw [hparse]

/-- The comments of a file, in their order. -/
def comments (lines : List Bytes) : List Bytes := lines.filter fun line => parseLine line = .comment

theorem comments_append (lines lines' : List Bytes) :
    comments (lines ++ lines') = comments lines ++ comments lines' :=
  List.filter_append _ _

theorem comments_of_heading {line name : Bytes} (h : parseLine line = .heading name) :
    comments [line] = [] := by
  simp [comments, h]

theorem comments_of_keyValue {line key value : Bytes} (h : parseLine line = .keyValue key value) :
    comments [line] = [] := by
  simp [comments, h]

theorem comments_keptLines (current : Option Bytes) (lines : List Bytes) :
    comments (keptLines current lines) = comments lines := by
  induction lines generalizing current with
  | nil => rfl
  | cons line lines ih =>
    have hsplit : comments (line :: lines) = comments [line] ++ comments lines :=
      comments_append [line] lines
    rw [keptLines, hsplit]
    split
    case isTrue =>
      rw [← List.singleton_append, comments_append, ih]
    case isFalse hkeeps =>
      have hnot : comments [line] = [] := by
        unfold keeps at hkeeps
        cases hparse : parseLine line with
        | comment => rw [hparse] at hkeeps; exact absurd rfl hkeeps
        | _ => simp [comments, hparse]
      rw [hnot, ih, List.nil_append]

/-- The lines of entries in section `current`. -/
theorem entryLines_meaning {prettyPrint : Bool} {es : List (Bytes × Bytes)}
    (h : ∀ e ∈ es, normalise e.1 = e.1 ∧ Plain prettyPrint e.1 (trim e.2))
    (current : Option Bytes) (name key : Bytes) :
    let lines := es.map fun e => entryLine prettyPrint e.1 e.2
    sectionBehind lines current = current ∧ headings lines = [] ∧
      valuesAt name key current lines =
        if current = some name then (es.filter (·.1 = key)).map fun e => trim e.2 else [] := by
  intro lines
  induction es with
  | nil => simp [lines, sectionBehind, headings, valuesAt]
  | cons e es ih =>
    obtain ⟨hbehind, hheadings, hvalues⟩ := ih fun e he => h e (List.mem_cons_of_mem _ he)
    obtain ⟨hnormal, hplain⟩ := h e List.mem_cons_self
    have hparse := parseLine_entryLine (trim_of_normal hnormal) hplain
    have hsection : sectionAfter (entryLine prettyPrint e.1 e.2) current = current := by
      rw [sectionAfter, hparse]
    have hheading : headings [entryLine prettyPrint e.1 e.2] = [] := by
      simp [headings, hparse]
    have hlines : lines = [entryLine prettyPrint e.1 e.2] ++
        es.map fun e => entryLine prettyPrint e.1 e.2 := rfl
    refine ⟨?_, ?_, ?_⟩
    · rw [hlines, List.singleton_append, sectionBehind_cons, hsection, hbehind]
    · rw [hlines, headings_append, hheading, hheadings]
      rfl
    · rw [hlines, List.singleton_append, valuesAt, hsection, hvalues, valueAt, hparse]
      simp only [hnormal]
      by_cases hcurrent : current = some name
      · by_cases hkey : e.1 = key
        · simp [hcurrent, hkey]
        · simp [hcurrent, hkey]
      · simp [hcurrent]

theorem entryLines_kept {prettyPrint : Bool} {es : List (Bytes × Bytes)}
    (h : ∀ e ∈ es, normalise e.1 = e.1 ∧ Plain prettyPrint e.1 (trim e.2)) (name : Bytes) :
    AllKept (some name) (es.map fun e => entryLine prettyPrint e.1 e.2) := by
  induction es with
  | nil => trivial
  | cons e es ih =>
    obtain ⟨hnormal, hplain⟩ := h e List.mem_cons_self
    have hparse := parseLine_entryLine (trim_of_normal hnormal) hplain
    refine ⟨by rw [keeps, hparse]; rfl, ?_⟩
    rw [sectionAfter, hparse]
    exact ih fun e he => h e (List.mem_cons_of_mem _ he)

theorem entryLines_comments {prettyPrint : Bool} {es : List (Bytes × Bytes)}
    (h : ∀ e ∈ es, normalise e.1 = e.1 ∧ Plain prettyPrint e.1 (trim e.2)) :
    comments (es.map fun e => entryLine prettyPrint e.1 e.2) = [] := by
  refine List.filter_eq_nil_iff.mpr fun line hline => ?_
  obtain ⟨e, he, rfl⟩ := List.mem_map.mp hline
  obtain ⟨hnormal, hplain⟩ := h e he
  simp [parseLine_entryLine (trim_of_normal hnormal) hplain]

theorem mem_entryValues {es : List (Bytes × Bytes)} {key written : Bytes} :
    written ∈ (es.filter (·.1 = key)).map (fun e => trim e.2) ↔
      ∃ value, (key, value) ∈ es ∧ written = trim value := by
  rw [List.mem_map]
  constructor
  · rintro ⟨⟨k, value⟩, he, rfl⟩
    obtain ⟨he, hkey⟩ := List.mem_filter.mp he
    exact ⟨value, of_decide_eq_true hkey ▸ he, rfl⟩
  · rintro ⟨value, he, rfl⟩
    exact ⟨(key, value), List.mem_filter.mpr ⟨he, decide_eq_true rfl⟩, rfl⟩

theorem headingLine_meaning {n : Bytes} (hnormal : normalise n = n) (hplain : semicolon ∉ n)
    (current : Option Bytes) :
    sectionAfter (headingLine n) current = some n ∧ headings [headingLine n] = [n] ∧
      ∀ name key, valueAt name key current (headingLine n) = none := by
  have hparse : parseLine (headingLine n) = .heading n :=
    parseLine_heading (trim_of_normal hnormal) hplain
  unfold sectionAfter headings valueAt
  simp [hparse, hnormal]

theorem sectionBehind_eq (lines : List Bytes) (current : Option Bytes) :
    sectionBehind lines current = (headings lines).getLast?.or current := by
  induction lines generalizing current with
  | nil => rfl
  | cons line lines ih =>
    have hfirst : sectionAfter line current = (headings [line]).getLast?.or current := by
      unfold sectionAfter headings
      cases hparse : parseLine line <;> simp [hparse]
    rw [sectionBehind_cons, ih, hfirst, ← List.singleton_append (l := lines), headings_append,
      List.getLast?_append, Option.or_assoc]

theorem exists_of_mem_valuesAt {name key value : Bytes} {current : Option Bytes}
    {lines : List Bytes} (h : value ∈ valuesAt name key current lines) :
    ∃ line ∈ lines, ∃ k, parseLine line = .keyValue k value ∧ normalise k = key := by
  induction lines generalizing current with
  | nil => cases h
  | cons line lines ih =>
    rcases List.mem_append.mp h with hfirst | hrest
    · unfold valueAt at hfirst
      cases hparse : parseLine line with
      | keyValue k v =>
        simp only [hparse] at hfirst
        split at hfirst
        case isTrue hat =>
          rw [Option.toList_some, List.mem_singleton] at hfirst
          exact ⟨line, List.mem_cons_self, k, hfirst ▸ hparse, hat.2⟩
        case isFalse => cases hfirst
      | _ => rw [hparse] at hfirst; cases hfirst
    · obtain ⟨line', hline', hkey⟩ := ih hrest
      exact ⟨line', List.mem_cons_of_mem _ hline', hkey⟩

/-! ## What the output says so far -/

/-- What can be written over a file without being read back as something else: mINI puts no
escapes in front of a value, and leaves one that stands there. -/
structure Savable (prettyPrint : Bool) (data original : INIStructure) : Prop where
  changed : ∀ name key value outputValue, original.value name key = some value →
    data.value name key = some outputValue → value ≠ outputValue →
      ¬ BeginsEscaped value ∧ (key.head? = some openingBracket →
        ∀ c ∈ trim outputValue, c ≠ semicolon ∧ c ≠ closingBracket)
  added : ∀ name key value, original.value name key = none → data.value name key = some value →
    Plain prettyPrint key (trim value)
  sections : ∀ name, data.Names name → ¬ original.Names name → semicolon ∉ name

/-- What is read from the line that stands for a line with `value`. -/
def Carries (outputValue value written : Bytes) : Prop :=
  value = outputValue ∨ ¬ BeginsEscaped value → written = trim outputValue

/-- What `output` says when `lines` have been gone through.  The new keys of the section
`pending` are not in it yet. -/
structure Covers (data original : INIStructure) (lines output : List Bytes)
    (pending : Option Bytes) : Prop where
  named : ∀ name, name ∈ headings output ↔ name ∈ headings lines ∧ data.Names name
  removed : ∀ name key, (original.value name key).isSome = true → data.value name key = none →
    valuesAt name key none output = []
  carried : ∀ name key outputValue, (original.value name key).isSome = true →
    data.value name key = some outputValue →
      List.Forall₂ (Carries outputValue) (valuesAt name key none lines)
        (valuesAt name key none output)
  sound : ∀ name key, original.value name key = none → ∀ written ∈ valuesAt name key none output,
    ∃ value, data.value name key = some value ∧ written = trim value
  complete : ∀ name key value, original.value name key = none → data.value name key = some value →
    name ∈ headings lines → pending ≠ some name → valuesAt name key none output ≠ []
  kept : AllKept none output
  comments : comments output = comments lines

namespace Covers

variable {data original : INIStructure} {lines output : List Bytes} {pending : Option Bytes}

theorem nil : Covers data original [] [] none where
  named := by simp [headings]
  removed := fun _ _ _ _ => rfl
  carried := fun _ _ _ _ _ => .nil
  sound := fun _ _ _ _ hnil => absurd hnil List.not_mem_nil
  complete := fun _ _ _ _ _ hmem _ => absurd hmem List.not_mem_nil
  kept := trivial
  comments := rfl

/-- A line that says nothing may come or go. -/
theorem inert (h : Covers data original lines output pending) {line : Bytes} (hline : Inert line)
    {more : List Bytes} (hmore : ∀ line ∈ more, Inert line)
    (hcomments : MINI.comments more = MINI.comments [line]) :
    Covers data original (lines ++ [line]) (output ++ more) pending := by
  have hsource : ∀ name key, MINI.headings (lines ++ [line]) = MINI.headings lines ∧
      valuesAt name key none (lines ++ [line]) = valuesAt name key none lines := by
    intro name key
    have hone : ∀ l ∈ [line], Inert l := fun l hl => List.mem_singleton.mp hl ▸ hline
    obtain ⟨-, hheadings, hvalues⟩ := inert_meaning hone (sectionBehind lines none) name key
    rw [headings_append, valuesAt_append, hheadings, hvalues, List.append_nil, List.append_nil]
    exact ⟨rfl, rfl⟩
  have hout : ∀ name key, MINI.headings (output ++ more) = MINI.headings output ∧
      valuesAt name key none (output ++ more) = valuesAt name key none output := by
    intro name key
    obtain ⟨-, hheadings, hvalues⟩ := inert_meaning hmore (sectionBehind output none) name key
    rw [headings_append, valuesAt_append, hheadings, hvalues, List.append_nil, List.append_nil]
    exact ⟨rfl, rfl⟩
  constructor
  · intro name
    rw [(hsource name []).1, (hout name []).1]
    exact h.named name
  · intro name key
    rw [(hout name key).2]
    exact h.removed name key
  · intro name key outputValue
    rw [(hsource name key).2, (hout name key).2]
    exact h.carried name key outputValue
  · intro name key
    rw [(hout name key).2]
    exact h.sound name key
  · intro name key value
    rw [(hsource name key).1, (hout name key).2]
    exact h.complete name key value
  · exact allKept_append.mpr ⟨h.kept, allKept_of_inert hmore _⟩
  · rw [comments_append, comments_append, h.comments, hcomments]

/-- The head of a section that is written. -/
theorem heading (h : Covers data original lines output none) {line name : Bytes}
    (hline : parseLine line = .heading name) (hnames : data.Names (normalise name)) :
    Covers data original (lines ++ [line]) (output ++ [line]) (some (normalise name)) := by
  have hheading : MINI.headings [line] = [normalise name] := by simp [MINI.headings, hline]
  have hvalue : ∀ current n key, valuesAt n key current [line] = [] := by
    intro current n key
    rw [valuesAt_singleton, valueAt, hline]
    rfl
  have hvalues : ∀ (before : List Bytes) n key,
      valuesAt n key none (before ++ [line]) = valuesAt n key none before := by
    intro before n key
    rw [valuesAt_append, hvalue, List.append_nil]
  constructor
  · intro n
    rw [headings_append, headings_append, List.mem_append, List.mem_append, hheading, h.named,
      List.mem_singleton, or_and_right]
    exact or_congr_right ⟨fun heq => ⟨heq, heq ▸ hnames⟩, And.left⟩
  · intro n key
    rw [hvalues]
    exact h.removed n key
  · intro n key outputValue
    rw [hvalues, hvalues]
    exact h.carried n key outputValue
  · intro n key
    rw [hvalues]
    exact h.sound n key
  · intro n key value hold hnew hmem hpending
    rw [headings_append, List.mem_append, hheading, List.mem_singleton] at hmem
    rw [hvalues]
    refine h.complete n key value hold hnew (hmem.resolve_right fun heq => ?_) (by simp)
    exact hpending (by rw [heq])
  · exact allKept_append.mpr ⟨h.kept, by rw [keeps, hline], trivial⟩
  · rw [comments_append, comments_append, h.comments]

/-- The head of a section that is not written. -/
theorem headingDropped (h : Covers data original lines output none) {line name : Bytes}
    (hline : parseLine line = .heading name) (hnames : ¬ data.Names (normalise name)) :
    Covers data original (lines ++ [line]) output none := by
  have hheading : MINI.headings [line] = [normalise name] := by simp [MINI.headings, hline]
  have hvalues : ∀ n key,
      valuesAt n key none (lines ++ [line]) = valuesAt n key none lines := by
    intro n key
    rw [valuesAt_append, valuesAt_singleton, valueAt, hline, Option.toList_none, List.append_nil]
  constructor
  · intro n
    rw [headings_append, List.mem_append, hheading, h.named, List.mem_singleton, or_and_right]
    exact ⟨Or.inl, fun hor => hor.resolve_right fun hboth => hnames (hboth.1 ▸ hboth.2)⟩
  · exact h.removed
  · intro n key outputValue
    rw [hvalues]
    exact h.carried n key outputValue
  · exact h.sound
  · intro n key value hold hnew hmem
    rw [headings_append, List.mem_append, hheading, List.mem_singleton] at hmem
    refine h.complete n key value hold hnew (hmem.resolve_right fun heq => ?_)
    exact hnames (heq ▸ INIStructure.names_of_value hnew)
  · exact h.kept
  · rw [comments_append, comments_of_heading hline, h.comments, List.append_nil]

theorem valuesAt_keyValue {line key value : Bytes} (hline : parseLine line = .keyValue key value)
    (current : Option Bytes) (n k : Bytes) : valuesAt n k current [line] =
      if current = some n ∧ normalise key = k then [value] else [] := by
  rw [valuesAt_singleton, valueAt, hline]
  dsimp only
  split <;> rfl

/-- A key that the structure has no more. -/
theorem entryDropped (h : Covers data original lines output pending) {line key value name : Bytes}
    (hline : parseLine line = .keyValue key value) (hsource : sectionBehind lines none = some name)
    (hnone : data.value name (normalise key) = none) :
    Covers data original (lines ++ [line]) output pending := by
  have hheading : MINI.headings [line] = [] := by simp [MINI.headings, hline]
  constructor
  · intro n
    rw [headings_append, hheading, List.append_nil]
    exact h.named n
  · exact h.removed
  · intro n k outputValue hold hnew
    have hne : ¬ (some name = some n ∧ normalise key = k) := by
      rintro ⟨heq, rfl⟩
      cases heq
      rw [hnone] at hnew
      cases hnew
    rw [valuesAt_append, hsource, valuesAt_keyValue hline, if_neg hne, List.append_nil]
    exact h.carried n k outputValue hold hnew
  · exact h.sound
  · intro n k v
    rw [headings_append, hheading, List.append_nil]
    exact h.complete n k v
  · exact h.kept
  · rw [comments_append, comments_of_keyValue hline, h.comments, List.append_nil]

/-- A key that is written, as it was or with another value. -/
theorem entry (h : Covers data original lines output pending)
    {line line' key value value' name outputValue : Bytes}
    (hline : parseLine line = .keyValue key value)
    (hline' : parseLine line' = .keyValue key value')
    (hsource : sectionBehind lines none = some name)
    (htarget : sectionBehind output none = some name)
    (hold : (original.value name (normalise key)).isSome = true)
    (hnew : data.value name (normalise key) = some outputValue)
    (hcarries : Carries outputValue value value') :
    Covers data original (lines ++ [line]) (output ++ [line']) pending := by
  have hheading : MINI.headings [line] = [] := by simp [MINI.headings, hline]
  have hheading' : MINI.headings [line'] = [] := by simp [MINI.headings, hline']
  have hother : ∀ n k, ¬ (some name = some n ∧ normalise key = k) →
      valuesAt n k none (lines ++ [line]) = valuesAt n k none lines ∧
        valuesAt n k none (output ++ [line']) = valuesAt n k none output := by
    intro n k hne
    rw [valuesAt_append, valuesAt_append, hsource, htarget, valuesAt_keyValue hline,
      valuesAt_keyValue hline', if_neg hne, if_neg hne, List.append_nil, List.append_nil]
    exact ⟨rfl, rfl⟩
  constructor
  · intro n
    rw [headings_append, headings_append, hheading, hheading', List.append_nil, List.append_nil]
    exact h.named n
  · intro n k hold' hnone
    rw [(hother n k ?_).2]
    · exact h.removed n k hold' hnone
    · rintro ⟨heq, rfl⟩
      cases heq
      rw [hnew] at hnone
      cases hnone
  · intro n k out hold' hnew'
    by_cases hat : some name = some n ∧ normalise key = k
    · obtain ⟨heq, rfl⟩ := hat
      cases heq
      rw [hnew] at hnew'
      cases hnew'
      rw [valuesAt_append, valuesAt_append, hsource, htarget, valuesAt_keyValue hline,
        valuesAt_keyValue hline', if_pos ⟨rfl, rfl⟩, if_pos ⟨rfl, rfl⟩]
      exact List.rel_append (h.carried name _ outputValue hold hnew) (.cons hcarries .nil)
    · rw [(hother n k hat).1, (hother n k hat).2]
      exact h.carried n k out hold' hnew'
  · intro n k hnone
    rw [(hother n k ?_).2]
    · exact h.sound n k hnone
    · rintro ⟨heq, rfl⟩
      cases heq
      rw [hnone] at hold
      cases hold
  · intro n k v hnone hsome
    rw [headings_append, hheading, List.append_nil, (hother n k ?_).2]
    · exact h.complete n k v hnone hsome
    · rintro ⟨heq, rfl⟩
      cases heq
      rw [hnone] at hold
      cases hold
  · refine allKept_append.mpr ⟨h.kept, ?_, trivial⟩
    rw [htarget, keeps, hline']
    rfl
  · rw [comments_append, comments_append, comments_of_keyValue hline',
      comments_of_keyValue hline, h.comments]

/-- The new keys of the section are put in behind its last key. -/
theorem insert {head tail new : List Bytes} {s : Bytes}
    (h : Covers data original lines (head ++ tail) (some s)) (htail : ∀ line ∈ tail, Inert line)
    (hplace : sectionBehind head none = some s) (hsection : original.Names s)
    (hkept : AllKept (some s) new) (hcomments : MINI.comments new = [])
    (hnew : headings new = [] ∧ ∀ name key written, written ∈ valuesAt name key (some s) new ↔
      name = s ∧ original.Names s ∧ original.value s key = none ∧
        ∃ value, data.value s key = some value ∧ written = trim value) :
    Covers data original lines (head ++ new ++ tail) none := by
  obtain ⟨hheadings, hnew⟩ := hnew
  have hout : ∀ name key, headings (head ++ new ++ tail) = headings (head ++ tail) ∧
      valuesAt name key none (head ++ tail) = valuesAt name key none head ∧
      valuesAt name key none (head ++ new ++ tail) =
        valuesAt name key none head ++ valuesAt name key (some s) new := by
    intro name key
    obtain ⟨-, htailHeadings, -⟩ := inert_meaning htail none name key
    obtain ⟨-, -, hvalues⟩ := inert_meaning htail (some s) name key
    obtain ⟨-, -, hvalues'⟩ := inert_meaning htail (sectionBehind (head ++ new) none) name key
    refine ⟨?_, ?_, ?_⟩
    · rw [headings_append, headings_append, headings_append, hheadings, List.append_nil]
    · rw [valuesAt_append, hplace, hvalues, List.append_nil]
    · rw [valuesAt_append, valuesAt_append, hplace, hvalues', List.append_nil]
  have hold : ∀ name key, (original.value name key).isSome = true →
      valuesAt name key none (head ++ new ++ tail) = valuesAt name key none (head ++ tail) := by
    intro name key hsome
    have hnil : valuesAt name key (some s) new = [] := by
      refine List.eq_nil_iff_forall_not_mem.mpr fun written hmem => ?_
      obtain ⟨rfl, -, hnone, -⟩ := (hnew name key written).mp hmem
      rw [hnone] at hsome
      cases hsome
    rw [(hout name key).2.2, (hout name key).2.1, hnil, List.append_nil]
  constructor
  · intro name
    rw [(hout name []).1]
    exact h.named name
  · intro name key hsome
    rw [hold name key hsome]
    exact h.removed name key hsome
  · intro name key outputValue hsome
    rw [hold name key hsome]
    exact h.carried name key outputValue hsome
  · intro name key hnone written hmem
    rw [(hout name key).2.2, ← (hout name key).2.1] at hmem
    rcases List.mem_append.mp hmem with hmem | hmem
    · exact h.sound name key hnone written hmem
    · obtain ⟨rfl, -, -, hvalue⟩ := (hnew name key written).mp hmem
      exact hvalue
  · intro name key value hnone hsome hmem _ hnil
    rw [(hout name key).2.2, ← (hout name key).2.1, List.append_eq_nil_iff] at hnil
    by_cases hname : name = s
    · have hwritten : trim value ∈ valuesAt name key (some s) new :=
        (hnew name key _).mpr ⟨hname, hsection, hname ▸ hnone, value, hname ▸ hsome, rfl⟩
      rw [hnil.2] at hwritten
      cases hwritten
    · exact h.complete name key value hnone hsome hmem (fun heq => hname (Option.some.inj heq).symm)
        hnil.1
  · refine allKept_append.mpr ⟨allKept_append.mpr ⟨(allKept_append.mp h.kept).1, ?_⟩,
      allKept_of_inert htail _⟩
    rw [hplace]
    exact hkept
  · rw [comments_append, comments_append, hcomments, List.append_nil, ← comments_append]
    exact h.comments

end Covers

/-! ## The keys that are new in a section -/

section

variable {prettyPrint : Bool} {data original : INIStructure}

/-- The lines are those of the keys that the file does not have. -/
theorem exists_linesToAdd (h : Savable prettyPrint data original) (name : Bytes) :
    ∃ es : List (Bytes × Bytes),
      linesToAdd prettyPrint data original name =
        es.map (fun it => entryLine prettyPrint it.1 it.2) ∧
      (∀ e ∈ es, normalise e.1 = e.1 ∧ Plain prettyPrint e.1 (trim e.2)) ∧
      ∀ key value, (key, value) ∈ es ↔ original.Names (normalise name) ∧
        original.value (normalise name) key = none ∧
          data.value (normalise name) key = some value := by
  by_cases hhas : data.has name ∧ original.has name
  case neg =>
    refine ⟨[], if_neg hhas, fun _ hnil => absurd hnil List.not_mem_nil, fun key value =>
      iff_of_false List.not_mem_nil ?_⟩
    rintro ⟨hold, -, hvalue⟩
    exact hhas ⟨INIStructure.has_iff_names.mpr (INIStructure.names_of_value hvalue),
      INIStructure.has_iff_names.mpr hold⟩
  case pos =>
    have hold : original.Names (normalise name) := INIStructure.has_iff_names.mp hhas.2
    have hmem : ∀ key value, (key, value) ∈ (data.get name).data ↔
        data.value (normalise name) key = some value := by
      intro key value
      rw [OrderedMap.mem_iff_find (data.get name).indexes.nodup, INIStructure.find_get]
    have hnormal : ∀ e ∈ (data.get name).data, normalise e.1 = e.1 :=
      fun e he => (data.get name).normal e.1 (List.mem_map_of_mem he)
    have hlack : ∀ e ∈ (data.get name).data, ((!(original.get name).has e.1) = true ↔
        original.value (normalise name) e.1 = none) := by
      intro e he
      rw [INIStructure.has_get, hnormal e he, Bool.not_eq_true', Option.isSome_eq_false_iff,
        Option.isNone_iff_eq_none]
    refine ⟨(data.get name).data.filter fun it => !(original.get name).has it.1, ?_, ?_, ?_⟩
    · rw [linesToAdd, if_pos hhas, INIMap.ref_fst, INIMap.ref_fst]
    · intro e he
      obtain ⟨he, hnone⟩ := List.mem_filter.mp he
      exact ⟨hnormal e he, h.added _ _ _ ((hlack e he).mp hnone) ((hmem e.1 e.2).mp he)⟩
    · intro key value
      rw [List.mem_filter]
      constructor
      · rintro ⟨he, hnone⟩
        exact ⟨hold, (hlack _ he).mp hnone, (hmem key value).mp he⟩
      · rintro ⟨-, hnone, hvalue⟩
        have he := (hmem key value).mpr hvalue
        exact ⟨he, (hlack _ he).mpr hnone⟩

/-- They give each of these keys its value, and say nothing else. -/
theorem linesToAdd_meaning (h : Savable prettyPrint data original) (name : Bytes) :
    let new := linesToAdd prettyPrint data original name
    AllKept (some (normalise name)) new ∧ comments new = [] ∧ headings new = [] ∧
      ∀ n key written, written ∈ valuesAt n key (some (normalise name)) new ↔
        n = normalise name ∧ original.Names (normalise name) ∧
          original.value (normalise name) key = none ∧
            ∃ value, data.value (normalise name) key = some value ∧ written = trim value := by
  obtain ⟨es, hnew, hplain, hmem⟩ := exists_linesToAdd h name
  have hmeaning := entryLines_meaning hplain (some (normalise name))
  intro new
  rw [show new = es.map fun it => entryLine prettyPrint it.1 it.2 from hnew]
  refine ⟨entryLines_kept hplain _, entryLines_comments hplain, (hmeaning [] []).2.1,
    fun n key written => ?_⟩
  rw [(hmeaning n key).2.2]
  constructor
  · intro hwritten
    split at hwritten
    case isFalse => cases hwritten
    case isTrue hname =>
      obtain ⟨value, he, rfl⟩ := mem_entryValues.mp hwritten
      obtain ⟨hold, hnone, hvalue⟩ := (hmem key value).mp he
      exact ⟨(Option.some.inj hname).symm, hold, hnone, value, hvalue, rfl⟩
  · rintro ⟨rfl, hold, hnone, value, hvalue, rfl⟩
    rw [if_pos rfl]
    exact mem_entryValues.mpr ⟨value, (hmem key value).mpr ⟨hold, hnone, hvalue⟩, rfl⟩

/-! ## The loop -/

/-- How far the loop has come behind `lines`. -/
inductive Follows (data original : INIStructure) (lines : List Bytes) (st : Lazy) : Prop
  /-- No section has begun. -/
  | before (hplace : sectionBehind lines none = none)
      (hcovers : Covers data original lines st.output none) (hparsing : st.parsingSection = false)
  /-- In a section that is written.  Behind `head` no line says anything. -/
  | inside (head tail : List Bytes) (houtput : st.output = head ++ tail)
      (hlast : st.lastKeyLine = head.length) (htail : ∀ line ∈ tail, Inert line)
      (hplace : sectionBehind lines none = some (normalise st.sectionCurrent))
      (hwritten : sectionBehind head none = some (normalise st.sectionCurrent))
      (hnames : data.Names (normalise st.sectionCurrent))
      (hcovers : Covers data original lines st.output (some (normalise st.sectionCurrent)))
      (hparsing : st.parsingSection = true) (hskip : st.continueToNextSection = false)
  /-- In a section that the structure does not have. -/
  | dropped (hplace : sectionBehind lines none = some (normalise st.sectionCurrent))
      (hnames : ¬ data.Names (normalise st.sectionCurrent))
      (hcovers : Covers data original lines st.output none) (hparsing : st.parsingSection = false)
      (hskip : st.continueToNextSection = true)

theorem insertNewKeys_nil {st : Lazy}
    (h : linesToAdd prettyPrint data original st.sectionCurrent = []) :
    (insertNewKeys prettyPrint data original st).output = st.output := by
  show st.output.take st.lastKeyLine ++ linesToAdd prettyPrint data original st.sectionCurrent ++
    st.output.drop st.lastKeyLine = st.output
  rw [h, List.append_nil, List.take_append_drop]

/-- When a section ends, and at the end, nothing is missing from the output. -/
theorem Follows.insert {lines : List Bytes} {st : Lazy} (h : Follows data original lines st)
    (hsavable : Savable prettyPrint data original)
    (hnames : ∀ name ∈ headings lines, original.Names name)
    (hnew : sectionBehind lines none = none → ∀ name, ¬ original.Names name) :
    Covers data original lines (insertNewKeys prettyPrint data original st).output none := by
  cases h with
  | before hplace hcovers =>
    rw [insertNewKeys_nil]
    · exact hcovers
    · exact if_neg fun hhas => hnew hplace _ (INIStructure.has_iff_names.mp hhas.2)
  | inside head tail houtput hlast htail hplace hwritten hdata hcovers =>
    have hmem : normalise st.sectionCurrent ∈ headings lines := by
      rw [sectionBehind_eq, Option.or_none] at hplace
      exact List.mem_of_getLast? hplace
    have hinsert : (insertNewKeys prettyPrint data original st).output =
        head ++ linesToAdd prettyPrint data original st.sectionCurrent ++ tail := by
      show st.output.take st.lastKeyLine ++ _ ++ st.output.drop st.lastKeyLine = _
      rw [houtput, hlast, List.take_left, List.drop_left]
    obtain ⟨hkept, hcomments, hmeaning⟩ := linesToAdd_meaning hsavable st.sectionCurrent
    rw [hinsert]
    exact (houtput ▸ hcovers).insert htail hwritten (hnames _ hmem) hkept hcomments hmeaning
  | dropped hplace hdata hcovers =>
    rw [insertNewKeys_nil]
    · exact hcovers
    · exact if_neg fun hhas => hdata (INIStructure.has_iff_names.mp hhas.1)

/-- The head of a section ends the one above it. -/
theorem endSection_covers {lines : List Bytes} {st : Lazy} {line : Bytes}
    (h : Follows data original lines st) (hheading : isHeading line = true)
    (hsavable : Savable prettyPrint data original)
    (hnames : ∀ name ∈ headings lines, original.Names name) :
    let ended := endSection prettyPrint data original st line
    Covers data original lines ended.output none ∧ ended.parsingSection = false := by
  intro ended
  cases hparsing : st.parsingSection with
  | false =>
    have hsame : ended = st := by
      show endSection prettyPrint data original st line = st
      rw [endSection, hparsing, Bool.and_false, if_neg Bool.false_ne_true]
    rw [hsame]
    refine ⟨?_, hparsing⟩
    cases h with
    | before _ hcovers => exact hcovers
    | inside _ _ _ _ _ _ _ _ _ htrue => rw [hparsing] at htrue; cases htrue
    | dropped _ _ hcovers => exact hcovers
  | true =>
    have hended :
        ended = insertNewKeys prettyPrint data original { st with parsingSection := false } := by
      show endSection prettyPrint data original st line = _
      rw [endSection, hheading, hparsing, Bool.and_self, if_pos rfl]
    have hplace : sectionBehind lines none ≠ none := by
      cases h with
      | before _ _ hfalse => rw [hparsing] at hfalse; cases hfalse
      | inside _ _ _ _ _ hplace => rw [hplace]; exact Option.some_ne_none _
      | dropped hplace => rw [hplace]; exact Option.some_ne_none _
    rw [hended]
    exact ⟨h.insert hsavable hnames fun hnone => absurd hnone hplace, rfl⟩

/-- How a line is left. -/
inductive Passed (data original : INIStructure) (lines : List Bytes) : Round → Prop
  | skip {st : Lazy} (h : Follows data original lines st)
      (hcovers : Covers data original lines st.output none) : Passed data original lines (.skip st)
  | on {st : Lazy} (h : Follows data original lines st) : Passed data original lines (.on st)

theorem sectionBehind_concat (lines : List Bytes) (line : Bytes) :
    sectionBehind (lines ++ [line]) none = sectionAfter line (sectionBehind lines none) :=
  sectionBehind_append lines [line] none

theorem visitLine_heading {lines : List Bytes} {st : Lazy} {line name : Bytes}
    (hcovers : Covers data original lines st.output none) (hparsing : st.parsingSection = false)
    (hparse : parseLine line = .heading name) :
    Passed data original (lines ++ [line]) (visitLine prettyPrint data st line) := by
  have hplace : ∀ before : List Bytes,
      sectionBehind (before ++ [line]) none = some (normalise name) := by
    intro before
    rw [sectionBehind_concat, sectionAfter, hparse]
  unfold visitLine
  rw [hparse]
  simp only [hparsing, Bool.false_eq_true, if_false]
  split
  case isTrue hhas =>
    have hnames := INIStructure.has_iff_names.mp hhas
    exact .on (.inside (st.output ++ [line]) [] (List.append_nil _).symm rfl
      (fun _ hnil => absurd hnil List.not_mem_nil) (hplace _) (hplace _) hnames
      (hcovers.heading hparse hnames) rfl rfl)
  case isFalse hhas =>
    have hnames : ¬ data.Names (normalise name) := fun h => hhas (INIStructure.has_iff_names.mpr h)
    have hcovers' := hcovers.headingDropped hparse hnames
    exact .skip (.dropped (hplace _) hnames hcovers' rfl rfl) hcovers'

/-- A comment or a blank line. -/
theorem visitLine_inert {lines : List Bytes} {st : Lazy} {line : Bytes}
    (h : Follows data original lines st) (hline : Inert line) :
    Passed data original (lines ++ [line]) (visitLine prettyPrint data st line) := by
  have hround : ∃ st' more, visitLine prettyPrint data st line = .on st' ∧
      st'.output = st.output ++ more ∧ (∀ l ∈ more, Inert l) ∧ comments more = comments [line] ∧
      st'.sectionCurrent = st.sectionCurrent ∧ st'.parsingSection = st.parsingSection ∧
      st'.continueToNextSection = st.continueToNextSection ∧
      st'.lastKeyLine = st.lastKeyLine := by
    have hone : ∀ l ∈ [line], Inert l := fun l hl => List.mem_singleton.mp hl ▸ hline
    unfold visitLine
    rcases hline with hparse | hparse <;>
    · rw [hparse]
      dsimp only
      split
      case isTrue hdiscard =>
        refine ⟨_, [], rfl, (List.append_nil _).symm, fun _ hnil => absurd hnil List.not_mem_nil,
          ?_, rfl, rfl, rfl, rfl⟩
        rw [hdiscard.2]
        rfl
      case isFalse => exact ⟨_, [line], rfl, rfl, hone, rfl, rfl, rfl, rfl, rfl⟩
  obtain ⟨st', more, hround, hout, hmore, hcomments, hcurrent, hparsing', hskip', hlast'⟩ := hround
  have hplace' : sectionBehind (lines ++ [line]) none = sectionBehind lines none := by
    rw [sectionBehind_concat]
    exact (hline.meaning _).1
  rw [hround]
  refine .on ?_
  cases h with
  | before hplace hcovers hparsing =>
    exact .before (hplace'.trans hplace) (hout ▸ hcovers.inert hline hmore hcomments)
      (hparsing'.trans hparsing)
  | inside head tail houtput hlast htail hplace hwritten hnames hcovers hparsing hskip =>
    refine .inside head (tail ++ more) ?_ (hlast'.trans hlast) ?_ ?_ ?_ ?_ ?_
      (hparsing'.trans hparsing) (hskip'.trans hskip)
    · rw [hout, houtput, List.append_assoc]
    · exact fun l hl => (List.mem_append.mp hl).elim (htail l) (hmore l)
    · rw [hcurrent, hplace', hplace]
    · rw [hcurrent, hwritten]
    · rw [hcurrent]
      exact hnames
    · rw [hcurrent, hout]
      exact hcovers.inert hline hmore hcomments
  | dropped hplace hnames hcovers hparsing hskip =>
    refine .dropped ?_ ?_ (hout ▸ hcovers.inert hline hmore hcomments) (hparsing'.trans hparsing)
      (hskip'.trans hskip)
    · rw [hcurrent, hplace', hplace]
    · rw [hcurrent]
      exact hnames

/-- A line with a key.  `hold` and `hplain` are known from the whole file. -/
theorem visitLine_keyValue {lines : List Bytes} {st : Lazy} {line key value : Bytes}
    (h : Follows data original lines st) (hparse : parseLine line = .keyValue key value)
    (hkeeps : keeps (sectionBehind lines none) line = true)
    (hold : ∀ name, sectionBehind lines none = some name →
      (original.value name (normalise key)).isSome = true)
    (hplain : ∀ name outputValue, sectionBehind lines none = some name →
      data.value name (normalise key) = some outputValue → key.head? = some openingBracket →
        ∀ c ∈ trim outputValue, c ≠ semicolon ∧ c ≠ closingBracket) :
    Passed data original (lines ++ [line]) (visitLine prettyPrint data st line) := by
  have hplace' : sectionBehind (lines ++ [line]) none = sectionBehind lines none := by
    rw [sectionBehind_concat, sectionAfter, hparse]
  unfold visitLine
  rw [hparse]
  dsimp only
  cases h with
  | before hplace =>
    rw [hplace, keeps, hparse] at hkeeps
    cases hkeeps
  | dropped hplace hnames hcovers hparsing hskip =>
    rw [hskip, if_pos rfl]
    have hnone : data.value (normalise st.sectionCurrent) (normalise key) = none := by
      rw [Option.eq_none_iff_forall_ne_some]
      exact fun v hv => hnames (INIStructure.names_of_value hv)
    have hcovers' := hcovers.entryDropped hparse hplace hnone
    exact .skip (.dropped (hplace'.trans hplace) hnames hcovers' hparsing hskip) hcovers'
  | inside head tail houtput hlast htail hplace hwritten hnames hcovers hparsing hskip =>
    have hhas : data.has st.sectionCurrent = true := INIStructure.has_iff_names.mpr hnames
    have hbehind : sectionBehind st.output none = some (normalise st.sectionCurrent) := by
      rw [houtput, sectionBehind_append, hwritten]
      exact (inert_meaning htail _ [] []).1
    -- the line that is written stands where the line stood
    have hon : ∀ line' value' outputValue, parseLine line' = .keyValue key value' →
        data.value (normalise st.sectionCurrent) (normalise key) = some outputValue →
        Carries outputValue value value' →
        Passed data original (lines ++ [line]) (.on (st.emplaceBack line').markKeyLine) := by
      intro line' value' outputValue hparse' hvalue hcarries
      have hcovers' := hcovers.entry hparse hparse' hplace hbehind (hold _ hplace) hvalue hcarries
      refine .on (.inside (st.output ++ [line']) [] (List.append_nil _).symm rfl
        (fun _ hnil => absurd hnil List.not_mem_nil) (hplace'.trans hplace) ?_ hnames hcovers'
        hparsing hskip)
      rw [sectionBehind_concat, hbehind, sectionAfter, hparse']
      rfl
    rw [hskip, if_neg Bool.false_ne_true, if_pos hhas, INIMap.ref_fst, INIStructure.has_get]
    split
    case isTrue hsome =>
      obtain ⟨outputValue, hvalue⟩ := Option.isSome_iff_exists.mp hsome
      have hget : ((data.get st.sectionCurrent).ref key).1 = outputValue := by
        rw [INIMap.ref_fst, INIStructure.get_get, hvalue, Option.getD_some]
      rw [hget]
      split
      case isTrue hsame =>
        refine hon line value outputValue hparse hvalue fun _ => ?_
        rw [← hsame, (trim_of_keyValue hparse).2]
      case isFalse hdiffers =>
        obtain ⟨value', hparse', hvalue'⟩ :=
          parseLine_rewriteLine hparse prettyPrint outputValue (hplain _ outputValue hplace hvalue)
        exact hon _ value' outputValue hparse' hvalue fun hor => hvalue' (hor.resolve_left hdiffers)
    case isFalse hnone =>
      rw [Option.not_isSome_iff_eq_none] at hnone
      exact .on (.inside head tail houtput hlast htail (hplace'.trans hplace) hwritten hnames
        (hcovers.entryDropped hparse hplace hnone) hparsing hskip)

/-! ## All lines

`all` are the lines that were read, and `original` is what they say. -/

variable {all : List Bytes}

theorem plain_of_savable (h : Savable prettyPrint data original)
    (hread : ∀ name key, original.value name key = (valuesAt name key none all).getLast?)
    {name key outputValue : Bytes} (hold : (original.value name (normalise key)).isSome = true)
    (hnew : data.value name (normalise key) = some outputValue) (hkey : trim key = key)
    (hopen : key.head? = some openingBracket) :
    ∀ c ∈ trim outputValue, c ≠ semicolon ∧ c ≠ closingBracket := by
  have hhead := (head?_normalise_iff hkey).mpr hopen
  obtain ⟨value, hvalue⟩ := Option.isSome_iff_exists.mp hold
  by_cases hsame : value = outputValue
  · have hmem := List.mem_of_getLast? ((hread _ _).symm.trans hvalue)
    obtain ⟨line, -, k, hparse, hk⟩ := exists_of_mem_valuesAt hmem
    obtain ⟨hktrim, hvtrim⟩ := trim_of_keyValue hparse
    rw [← hsame, hvtrim]
    exact plain_of_keyValue hparse ((head?_normalise_iff hktrim).mp (hk ▸ hhead))
  · exact (h.changed _ _ _ _ hvalue hnew hsame).2 hhead

theorem visitLine_passed (hsavable : Savable prettyPrint data original)
    (hread : ∀ name key, original.value name key = (valuesAt name key none all).getLast?)
    (hnames : ∀ name, original.Names name ↔ name ∈ headings all) {done rest : List Bytes}
    {line : Bytes} (hall : done ++ line :: rest = all) {st : Lazy}
    (h : Follows data original done st)
    (hkeeps : keeps (sectionBehind done none) line = true) :
    Passed data original (done ++ [line])
      (visitLine prettyPrint data (endSection prettyPrint data original st line) line) := by
  have hdone : ∀ name ∈ headings done, original.Names name := by
    intro name hmem
    rw [hnames, ← hall, headings_append]
    exact List.mem_append_left _ hmem
  have hsame : isHeading line = false → endSection prettyPrint data original st line = st := by
    intro hnot
    rw [endSection, hnot, Bool.false_and, if_neg Bool.false_ne_true]
  cases hparse : parseLine line with
  | heading name =>
    obtain ⟨hcovers, hparsing⟩ :=
      endSection_covers h (by rw [isHeading, hparse]) hsavable hdone
    exact visitLine_heading hcovers hparsing hparse
  | keyValue key value =>
    have hold : ∀ name, sectionBehind done none = some name →
        (original.value name (normalise key)).isSome = true := by
      intro name hplace
      have hmem : value ∈ valuesAt name (normalise key) none all := by
        rw [← hall, valuesAt_append, hplace]
        refine List.mem_append_right _ (List.mem_append_left _ ?_)
        simp [valueAt, hparse]
      rw [hread, List.getLast?_isSome]
      exact List.ne_nil_of_mem hmem
    rw [hsame (by rw [isHeading, hparse])]
    refine visitLine_keyValue h hparse hkeeps hold fun name outputValue hplace hvalue hopen => ?_
    exact plain_of_savable hsavable hread (hold name hplace) hvalue (trim_of_keyValue hparse).1
      hopen
  | none =>
    rw [hsame (by rw [isHeading, hparse])]
    exact visitLine_inert h (Or.inl hparse)
  | comment =>
    rw [hsame (by rw [isHeading, hparse])]
    exact visitLine_inert h (Or.inr hparse)
  | unknown =>
    rw [keeps, hparse] at hkeeps
    cases hkeeps

theorem lazyLines_covers (hsavable : Savable prettyPrint data original)
    (hread : ∀ name key, original.value name key = (valuesAt name key none all).getLast?)
    (hnames : ∀ name, original.Names name ↔ name ∈ headings all) {done rest : List Bytes}
    (hall : done ++ rest = all) {st : Lazy} (h : Follows data original done st)
    (hkept : AllKept (sectionBehind done none) rest) (hne : rest ≠ []) :
    Covers data original all (lazyLines prettyPrint data original st rest).output none := by
  induction rest generalizing done st with
  | nil => exact absurd rfl hne
  | cons line rest ih =>
    have hpassed := visitLine_passed hsavable hread hnames hall h hkept.1
    rw [lazyLines, lazyLine]
    cases hrest : rest with
    | nil =>
      subst hrest
      rw [hall] at hpassed
      cases hround : visitLine prettyPrint data (endSection prettyPrint data original st line) line
      all_goals
        rw [hround] at hpassed
        cases hpassed
      case skip.skip st' _ hcovers => exact hcovers
      case on.on st' hfollows =>
        refine hfollows.insert hsavable (fun name => (hnames name).mpr) fun hplace name hname => ?_
        rw [sectionBehind_eq, Option.or_none, List.getLast?_eq_none_iff] at hplace
        rw [hnames, hplace] at hname
        cases hname
    | cons next rest' =>
      rw [← hrest]
      have hall' : (done ++ [line]) ++ rest = all := by
        rw [List.append_assoc]
        exact hall
      have hkept' : AllKept (sectionBehind (done ++ [line]) none) rest := by
        rw [sectionBehind_concat]
        exact hkept.2
      have hlast : rest.isEmpty = false := by rw [hrest]; rfl
      have hne' : rest ≠ [] := by rw [hrest]; exact List.cons_ne_nil _ _
      rw [hlast]
      cases hround : visitLine prettyPrint data (endSection prettyPrint data original st line) line
      all_goals
        rw [hround] at hpassed
        cases hpassed
      case skip.skip st' hfollows _ => exact ih hall' hfollows hkept' hne'
      case on.on st' hfollows => exact ih hall' hfollows hkept' hne'

/-! ## The sections that are new -/

/-- What a section gives to a key when it comes to the end of the file. -/
def addedValues (original : INIStructure) (name key : Bytes) (it : Bytes × INIMap Bytes) :
    List Bytes :=
  if original.has it.1 = false ∧ it.1 = name then
    (it.2.data.filter (·.1 = key)).map fun e => trim e.2
  else []

theorem addSection_meaning {it : Bytes × INIMap Bytes} (hnormal : normalise it.1 = it.1)
    (hplain : original.has it.1 = false → semicolon ∉ it.1 ∧
      ∀ e ∈ it.2.data, normalise e.1 = e.1 ∧ Plain prettyPrint e.1 (trim e.2))
    (output : List Bytes) :
    let output' := addSection prettyPrint original output it
    (AllKept none output → AllKept none output') ∧ comments output' = comments output ∧
      headings output' = headings output ++ (if original.has it.1 then [] else [it.1]) ∧
      ∀ name key, valuesAt name key none output' =
        valuesAt name key none output ++ addedValues original name key it := by
  intro output'
  cases hhas : original.has it.1 with
  | true =>
    have hsame : output' = output := by
      show addSection prettyPrint original output it = output
      rw [addSection, if_pos hhas]
    rw [hsame]
    exact ⟨id, rfl, by simp, by simp [addedValues, hhas]⟩
  | false =>
    obtain ⟨hsemicolon, hentries⟩ := hplain hhas
    obtain ⟨blank, hblank, hcomments, houtput'⟩ : ∃ blank : List Bytes,
        (∀ line ∈ blank, Inert line) ∧ comments blank = [] ∧
          output' = output ++ (blank ++ ([headingLine it.1] ++
            it.2.data.map fun e => entryLine prettyPrint e.1 e.2)) := by
      show ∃ blank : List Bytes, (∀ line ∈ blank, Inert line) ∧ comments blank = [] ∧
        addSection prettyPrint original output it = _
      rw [addSection, hhas, if_neg Bool.false_ne_true]
      dsimp only
      split
      case isTrue =>
        refine ⟨[[]], fun line hline => ?_, rfl, by simp⟩
        rw [List.mem_singleton.mp hline]
        exact Or.inl rfl
      case isFalse => exact ⟨[], fun _ hnil => absurd hnil List.not_mem_nil, rfl, by simp⟩
    have hmeaning := inert_meaning hblank (sectionBehind output none)
    obtain ⟨hsection, hheading, hvalue⟩ :=
      headingLine_meaning hnormal hsemicolon (sectionBehind output none)
    have hentry := entryLines_meaning hentries (some it.1)
    have hparse : parseLine (headingLine it.1) = .heading it.1 :=
      parseLine_heading (trim_of_normal hnormal) hsemicolon
    refine ⟨fun hkept => ?_, ?_, ?_, fun name key => ?_⟩
    · rw [houtput', allKept_append, allKept_append, allKept_append]
      refine ⟨hkept, allKept_of_inert hblank _, ⟨by rw [keeps, hparse], trivial⟩, ?_⟩
      rw [sectionBehind_cons, (hmeaning [] []).1, hsection]
      exact entryLines_kept hentries it.1
    · rw [houtput', comments_append, comments_append, comments_append, hcomments,
        comments_of_heading hparse, entryLines_comments hentries]
      exact List.append_nil _
    · rw [houtput', headings_append, headings_append, headings_append, (hmeaning [] []).2.1,
        hheading, (hentry [] []).2.1]
      rfl
    · rw [houtput', valuesAt_append, valuesAt_append, valuesAt_append, (hmeaning name key).1,
        (hmeaning name key).2.2, valuesAt_singleton, hvalue, sectionBehind_cons, hsection,
        show sectionBehind [] (some it.1) = some it.1 from rfl, (hentry name key).2.2, addedValues,
        hhas]
      simp

theorem foldl_addSection_meaning {sections : List (Bytes × INIMap Bytes)}
    (hnormal : ∀ it ∈ sections, normalise it.1 = it.1)
    (hplain : ∀ it ∈ sections, original.has it.1 = false → semicolon ∉ it.1 ∧
      ∀ e ∈ it.2.data, normalise e.1 = e.1 ∧ Plain prettyPrint e.1 (trim e.2))
    (output : List Bytes) :
    let output' := sections.foldl (addSection prettyPrint original) output
    (AllKept none output → AllKept none output') ∧ comments output' = comments output ∧
      (∀ name, name ∈ headings output' ↔
        name ∈ headings output ∨ name ∈ OrderedMap.keys sections ∧ original.has name = false) ∧
      ∀ name key, valuesAt name key none output' =
        valuesAt name key none output ++ sections.flatMap (addedValues original name key) := by
  induction sections generalizing output with
  | nil => simp
  | cons it rest ih =>
    obtain ⟨hkept, hcomments, hheadings, hvalues⟩ :=
      addSection_meaning (hnormal it List.mem_cons_self) (hplain it List.mem_cons_self) output
    obtain ⟨hkept', hcomments', hheadings', hvalues'⟩ := ih
      (fun it hit => hnormal it (List.mem_cons_of_mem _ hit))
      (fun it hit => hplain it (List.mem_cons_of_mem _ hit))
      (addSection prettyPrint original output it)
    refine ⟨fun h => hkept' (hkept h), hcomments'.trans hcomments, fun name => ?_,
      fun name key => ?_⟩
    · rw [List.foldl_cons, hheadings', hheadings, List.mem_append, or_assoc, OrderedMap.keys_cons,
        List.mem_cons, or_and_right]
      refine or_congr_right (or_congr_left ?_)
      cases hhas : original.has it.1 with
      | true => simpa using fun heq : name = it.1 => heq ▸ hhas
      | false => simpa using fun heq : name = it.1 => heq ▸ hhas
    · rw [List.foldl_cons, hvalues', hvalues, List.flatMap_cons, List.append_assoc]

/-- What a section brings that the file does not have. -/
theorem of_new_section {it : Bytes × INIMap Bytes} (hit : it ∈ data.data)
    (hhas : original.has it.1 = false) :
    data.Names it.1 ∧ ¬ original.Names it.1 ∧ ∀ e ∈ it.2.data,
      original.value it.1 e.1 = none ∧ data.value it.1 e.1 = some e.2 := by
  have hfind := (OrderedMap.mem_iff_find data.indexes.nodup).mp hit
  have hlack : ¬ original.Names it.1 := by
    rw [← data.normal it.1 (List.mem_map_of_mem hit), ← INIStructure.has_iff_names, hhas]
    exact Bool.false_ne_true
  refine ⟨by rw [INIStructure.Names, hfind]; rfl, hlack, fun e he => ⟨?_, ?_⟩⟩
  · rw [Option.eq_none_iff_forall_ne_some]
    exact fun v hv => hlack (INIStructure.names_of_value hv)
  · rw [INIStructure.value, hfind, Option.bind_some]
    exact (OrderedMap.mem_iff_find it.2.indexes.nodup).mp he

/-- The sections that come to the end give their keys the values in the structure. -/
theorem mem_addedValues {name key written : Bytes} :
    written ∈ data.data.flatMap (addedValues original name key) ↔
      ¬ original.Names name ∧ ∃ value, data.value name key = some value ∧ written = trim value := by
  have hfind : ∀ collection, (name, collection) ∈ data.data ↔
      OrderedMap.find name data.data = some collection :=
    fun collection => OrderedMap.mem_iff_find data.indexes.nodup
  have hlack : ∀ collection, (name, collection) ∈ data.data →
      (original.has name = false ↔ ¬ original.Names name) := by
    intro collection hmem
    have hnormal : normalise name = name := data.normal name (List.mem_map_of_mem hmem)
    rw [← Bool.not_eq_true, INIStructure.has_iff_names, hnormal]
  rw [List.mem_flatMap]
  constructor
  · rintro ⟨⟨n, collection⟩, hit, hwritten⟩
    rw [addedValues] at hwritten
    split at hwritten
    case isFalse => cases hwritten
    case isTrue hat =>
      obtain ⟨hhas, rfl⟩ := hat
      obtain ⟨value, he, rfl⟩ := mem_entryValues.mp hwritten
      refine ⟨(hlack collection hit).mp hhas, value, ?_, rfl⟩
      rw [INIStructure.value, (hfind collection).mp hit, Option.bind_some]
      exact (OrderedMap.mem_iff_find collection.indexes.nodup).mp he
  · rintro ⟨hnew, value, hvalue, rfl⟩
    obtain ⟨collection, hcollection, hvalue⟩ := Option.bind_eq_some_iff.mp hvalue
    have hit := (hfind collection).mpr hcollection
    refine ⟨(name, collection), hit, ?_⟩
    rw [addedValues, if_pos ⟨(hlack collection hit).mpr hnew, rfl⟩]
    exact mem_entryValues.mpr
      ⟨value, (OrderedMap.mem_iff_find collection.indexes.nodup).mpr hvalue, rfl⟩

/-! ## Reading it back -/

theorem exists_getLast?_of_forall₂ {R : Bytes → Bytes → Prop} {values written : List Bytes}
    (h : List.Forall₂ R values written) {value : Bytes} (hlast : values.getLast? = some value) :
    ∃ last, written.getLast? = some last ∧ R value last := by
  have hreverse := List.forall₂_reverse_iff.mpr h
  rw [List.getLast?_eq_head?_reverse] at hlast ⊢
  generalize values.reverse = values' at hlast hreverse
  generalize written.reverse = written' at hreverse
  cases hreverse with
  | nil => cases hlast
  | cons hfirst _ =>
    cases hlast
    exact ⟨_, rfl, hfirst⟩

theorem exists_of_forall₂_right {R : Bytes → Bytes → Prop} {values written : List Bytes}
    (h : List.Forall₂ R values written) {w : Bytes} (hmem : w ∈ written) :
    ∃ value ∈ values, R value w := by
  induction h with
  | nil => cases hmem
  | cons hfirst _ ih =>
    rcases List.mem_cons.mp hmem with rfl | hmem
    · exact ⟨_, List.mem_cons_self, hfirst⟩
    · obtain ⟨value, hvalue, hrel⟩ := ih hmem
      exact ⟨value, List.mem_cons_of_mem _ hvalue, hrel⟩

theorem getLast?_of_forall_eq {values : List Bytes} {value : Bytes} (h : ∀ v ∈ values, v = value)
    (hne : values ≠ []) : values.getLast? = some value := by
  rw [List.getLast?_eq_some_getLast hne, h _ (List.getLast_mem hne)]

theorem Covers.getLast? {output : List Bytes} (h : Covers data original all output none)
    (hsavable : Savable prettyPrint data original)
    (hread : ∀ name key, original.value name key = (valuesAt name key none all).getLast?)
    (hnames : ∀ name, original.Names name ↔ name ∈ headings all) (name key : Bytes) :
    (valuesAt name key none output ++
        data.data.flatMap (addedValues original name key)).getLast? =
      (data.value name key).map trim := by
  cases hold : original.value name key with
  | some value =>
    have hadded : data.data.flatMap (addedValues original name key) = [] :=
      List.eq_nil_iff_forall_not_mem.mpr fun written hmem =>
        (mem_addedValues.mp hmem).1 (INIStructure.names_of_value hold)
    have hsome : (original.value name key).isSome = true := by rw [hold]; rfl
    rw [hadded, List.append_nil]
    cases hnew : data.value name key with
    | none => rw [h.removed name key hsome hnew]; rfl
    | some outputValue =>
      obtain ⟨last, hlast, hcarries⟩ := exists_getLast?_of_forall₂
        (h.carried name key outputValue hsome hnew) ((hread name key).symm.trans hold)
      rw [hlast, Option.map_some, hcarries]
      by_cases hsame : value = outputValue
      · exact Or.inl hsame
      · exact Or.inr (hsavable.changed _ _ _ _ hold hnew hsame).1
  | none =>
    cases hnew : data.value name key with
    | none =>
      have hnil : valuesAt name key none output ++
          data.data.flatMap (addedValues original name key) = [] := by
        refine List.eq_nil_iff_forall_not_mem.mpr fun written hmem => ?_
        rcases List.mem_append.mp hmem with hmem | hmem
        · obtain ⟨value, hvalue, -⟩ := h.sound name key hold written hmem
          rw [hnew] at hvalue
          cases hvalue
        · obtain ⟨-, value, hvalue, -⟩ := mem_addedValues.mp hmem
          rw [hnew] at hvalue
          cases hvalue
      rw [hnil]
      rfl
    | some outputValue =>
      refine getLast?_of_forall_eq (fun written hmem => ?_) fun hnil => ?_
      · have hvalue : ∃ value, data.value name key = some value ∧ written = trim value :=
          (List.mem_append.mp hmem).elim (h.sound name key hold written)
            fun hmem => (mem_addedValues.mp hmem).2
        obtain ⟨value, hvalue, rfl⟩ := hvalue
        rw [hnew] at hvalue
        cases hvalue
        rfl
      · obtain ⟨hnil, hnil'⟩ := List.append_eq_nil_iff.mp hnil
        by_cases hsection : original.Names name
        · exact h.complete name key outputValue hold hnew ((hnames name).mp hsection) (by simp) hnil
        · have hmem := mem_addedValues.mpr ⟨hsection, outputValue, hnew, rfl⟩
          rw [hnil'] at hmem
          cases hmem

/-- What `getLazyOutput` gives out: the lines that the loop has left, and the new sections. -/
theorem exists_covers {lines : List Bytes} (hkept : AllKept none lines)
    (hread : ∀ name key, original.value name key = (valuesAt name key none lines).getLast?)
    (hnames : ∀ name, original.Names name ↔ name ∈ headings lines)
    (hsavable : Savable prettyPrint data original) :
    ∃ left output, getLazyOutput prettyPrint data original lines = some output ∧
      Covers data original lines left none ∧ AllKept none output ∧
      comments output = comments lines ∧ (∀ name, name ∈ headings output ↔ data.Names name) ∧
      ∀ name key, valuesAt name key none output =
        valuesAt name key none left ++ data.data.flatMap (addedValues original name key) := by
  have hcovers :
      Covers data original lines (lazyLines prettyPrint data original .start lines).output none := by
    cases lines with
    | nil => exact Covers.nil
    | cons line rest =>
      exact lazyLines_covers hsavable hread hnames (List.nil_append _)
        (.before rfl Covers.nil rfl) hkept (List.cons_ne_nil _ _)
  have hnormal : ∀ it ∈ data.data, normalise it.1 = it.1 :=
    fun it hit => data.normal it.1 (List.mem_map_of_mem hit)
  have hplain : ∀ it ∈ data.data, original.has it.1 = false → semicolon ∉ it.1 ∧
      ∀ e ∈ it.2.data, normalise e.1 = e.1 ∧ Plain prettyPrint e.1 (trim e.2) := by
    intro it hit hhas
    obtain ⟨hname, hlack, hentry⟩ := of_new_section hit hhas
    refine ⟨hsavable.sections _ hname hlack, fun e he => ?_⟩
    obtain ⟨hnone, hnew⟩ := hentry e he
    exact ⟨it.2.normal e.1 (List.mem_map_of_mem he), hsavable.added it.1 e.1 e.2 hnone hnew⟩
  obtain ⟨hkept', hcomments', hheadings, hvalues⟩ := foldl_addSection_meaning hnormal hplain
    (lazyLines prettyPrint data original .start lines).output
  refine ⟨_, _, getLazyOutput_eq prettyPrint data original lines, hcovers, hkept' hcovers.kept,
    hcomments'.trans hcovers.comments, fun name => ?_, hvalues⟩
  rw [hheadings, hcovers.named, ← hnames]
  have hlack : name ∈ OrderedMap.keys data.data →
      (original.has name = false ↔ ¬ original.Names name) := by
    intro hmem
    rw [← Bool.not_eq_true, INIStructure.has_iff_names, data.normal name hmem]
  rw [INIStructure.Names.eq_1 data, OrderedMap.find_isSome_iff_mem]
  constructor
  · rintro (⟨-, hmem⟩ | ⟨hmem, -⟩)
    · exact hmem
    · exact hmem
  · intro hmem
    by_cases hsection : original.Names name
    · exact Or.inl ⟨hsection, hmem⟩
    · exact Or.inr ⟨hmem, (hlack hmem).mpr hsection⟩

/-- Over the lines of any file, what is written is read back as the structure: its sections,
and each key with its value without the white space around it.  No line of it is lost, and
neither is a comment of the file. -/
theorem readLines_getLazyOutput {lines : List Bytes} (hkept : AllKept none lines)
    (hsavable : Savable prettyPrint data (readLines lines INIMap.empty).data) :
    ∃ output, getLazyOutput prettyPrint data (readLines lines INIMap.empty).data lines =
        some output ∧ AllKept none output ∧ comments output = comments lines ∧
      (∀ name, (readLines output INIMap.empty).data.Names name ↔ data.Names name) ∧
      ∀ name key, (readLines output INIMap.empty).data.value name key =
        (data.value name key).map trim := by
  obtain ⟨left, output, houtput, hcovers, hkept', hcomments, hheadings, hvalues⟩ :=
    exists_covers hkept (readLines_value lines) (readLines_names lines) hsavable
  refine ⟨output, houtput, hkept', hcomments, fun name => ?_, fun name key => ?_⟩
  · rw [readLines_names, hheadings]
  · rw [readLines_value, hvalues]
    exact hcovers.getLast? hsavable (readLines_value lines) (readLines_names lines) name key

/-- When no other value begins with an escape sequence, no line of the output says anything
else, whichever of the lines for a key it is. -/
theorem valuesAt_getLazyOutput {lines output : List Bytes} (hkept : AllKept none lines)
    (hsavable : Savable prettyPrint data (readLines lines INIMap.empty).data)
    (hplain : ∀ name key value, data.value name key = some value →
      ∀ v ∈ valuesAt name key none lines, v = value ∨ ¬ BeginsEscaped v)
    (h : getLazyOutput prettyPrint data (readLines lines INIMap.empty).data lines = some output)
    {name key written : Bytes} (hmem : written ∈ valuesAt name key none output) :
    ∃ value, data.value name key = some value ∧ written = trim value := by
  obtain ⟨left, output', houtput, hcovers, -, -, -, hvalues⟩ :=
    exists_covers hkept (readLines_value lines) (readLines_names lines) hsavable
  rw [h, Option.some.injEq] at houtput
  rw [houtput, hvalues, List.mem_append] at hmem
  rcases hmem with hmem | hmem
  · cases hold : (readLines lines INIMap.empty).data.value name key with
    | none => exact hcovers.sound name key hold written hmem
    | some old =>
      have hsome : ((readLines lines INIMap.empty).data.value name key).isSome = true := by
        rw [hold]
        rfl
      cases hnew : data.value name key with
      | none =>
        rw [hcovers.removed name key hsome hnew] at hmem
        cases hmem
      | some value =>
        obtain ⟨v, hv, hcarries⟩ :=
          exists_of_forall₂_right (hcovers.carried name key value hsome hnew) hmem
        exact ⟨value, rfl, hcarries (hplain name key value hnew v hv)⟩
  · exact (mem_addedValues.mp hmem).2

end

end MINI
end WhiteSmo
