import WhiteSmo.Config.Written

/-!
# What a write leaves as it is

Every line that is written is one of the file, one of these with a new value, or one for a
new key or section; none of them holds a line feed when the structure does not.  A file
that says what the structure says already is written as it was.
-/

namespace WhiteSmo
namespace MINI

variable {prettyPrint : Bool} {data original : INIStructure}

/-! ## Lines of a file -/

/-- What is new in the structure fits into lines. -/
structure Fits (data original : INIStructure) : Prop where
  value : ∀ name key value, data.value name key = some value →
    original.value name key ≠ some value → IsLine (trim value)
  key : ∀ name key value, data.value name key = some value → original.value name key = none →
    IsLine key
  name : ∀ name, data.Names name → ¬ original.Names name → IsLine name

theorem trim_subset (str : Bytes) : trim str ⊆ str := fun _ => Text.mem_of_mem_trim

theorem isLine_of_keyValue {line key value : Bytes} (h : parseLine line = .keyValue key value)
    (hline : IsLine line) : IsLine value := by
  obtain ⟨pre, post, hentry, -, rfl⟩ := exists_entry h
  have hsub : content (trim line) ⊆ trim line :=
    List.IsPrefix.subset <| content_prefix (trim line)
  refine isLine_of_subset hline fun c hc => trim_subset line (hsub ?_)
  rw [hentry.content_eq]
  exact List.mem_append_right _ (List.mem_cons_of_mem _ (trim_subset post hc))

theorem isLine_rewriteLine {line outputValue : Bytes} (hline : IsLine line)
    (hvalue : IsLine (trim outputValue)) : IsLine (rewriteLine prettyPrint line outputValue) := by
  have hspace : ∀ (p : Prop) [Decidable p] (front : Bytes), IsLine front →
      IsLine (if p then front ++ [space] else front) := by
    intro p _ front hfront
    split
    case isTrue => exact isLine_append hfront (isLine_singleton (by decide))
    case isFalse => exact hfront
  refine isLine_append (hspace _ _ ?_) hvalue
  split
  case h_1 => exact isLine_of_subset hline (List.take_subset _ line)
  case h_2 => exact hline

/-- What a round has made of the locals. -/
def Round.state : Round → Lazy
  | .again st => st
  | .skip st => st
  | .on st => st

/-- A line is dropped, kept or written with another value. -/
inductive Written (prettyPrint : Bool) (data : INIStructure) (line : Bytes) : List Bytes → Prop
  | dropped : Written prettyPrint data line []
  | kept : Written prettyPrint data line [line]
  | rewritten {name key value outputValue : Bytes} (hparse : parseLine line = .keyValue key value)
      (hvalue : data.value name (normalise key) = some outputValue) :
      Written prettyPrint data line [rewriteLine prettyPrint line outputValue]

theorem visitLine_written (st : Lazy) (line : Bytes) : ∃ more, Written prettyPrint data line more ∧
    (visitLine prettyPrint data st line).state.output = st.output ++ more := by
  have hstay : ∃ more, Written prettyPrint data line more ∧ st.output = st.output ++ more :=
    ⟨[], .dropped, (List.append_nil _).symm⟩
  have hpush : ∃ more, Written prettyPrint data line more ∧
      st.output ++ [line] = st.output ++ more := ⟨[line], .kept, rfl⟩
  unfold visitLine
  cases hparse : parseLine line with
  | heading name =>
    dsimp only
    split
    case isTrue => exact hstay
    case isFalse =>
      split
      case isTrue => exact hpush
      case isFalse => exact hstay
  | keyValue key value =>
    dsimp only
    split
    case isTrue => exact hstay
    case isFalse =>
      split
      case isFalse => exact hstay
      case isTrue =>
        rw [INIMap.ref_fst, INIStructure.has_get]
        split
        case isFalse => exact hstay
        case isTrue hsome =>
          obtain ⟨outputValue, hvalue⟩ := Option.isSome_iff_exists.mp hsome
          split
          case isTrue => exact hpush
          case isFalse =>
            rw [INIMap.ref_fst, INIStructure.get_get, hvalue, Option.getD_some]
            exact ⟨_, .rewritten hparse hvalue, rfl⟩
  | unknown =>
    dsimp only
    split
    case isTrue => exact hstay
    case isFalse => exact hstay
  | none =>
    dsimp only
    split
    case isTrue => exact hstay
    case isFalse => exact hpush
  | comment =>
    dsimp only
    split
    case isTrue => exact hstay
    case isFalse => exact hpush

/-- Where the lines of the output come from. -/
theorem lazyLines_forall {P : Bytes → Prop} {lines : List Bytes}
    (hlines : ∀ line ∈ lines, ∀ more, Written prettyPrint data line more → ∀ l ∈ more, P l)
    (hadd : ∀ name, ∀ line ∈ linesToAdd prettyPrint data original name, P line) {st : Lazy}
    (hst : ∀ line ∈ st.output, P line) :
    ∀ line ∈ (lazyLines prettyPrint data original st lines).output, P line := by
  have hinsert : ∀ {st : Lazy}, (∀ line ∈ st.output, P line) →
      ∀ line ∈ (insertNewKeys prettyPrint data original st).output, P line := by
    intro st hst line hmem
    rcases List.mem_append.mp hmem with hmem | hmem
    · rcases List.mem_append.mp hmem with hmem | hmem
      · exact hst line (List.mem_of_mem_take hmem)
      · exact hadd _ line hmem
    · exact hst line (List.mem_of_mem_drop hmem)
  induction lines generalizing st with
  | nil => exact hst
  | cons line rest ih =>
    refine ih (fun l hl => hlines l (List.mem_cons_of_mem _ hl)) ?_
    have hended : ∀ l ∈ (endSection prettyPrint data original st line).output, P l := by
      unfold endSection
      split
      case isTrue => exact hinsert hst
      case isFalse => exact hst
    obtain ⟨more, hmore, hout⟩ := @visitLine_written prettyPrint data
      (endSection prettyPrint data original st line) line
    have hround : ∀ l ∈ (visitLine prettyPrint data
        (endSection prettyPrint data original st line) line).state.output, P l := by
      intro l hl
      rw [hout] at hl
      exact (List.mem_append.mp hl).elim (hended l) (hlines line List.mem_cons_self more hmore l)
    unfold lazyLine
    generalize
      visitLine prettyPrint data (endSection prettyPrint data original st line) line = round at hround
    cases round with
    | again st => exact hround
    | skip st => exact hround
    | on st =>
      dsimp only
      split
      case isTrue => exact hinsert hround
      case isFalse => exact hround

theorem foldl_addSection_forall {P : Bytes → Prop} (hblank : P [])
    {sections : List (Bytes × INIMap Bytes)} (hnew : ∀ it ∈ sections, original.has it.1 = false →
      P (headingLine it.1) ∧ ∀ e ∈ it.2.data, P (entryLine prettyPrint e.1 e.2))
    {output : List Bytes} (hout : ∀ line ∈ output, P line) :
    ∀ line ∈ sections.foldl (addSection prettyPrint original) output, P line := by
  induction sections generalizing output with
  | nil => exact hout
  | cons it rest ih =>
    refine ih (fun it' hit' => hnew it' (List.mem_cons_of_mem _ hit')) fun line hmem => ?_
    rw [addSection] at hmem
    split at hmem
    case isTrue => exact hout line hmem
    case isFalse hhas =>
      obtain ⟨hheading, hentries⟩ :=
        hnew it List.mem_cons_self (Bool.eq_false_iff.mpr hhas)
      rcases List.mem_append.mp hmem with hmem | hmem
      · rcases List.mem_append.mp hmem with hmem | hmem
        · split at hmem
          case isTrue =>
            rcases List.mem_append.mp hmem with hmem | hmem
            · exact hout line hmem
            · rw [List.mem_singleton.mp hmem]
              exact hblank
          case isFalse => exact hout line hmem
        · rw [List.mem_singleton.mp hmem]
          exact hheading
      · obtain ⟨e, he, rfl⟩ := List.mem_map.mp hmem
        exact hentries e he

theorem getLazyOutput_isLine {lines output : List Bytes} (hlines : ∀ line ∈ lines, IsLine line)
    (hsavable : Savable prettyPrint data (readLines lines INIMap.empty).data)
    (hfits : Fits data (readLines lines INIMap.empty).data)
    (h : getLazyOutput prettyPrint data (readLines lines INIMap.empty).data lines = some output) :
    ∀ line ∈ output, IsLine line := by
  have hread := readLines_value lines
  generalize (readLines lines INIMap.empty).data = original at hsavable hfits h hread
  have hvalue : ∀ name key value, data.value name key = some value → IsLine (trim value) := by
    intro name key value hnew
    by_cases hsame : original.value name key = some value
    · have hmem := List.mem_of_getLast? ((hread name key).symm.trans hsame)
      obtain ⟨line, hline, k, hparse, -⟩ := exists_of_mem_valuesAt hmem
      exact isLine_of_subset (isLine_of_keyValue hparse (hlines line hline)) (trim_subset value)
    · exact hfits.value name key value hnew hsame
  have hadd : ∀ name, ∀ line ∈ linesToAdd prettyPrint data original name, IsLine line := by
    intro name line hmem
    obtain ⟨es, hes, -, hmeaning⟩ := exists_linesToAdd hsavable name
    rw [hes] at hmem
    obtain ⟨e, he, rfl⟩ := List.mem_map.mp hmem
    obtain ⟨-, hnone, hnew⟩ := (hmeaning e.1 e.2).mp he
    exact isLine_entryLine (hfits.key _ _ _ hnew hnone) (hvalue _ _ _ hnew)
  have hloop : ∀ line ∈ (lazyLines prettyPrint data original .start lines).output, IsLine line := by
    refine lazyLines_forall (fun line hline more hmore l hl => ?_) hadd
      fun _ hnil => absurd hnil List.not_mem_nil
    cases hmore with
    | dropped => cases hl
    | kept => exact List.mem_singleton.mp hl ▸ hlines line hline
    | rewritten hparse hnew =>
      rw [List.mem_singleton.mp hl]
      exact isLine_rewriteLine (hlines line hline) (hvalue _ _ _ hnew)
  rw [getLazyOutput_eq, Option.some.injEq] at h
  rw [← h]
  refine foldl_addSection_forall isLine_nil (fun it hit hhas => ?_) hloop
  obtain ⟨hname, hlack, hentry⟩ := of_new_section hit hhas
  refine ⟨isLine_headingLine (hfits.name _ hname hlack), fun e he => ?_⟩
  obtain ⟨hnone, hnew⟩ := hentry e he
  exact isLine_entryLine (hfits.key _ _ _ hnew hnone) (hvalue _ _ _ hnew)

/-! ## A file that says it already -/

/-- Nothing is missing in the file. -/
theorem linesToAdd_eq_nil (h : ∀ name key value, data.value name key = some value →
    (original.value name key).isSome = true) (name : Bytes) :
    linesToAdd prettyPrint data original name = [] := by
  rw [linesToAdd]
  split
  case isFalse => rfl
  case isTrue =>
    rw [List.map_eq_nil_iff, List.filter_eq_nil_iff, INIMap.ref_fst, INIMap.ref_fst]
    intro e he
    have hnormal := (data.get name).normal e.1 (List.mem_map_of_mem he)
    have hvalue : data.value (normalise name) e.1 = some e.2 := by
      rw [← INIStructure.find_get]
      exact (OrderedMap.mem_iff_find (data.get name).indexes.nodup).mp he
    rw [INIStructure.has_get, hnormal, h _ _ _ hvalue]
    exact Bool.false_ne_true

/-- The lines that the loop has gone through stand in the output. -/
structure Stays (lines : List Bytes) (st : Lazy) : Prop where
  output : st.output = lines
  skip : st.continueToNextSection = false
  discard : st.discardNextEmpty = false
  place : ∀ name, sectionBehind lines none = some name → normalise st.sectionCurrent = name

theorem Stays.insertNewKeys {lines : List Bytes} {st : Lazy} (h : Stays lines st)
    (hnew : ∀ name, linesToAdd prettyPrint data original name = []) :
    Stays lines (insertNewKeys prettyPrint data original st) :=
  ⟨(insertNewKeys_nil (hnew _)).trans h.output, h.skip, h.discard, h.place⟩

theorem Stays.emplaceBack {lines : List Bytes} {st : Lazy} {line : Bytes} (h : Stays lines st)
    (hline : isHeading line = false) : Stays (lines ++ [line]) (st.emplaceBack line) where
  output := congrArg (· ++ [line]) h.output
  skip := h.skip
  discard := h.discard
  place := by
    have hplace : sectionBehind (lines ++ [line]) none = sectionBehind lines none := by
      rw [sectionBehind_concat]
      unfold isHeading at hline
      unfold sectionAfter
      cases hparse : parseLine line with
      | heading name => rw [hparse] at hline; cases hline
      | _ => rfl
    rw [hplace]
    exact h.place

theorem visitLine_stays {lines : List Bytes} {st : Lazy} {line : Bytes} (h : Stays lines st)
    (hparsing : (isHeading line && st.parsingSection) = false)
    (hkeeps : keeps (sectionBehind lines none) line = true)
    (hnames : ∀ name ∈ headings [line], data.Names name)
    (hvalues : ∀ name key, ∀ value ∈ valuesAt name key (sectionBehind lines none) [line],
      data.value name key = some value) :
    ∃ st', visitLine prettyPrint data st line = .on st' ∧ Stays (lines ++ [line]) st' := by
  unfold visitLine
  cases hparse : parseLine line with
  | heading name =>
    have hhas : data.has name = true :=
      INIStructure.has_iff_names.mpr (hnames _ (by simp [headings, hparse]))
    rw [isHeading, hparse, Bool.true_and] at hparsing
    simp only [hparsing, Bool.false_eq_true, if_false, hhas, if_true]
    refine ⟨_, rfl, ⟨congrArg (· ++ [line]) h.output, rfl, rfl, ?_⟩⟩
    intro n hplace
    rw [sectionBehind_concat, sectionAfter, hparse] at hplace
    exact Option.some.inj hplace
  | keyValue key value =>
    rw [keeps, hparse] at hkeeps
    obtain ⟨name, hplace⟩ := Option.isSome_iff_exists.mp hkeeps
    have hcurrent := h.place name hplace
    have hvalue : data.value name (normalise key) = some value :=
      hvalues name (normalise key) value (by simp [valuesAt, valueAt, hparse, hplace])
    have hhas : data.has st.sectionCurrent = true :=
      INIStructure.has_iff_names.mpr (hcurrent ▸ INIStructure.names_of_value hvalue)
    simp only [h.skip, Bool.false_eq_true, if_false, hhas, if_true, INIMap.ref_fst,
      INIStructure.has_get, INIStructure.get_get, hcurrent, hvalue, Option.isSome_some,
      Option.getD_some]
    have hstays : Stays (lines ++ [line]) (st.emplaceBack line) :=
      h.emplaceBack (by rw [isHeading, hparse])
    exact ⟨_, rfl, hstays.output, hstays.skip, hstays.discard, hstays.place⟩
  | unknown => rw [keeps, hparse] at hkeeps; cases hkeeps
  | none =>
    simp only [h.discard, Bool.false_eq_true, false_and, if_false]
    exact ⟨_, rfl, h.emplaceBack (by rw [isHeading, hparse])⟩
  | comment =>
    simp only [h.discard, Bool.false_eq_true, false_and, if_false]
    exact ⟨_, rfl, h.emplaceBack (by rw [isHeading, hparse])⟩

theorem lazyLines_stays {lines rest : List Bytes} {st : Lazy} (h : Stays lines st)
    (hnew : ∀ name, linesToAdd prettyPrint data original name = [])
    (hkept : AllKept (sectionBehind lines none) rest)
    (hnames : ∀ name ∈ headings rest, data.Names name)
    (hvalues : ∀ name key, ∀ value ∈ valuesAt name key (sectionBehind lines none) rest,
      data.value name key = some value) :
    (lazyLines prettyPrint data original st rest).output = lines ++ rest := by
  induction rest generalizing lines st with
  | nil => exact h.output.trans (List.append_nil _).symm
  | cons line rest ih =>
    have hended : Stays lines (endSection prettyPrint data original st line) := by
      unfold endSection
      split
      case isTrue => exact Stays.insertNewKeys ⟨h.output, h.skip, h.discard, h.place⟩ hnew
      case isFalse => exact h
    have hparsing : (isHeading line &&
        (endSection prettyPrint data original st line).parsingSection) = false := by
      unfold endSection
      split
      case isTrue => exact Bool.and_false _
      case isFalse hends => exact Bool.eq_false_iff.mpr hends
    have hfirst : ∀ name ∈ headings [line], data.Names name := by
      intro name hmem
      refine hnames name ?_
      rw [← List.singleton_append, headings_append]
      exact List.mem_append_left _ hmem
    obtain ⟨st', hround, hstays⟩ := @visitLine_stays prettyPrint data lines _ line hended hparsing
      hkept.1 hfirst fun name key value hmem => hvalues name key value (by
        rw [valuesAt_singleton] at hmem
        exact List.mem_append_left _ hmem)
    have hline : Stays (lines ++ [line])
        (lazyLine prettyPrint data original st line rest.isEmpty) := by
      rw [lazyLine, hround]
      dsimp only
      split
      case isTrue => exact hstays.insertNewKeys hnew
      case isFalse => exact hstays
    have hbehind := sectionBehind_concat lines line
    rw [lazyLines, ih hline (hbehind ▸ hkept.2)]
    · rw [List.append_assoc, List.singleton_append]
    · intro name hmem
      refine hnames name ?_
      rw [← List.singleton_append, headings_append]
      exact List.mem_append_right _ hmem
    · intro name key value hmem
      rw [hbehind] at hmem
      exact hvalues name key value (List.mem_append_right _ hmem)

/-- A structure is written over lines that say it already: they stay as they are. -/
theorem getLazyOutput_of_settled {lines : List Bytes} (hkept : AllKept none lines)
    (hnames : ∀ name ∈ headings lines, data.Names name)
    (hvalues : ∀ name key, ∀ value ∈ valuesAt name key none lines, data.value name key = some value)
    (hsections : ∀ name, data.Names name → original.Names name)
    (hkeys : ∀ name key value, data.value name key = some value →
      (original.value name key).isSome = true) :
    getLazyOutput prettyPrint data original lines = some lines := by
  have hloop : (lazyLines prettyPrint data original .start lines).output = lines :=
    lazyLines_stays ⟨rfl, rfl, rfl, fun _ hplace => by cases hplace⟩ (linesToAdd_eq_nil hkeys) hkept
      hnames hvalues
  have hadd : ∀ it ∈ data.data, ∀ output, addSection prettyPrint original output it = output := by
    intro it hit output
    have hfind := (OrderedMap.mem_iff_find data.indexes.nodup).mp hit
    have hname : data.Names it.1 := by rw [INIStructure.Names, hfind]; rfl
    have hhas : original.has it.1 = true := by
      rw [INIStructure.has_iff_names, data.normal it.1 (List.mem_map_of_mem hit)]
      exact hsections it.1 hname
    rw [addSection, if_pos hhas]
  have hfold : ∀ sections : List (Bytes × INIMap Bytes), (∀ it ∈ sections, it ∈ data.data) →
      ∀ output, sections.foldl (addSection prettyPrint original) output = output := by
    intro sections hsub
    induction sections with
    | nil => exact fun _ => rfl
    | cons it rest ih =>
      intro output
      rw [List.foldl_cons, hadd it (hsub it List.mem_cons_self)]
      exact ih (fun it' hit' => hsub it' (List.mem_cons_of_mem _ hit')) output
  rw [getLazyOutput_eq, hloop, hfold _ fun _ => id]

end MINI
end WhiteSmo
