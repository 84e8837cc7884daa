import WhiteSmo.Config.Generator
import WhiteSmo.Config.Rewrite

/-!
# `INIWriter`

A file that exists is not generated anew: its lines are gone through once more, each is
kept, rewritten or dropped, and what the file did not have is put in.  The loop steps
back twice in front of the head of a section, so that the keys that are new in the
section above it can be written first.
-/

namespace WhiteSmo
namespace MINI

/-- The locals of `getLazyOutput`. -/
structure Lazy where
  output : List Bytes
  sectionCurrent : Bytes
  parsingSection : Bool
  continueToNextSection : Bool
  discardNextEmpty : Bool
  writeNewKeys : Bool
  lastKeyLine : Nat

namespace Lazy

def start : Lazy := ⟨[], [], false, false, false, false, 0⟩

/-- `output.emplace_back(line)` -/
def emplaceBack (st : Lazy) (line : Bytes) : Lazy := { st with output := st.output ++ [line] }

/-- `lastKeyLine = output.size()` -/
def markKeyLine (st : Lazy) : Lazy := { st with lastKeyLine := st.output.length }

end Lazy

/-- How the first half of a round is left. -/
inductive Round
  /-- `--line; continue;` -/
  | again (st : Lazy)
  /-- `continue;` -/
  | skip (st : Lazy)
  | on (st : Lazy)

section

variable (prettyPrint : Bool) (data original : INIStructure)

/-- The first half of a round: `line` by what it is. -/
def visitLine (st : Lazy) (line : Bytes) : Round :=
  match parseLine line with
  | .heading name =>
    if st.parsingSection then .again { st with writeNewKeys := true, parsingSection := false }
    else
      let st := { st with sectionCurrent := name }
      if data.has name then
        .on ({ st with
          parsingSection := true
          continueToNextSection := false
          discardNextEmpty := false }.emplaceBack line).markKeyLine
      else .skip { st with continueToNextSection := true, discardNextEmpty := true }
  | .keyValue key value =>
    if st.continueToNextSection then .skip st
    else if data.has st.sectionCurrent then
      let collection := (data.ref st.sectionCurrent).1
      if collection.has key then
        let outputValue := (collection.ref key).1
        if value = outputValue then .on (st.emplaceBack line).markKeyLine
        else .on (st.emplaceBack (rewriteLine prettyPrint line outputValue)).markKeyLine
      else .on st
    else .on st
  | parseResult =>
    if st.discardNextEmpty ∧ line = [] then .on { st with discardNextEmpty := false }
    else if parseResult ≠ .unknown then .on (st.emplaceBack line)
    else .on st

/-- `linesToAdd`: the keys of a section that the file does not have. -/
def linesToAdd (name : Bytes) : List Bytes :=
  if data.has name ∧ original.has name then
    ((data.ref name).1.data.filter fun it => !(original.ref name).1.has it.1).map fun it =>
      entryLine prettyPrint it.1 it.2
  else []

/-- The lines are put in behind the last key. -/
def insertNewKeys (st : Lazy) : Lazy :=
  { st with
    output := st.output.take st.lastKeyLine ++
      linesToAdd prettyPrint data original st.sectionCurrent ++ st.output.drop st.lastKeyLine }

/-- One round of the loop, and whether the same line comes again. -/
def visit (st : Lazy) (line : Bytes) (isLast : Bool) : Lazy × Bool :=
  match if st.writeNewKeys then .on st else visitLine prettyPrint data st line with
  | .again st => (st, true)
  | .skip st => (st, false)
  | .on st =>
    if st.writeNewKeys || isLast then
      let st := insertNewKeys prettyPrint data original st
      if st.writeNewKeys then ({ st with writeNewKeys := false }, true) else (st, false)
    else (st, false)

/-- The loop over `lineData`, `none` when it has not ended after `fuel` rounds. -/
def lazyLoop : Nat → Lazy → List Bytes → Option Lazy
  | _, st, [] => some st
  | 0, _, _ :: _ => none
  | fuel + 1, st, line :: rest =>
    let r := visit prettyPrint data original st line rest.isEmpty
    lazyLoop fuel r.1 (if r.2 then line :: rest else rest)

/-- One round of the loop over the sections: one that the file does not have comes to
the end. -/
def addSection (output : List Bytes) (it : Bytes × INIMap Bytes) : List Bytes :=
  if original.has it.1 then output
  else
    let output :=
      if prettyPrint ∧ output.length > 0 ∧ output.getLast? ≠ some [] then output ++ [[]] else output
    output ++ [headingLine it.1] ++ it.2.data.map fun it2 => entryLine prettyPrint it2.1 it2.2

def getLazyOutput (lineData : List Bytes) : Option (List Bytes) :=
  (lazyLoop prettyPrint data original (3 * lineData.length) .start lineData).map fun st =>
    data.data.foldl (addSection prettyPrint original) st.output

end

/-! ## The loop without its steps back

A line is visited three times when it is the head of a section below another one: to find
that the other one has ended, to write its new keys, and for itself. -/

section

variable {prettyPrint : Bool} {data original : INIStructure} {st : Lazy} {line : Bytes}

/-- The line is the head of a section. -/
def isHeading (line : Bytes) : Bool :=
  match parseLine line with
  | .heading _ => true
  | _ => false

/-- The section above `line` ends here. -/
def endSection (prettyPrint : Bool) (data original : INIStructure) (st : Lazy) (line : Bytes) :
    Lazy :=
  if isHeading line && st.parsingSection then
    insertNewKeys prettyPrint data original { st with parsingSection := false }
  else st

/-- All rounds of one line. -/
def lazyLine (prettyPrint : Bool) (data original : INIStructure) (st : Lazy) (line : Bytes)
    (isLast : Bool) : Lazy :=
  match visitLine prettyPrint data (endSection prettyPrint data original st line) line with
  | .again st => st
  | .skip st => st
  | .on st => if isLast then insertNewKeys prettyPrint data original st else st

def lazyLines (prettyPrint : Bool) (data original : INIStructure) : Lazy → List Bytes → Lazy
  | st, [] => st
  | st, line :: rest =>
    lazyLines prettyPrint data original
      (lazyLine prettyPrint data original st line rest.isEmpty) rest

/-- How a line that does not end a section is left. -/
inductive Left : Round → Prop
  | skip {st : Lazy} (h : st.writeNewKeys = false) : Left (.skip st)
  | on {st : Lazy} (h : st.writeNewKeys = false) : Left (.on st)

theorem visitLine_left (hwrite : st.writeNewKeys = false)
    (h : (isHeading line && st.parsingSection) = false) :
    Left (visitLine prettyPrint data st line) := by
  unfold visitLine
  unfold isHeading at h
  cases hparse : parseLine line with
  | heading name =>
    rw [hparse, Bool.true_and] at h
    simp only [h, Bool.false_eq_true, if_false]
    split
    case isTrue => exact .on hwrite
    case isFalse => exact .skip hwrite
  | keyValue key value =>
    dsimp only
    split
    case isTrue => exact .skip hwrite
    case isFalse =>
      split
      case isTrue =>
        split
        case isTrue => split <;> exact .on hwrite
        case isFalse => exact .on hwrite
      case isFalse => exact .on hwrite
  | unknown => dsimp only; split <;> exact .on hwrite
  | none => dsimp only; split <;> exact .on hwrite
  | comment => dsimp only; split <;> exact .on hwrite

theorem endSection_left (hwrite : st.writeNewKeys = false) :
    (endSection prettyPrint data original st line).writeNewKeys = false ∧
      (isHeading line &&
        (endSection prettyPrint data original st line).parsingSection) = false := by
  unfold endSection
  split
  case isTrue => exact ⟨hwrite, Bool.and_false _⟩
  case isFalse h => exact ⟨hwrite, Bool.eq_false_iff.mpr h⟩

theorem lazyLine_writeNewKeys (hwrite : st.writeNewKeys = false) (isLast : Bool) :
    (lazyLine prettyPrint data original st line isLast).writeNewKeys = false := by
  obtain ⟨hwrite', hleft⟩ := @endSection_left prettyPrint data original st line hwrite
  have hround := @visitLine_left prettyPrint data _ line hwrite' hleft
  unfold lazyLine
  generalize visitLine prettyPrint data (endSection prettyPrint data original st line) line = round
    at hround
  cases hround with
  | skip h => exact h
  | on h => cases isLast <;> exact h

/-- The round that leaves the line. -/
theorem visit_of_left (hwrite : st.writeNewKeys = false)
    (h : (isHeading line && st.parsingSection) = false) (isLast : Bool) :
    visit prettyPrint data original st line isLast =
      (lazyLine prettyPrint data original st line isLast, false) := by
  have hend : endSection prettyPrint data original st line = st := by
    rw [endSection, h, if_neg Bool.false_ne_true]
  have hround := @visitLine_left prettyPrint data st line hwrite h
  unfold visit lazyLine
  rw [hend, hwrite, if_neg Bool.false_ne_true]
  generalize visitLine prettyPrint data st line = round at hround
  cases hround with
  | skip => rfl
  | on hon =>
    have hinsert : ∀ st : Lazy,
        (insertNewKeys prettyPrint data original st).writeNewKeys = st.writeNewKeys :=
      fun _ => rfl
    cases isLast <;> simp [hon, hinsert]

/-- The two rounds in front of the head of a section that ends another one. -/
theorem visit_of_heading (h : (isHeading line && st.parsingSection) = true)
    (hwrite : st.writeNewKeys = false) (isLast : Bool) :
    visit prettyPrint data original st line isLast =
        ({ st with writeNewKeys := true, parsingSection := false }, true) ∧
      visit prettyPrint data original
          { st with writeNewKeys := true, parsingSection := false } line isLast =
        (endSection prettyPrint data original st line, true) := by
  obtain ⟨hheading, hparsing⟩ := Bool.and_eq_true_iff.mp h
  have hend : endSection prettyPrint data original st line =
      insertNewKeys prettyPrint data original { st with parsingSection := false } := by
    rw [endSection, h, if_pos rfl]
  constructor
  · unfold isHeading at hheading
    cases hparse : parseLine line with
    | heading name =>
      unfold visit visitLine
      rw [hparse, hwrite]
      simp [hparsing]
    | _ => rw [hparse] at hheading; cases hheading
  · rw [hend, visit]
    simp [insertNewKeys, hwrite]

/-- Three rounds for each line are enough, and they do what one does without the steps
back. -/
theorem lazyLoop_eq (prettyPrint : Bool) (data original : INIStructure)
    (hwrite : st.writeNewKeys = false) (lines : List Bytes) (fuel : Nat) :
    lazyLoop prettyPrint data original (3 * lines.length + fuel) st lines =
      some (lazyLines prettyPrint data original st lines) := by
  induction lines generalizing st fuel with
  | nil => cases h : 3 * ([] : List Bytes).length + fuel <;> rfl
  | cons line rest ih =>
    have hrest := fun fuel =>
      ih (@lazyLine_writeNewKeys prettyPrint data original st line hwrite rest.isEmpty) fuel
    have hfuel : 3 * (line :: rest).length + fuel = 3 * rest.length + fuel + 1 + 1 + 1 := by
      rw [List.length_cons]
      omega
    rw [hfuel, lazyLines]
    cases hends : isHeading line && st.parsingSection with
    | false =>
      rw [lazyLoop, visit_of_left hwrite hends]
      simp only [Bool.false_eq_true, if_false]
      rw [show 3 * rest.length + fuel + 1 + 1 = 3 * rest.length + (fuel + 2) by omega, hrest]
    | true =>
      obtain ⟨hfirst, hsecond⟩ :=
        @visit_of_heading prettyPrint data original st line hends hwrite rest.isEmpty
      obtain ⟨hwrite', hleft⟩ := @endSection_left prettyPrint data original st line hwrite
      have hsame : lazyLine prettyPrint data original (endSection prettyPrint data original st line)
          line rest.isEmpty = lazyLine prettyPrint data original st line rest.isEmpty := by
        have hend : endSection prettyPrint data original
            (endSection prettyPrint data original st line) line =
            endSection prettyPrint data original st line := by
          conv_lhs => rw [endSection]
          rw [hleft, if_neg Bool.false_ne_true]
        rw [lazyLine, hend, lazyLine]
      rw [lazyLoop, hfirst]
      simp only [if_true]
      rw [lazyLoop, hsecond]
      simp only [if_true]
      rw [lazyLoop, visit_of_left hwrite' hleft, hsame]
      simp only [Bool.false_eq_true, if_false]
      rw [hrest]

theorem getLazyOutput_eq (prettyPrint : Bool) (data original : INIStructure)
    (lineData : List Bytes) : getLazyOutput prettyPrint data original lineData =
      some (data.data.foldl (addSection prettyPrint original)
        (lazyLines prettyPrint data original .start lineData).output) := by
  have hloop := @lazyLoop_eq Lazy.start prettyPrint data original rfl lineData 0
  rw [Nat.add_zero] at hloop
  rw [getLazyOutput, hloop]
  rfl

/-- However many rounds the loop is given beyond three for each line, it ends with what goes
through the lines once, without a step back. -/
theorem lazyLoop_forward (prettyPrint : Bool) (data original : INIStructure)
    (lineData : List Bytes) (rounds : Nat) :
    lazyLoop prettyPrint data original (3 * lineData.length + rounds) .start lineData =
        some (lazyLines prettyPrint data original .start lineData) ∧
      getLazyOutput prettyPrint data original lineData =
        (lazyLoop prettyPrint data original (3 * lineData.length + rounds) .start lineData).map
          fun st => data.data.foldl (addSection prettyPrint original) st.output := by
  have hloop := @lazyLoop_eq Lazy.start prettyPrint data original rfl lineData rounds
  exact ⟨hloop, by rw [getLazyOutput_eq, hloop, Option.map_some]⟩

end

end MINI
end WhiteSmo
