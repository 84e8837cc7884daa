import Mathlib.Data.List.TakeWhile
import WhiteSmo.Library.SqlToken
import WhiteSmo.Server.Login

/-!
# The statements of a login

What the SELECT and the INSERT of `case 12` say once the database has split their
texts into tokens.  `exec` runs every statement of its text, so that the whole
list of tokens counts.
-/

namespace WhiteSmo

open SqlToken (Token tokens tokensFrom quoted)

/-- `SELECT * FROM Users WHERE UserName =` -/
def selectHead : List Token :=
  [.word (ascii "SELECT"), .symbol 42, .word (ascii "FROM"), .word (ascii "Users"),
    .word (ascii "WHERE"), .word (ascii "UserName"), .symbol 61]

/-- `INSERT INTO Users VALUES (` -/
def insertHead : List Token :=
  [.word (ascii "INSERT"), .word (ascii "INTO"), .word (ascii "Users"), .word (ascii "VALUES"),
    .symbol 40]

/-- The operand of a text that is one SELECT of the shape that `Update` builds. -/
def readSelect (text : Bytes) : Option Bytes :=
  (tokens text).bind fun ts =>
    if ts.take 7 = selectHead then
      match ts.drop 7 with
      | [.quoted 34 name] => some name
      | _ => none
    else none

/-- The three values of a text that is one INSERT of the shape that `Update` builds. -/
def readInsert (text : Bytes) : Option (Bytes × Bytes × Bytes) :=
  (tokens text).bind fun ts =>
    if ts.take 5 = insertHead then
      match ts.drop 5 with
      | [.quoted 34 name, .symbol 44, .quoted 34 password, .symbol 44, .word banned, .symbol 41] =>
        some (name, password, banned)
      | _ => none
    else none

theorem readSelect_eq_some_iff {text name : Bytes} :
    readSelect text = some name ↔ tokens text = some (selectHead ++ [.quoted 34 name]) := by
  constructor
  · intro h
    obtain ⟨ts, hts, hread⟩ := Option.bind_eq_some_iff.mp h
    by_cases hhead : ts.take 7 = selectHead
    · rw [if_pos hhead] at hread
      split at hread
      case h_1 name' hdrop =>
        rw [hts, ← hhead, ← Option.some.inj hread, ← hdrop, List.take_append_drop]
      case h_2 => cases hread
    · rw [if_neg hhead] at hread
      cases hread
  · intro h
    rw [readSelect, h]
    rfl

theorem readInsert_eq_some_iff {text name password banned : Bytes} :
    readInsert text = some (name, password, banned) ↔
      tokens text = some (insertHead ++ [.quoted 34 name, .symbol 44, .quoted 34 password,
        .symbol 44, .word banned, .symbol 41]) := by
  constructor
  · intro h
    obtain ⟨ts, hts, hread⟩ := Option.bind_eq_some_iff.mp h
    by_cases hhead : ts.take 5 = insertHead
    · rw [if_pos hhead] at hread
      split at hread
      case h_1 name' password' banned' hdrop =>
        cases hread
        rw [hts, ← hhead, ← hdrop, List.take_append_drop]
      case h_2 => cases hread
    · rw [if_neg hhead] at hread
      cases hread
  · intro h
    rw [readInsert, h]
    rfl

/-! ## Building and reading back -/

theorem selectText_eq {name : Bytes} (hname : 0 ∉ name) :
    selectText name =
      (ascii "SELECT * FROM Users WHERE UserName =" ++ ascii "\"") ++ (name ++ 34 :: []) := by
  have hmem : 0 ∉ ascii "SELECT * FROM Users WHERE UserName =" ++ ascii "\"" ++ name ++
      ascii "\"" := by
    have hhead : (0 : UInt8) ∉ ascii "SELECT * FROM Users WHERE UserName =" ++ ascii "\"" := by
      decide +kernel
    have htail : (0 : UInt8) ∉ ascii "\"" := by decide +kernel
    simp only [List.mem_append, not_or] at hhead ⊢
    exact ⟨⟨hhead, hname⟩, htail⟩
  rw [selectText, cStr_of_not_mem hmem, List.append_assoc]
  rfl

theorem insertText_eq {name password : Bytes} (hname : 0 ∉ name) (hpassword : 0 ∉ password) :
    insertText name password =
      ascii "INSERT INTO Users VALUES (\"" ++
        (name ++ 34 :: (ascii ", \"" ++ (password ++ 34 :: ascii ", 0)"))) := by
  have hmem : 0 ∉ ascii "INSERT INTO Users VALUES (\"" ++ name ++ ascii "\", \"" ++ password ++
      ascii "\", 0)" := by
    have hhead : (0 : UInt8) ∉ ascii "INSERT INTO Users VALUES (\"" := by decide +kernel
    have hmid : (0 : UInt8) ∉ ascii "\", \"" := by decide +kernel
    have htail : (0 : UInt8) ∉ ascii "\", 0)" := by decide +kernel
    simp only [List.mem_append, not_or]
    exact ⟨⟨⟨⟨hhead, hname⟩, hmid⟩, hpassword⟩, htail⟩
  rw [insertText, cStr_of_not_mem hmem]
  simp only [List.append_assoc]
  rfl

theorem readSelect_selectText_iff {name : Bytes} (hname : 0 ∉ name) :
    readSelect (selectText name) = some name ↔ 34 ∉ name := by
  have hrun : SqlToken.run .start (ascii "SELECT * FROM Users WHERE UserName =" ++ ascii "\"") =
      (selectHead, .quote 34 []) := by decide +kernel
  rw [readSelect_eq_some_iff, selectText_eq hname, tokens,
    SqlToken.tokensFrom_enclosed_iff hrun (by decide)]
  exact and_iff_left rfl

theorem readInsert_insertText_iff {name password : Bytes} (hname : 0 ∉ name)
    (hpassword : 0 ∉ password) :
    readInsert (insertText name password) = some (name, password, ascii "0") ↔
      34 ∉ name ∧ 34 ∉ password := by
  have hhead : SqlToken.run .start (ascii "INSERT INTO Users VALUES (\"") =
      (insertHead, .quote 34 []) := by decide +kernel
  have hmid : SqlToken.run .start (ascii ", \"") = ([.symbol 44], .quote 34 []) := by
    decide +kernel
  have htail : tokensFrom .start (ascii ", 0)") =
      some [.symbol 44, .word (ascii "0"), .symbol 41] := by decide +kernel
  rw [readInsert_eq_some_iff, insertText_eq hname hpassword, tokens,
    SqlToken.tokensFrom_enclosed_iff hhead (by simp [ascii])]
  refine and_congr_right fun _ => ?_
  have hrest : (ascii ", 0)").head? ≠ some 34 := by decide +kernel
  exact (SqlToken.tokensFrom_enclosed_iff hmid hrest).trans (and_iff_left htail)

/-- Both statements of a login read back as the values they were built from exactly
when neither value contains a double quote. -/
theorem statements_read_back_iff (name password : Bytes) (hname : 0 ∉ name)
    (hpassword : 0 ∉ password) :
    (readSelect (selectText name) = some name ∧
      readInsert (insertText name password) = some (name, password, ascii "0")) ↔
      34 ∉ name ∧ 34 ∉ password := by
  rw [readSelect_selectText_iff hname, readInsert_insertText_iff hname hpassword]
  constructor
  · intro h
    exact h.2
  · intro h
    exact ⟨h.1, h⟩

theorem statements_read_back_iff_plain :
    (readSelect (selectText (ascii "a b")) = some (ascii "a b") ∧
      readInsert (insertText (ascii "a b") (ascii "it's")) =
        some (ascii "a b", ascii "it's", ascii "0")) ↔
      34 ∉ ascii "a b" ∧ 34 ∉ ascii "it's" :=
  statements_read_back_iff (ascii "a b") (ascii "it's") (by decide +kernel) (by decide +kernel)

/-- A name that the parser yields and whose SELECT has a second operand. -/
theorem injected_name_not_read_back :
    credentials (loginMessage (ascii "a\" OR \"1") (ascii "x") (by decide +kernel)) =
        some (ascii "a\" OR \"1", ascii "x") ∧
      ¬ (readSelect (selectText (ascii "a\" OR \"1")) = some (ascii "a\" OR \"1") ∧
        readInsert (insertText (ascii "a\" OR \"1") (ascii "x")) =
          some (ascii "a\" OR \"1", ascii "x", ascii "0")) := by
  have hname : (0 : UInt8) ∉ ascii "a\" OR \"1" := by decide +kernel
  refine ⟨loginMessage_credentials _ hname (by decide +kernel), fun h => ?_⟩
  have hquote : (34 : UInt8) ∉ ascii "a\" OR \"1" := (readSelect_selectText_iff hname).mp h.1
  exact hquote (by decide +kernel)

end WhiteSmo
