import WhiteSmo.Library.Throwing
import WhiteSmo.Server.Statements

/-!
# Transactions on the connection

`Database::exec` and `SQLite::Transaction`, over a connection that behaves as `sqlite3.h` says:
`BEGIN` leaves autocommit mode, `COMMIT` and `ROLLBACK` return to it, and an error within a
transaction may roll it back at once.  Any call can fail.  The scope of a `Transaction` makes
all of its statements or none of them, and which it is shows in whether it throws.
-/

namespace WhiteSmo
namespace SQLite

/-- What comes of a call to `sqlite3_exec`. -/
inductive Outcome
  | done
  | failed
  /-- An error behind which the open transaction is rolled back already. -/
  | rolledBack
  deriving DecidableEq

/-- The table as the file has it and as the open transaction has it.  There is none in
autocommit mode. -/
structure Connection where
  stored : List Row
  transaction : Option (List Row)

/-- A connection, and the texts of the calls that were made on it. -/
structure Link where
  connection : Connection
  calls : List Bytes

/-- The connection, behind so many calls. -/
def Link.At (link : Link) (c : Connection) (n : Nat) : Prop :=
  link.connection = c ∧ link.calls.length = n

/-- `SQLite::Exception` -/
inductive Exception
  /-- With the code and the text of a call to SQLite that has failed. -/
  | sqlite
  | text (message : String) (ret : Int)
  deriving DecidableEq

namespace Connection

/-- The table that a statement sees. -/
def content (c : Connection) : List Row := c.transaction.getD c.stored

/-- A statement that is no transaction statement leaves `users` behind. -/
def put (c : Connection) (users : List Row) : Connection :=
  match c.transaction with
  | none => { c with stored := users }
  | some _ => { c with transaction := some users }

/-- An error may end the transaction. -/
def afterError (c : Connection) : Outcome → Connection
  | .rolledBack => { c with transaction := none }
  | .done | .failed => c

end Connection

/-- The part of SQLite that runs SQL: what comes of the `n`-th call, and what a text makes of
the table when it runs, `none` when it does not.  `other` is for texts that have transaction
statements of their own in them. -/
structure Engine where
  outcome : Nat → Outcome
  plain : Bytes → Bool
  change : Bytes → List Row → Option (List Row)
  other : Nat → Bytes → Connection → Bool × Connection

def beginText : Bytes := ascii "BEGIN"

def commitText : Bytes := ascii "COMMIT"

def rollbackText : Bytes := ascii "ROLLBACK"

namespace Engine

variable (engine : Engine)

/-- A statement that is no transaction statement. -/
def runPlain (n : Nat) (text : Bytes) (c : Connection) : Bool × Connection :=
  match engine.change text c.content, engine.outcome n with
  | some users, .done => (true, c.put users)
  | _, outcome => (false, c.afterError outcome)

/-- Whether `sqlite3_exec` returns `SQLITE_OK`, and the connection behind it. -/
def run (n : Nat) (text : Bytes) (c : Connection) : Bool × Connection :=
  if text = beginText then
    match c.transaction, engine.outcome n with
    | none, .done => (true, { c with transaction := some c.stored })
    | _, _ => (false, c)
  else if text = commitText then
    match c.transaction, engine.outcome n with
    | some users, .done => (true, ⟨users, none⟩)
    | _, outcome => (false, c.afterError outcome)
  else if text = rollbackText then
    match c.transaction, engine.outcome n with
    | some _, .done => (true, { c with transaction := none })
    | _, outcome => (false, c.afterError outcome)
  else if engine.plain text then engine.runPlain n text c
  else engine.other n text c

/-- `Database::exec`, without the number of changes that it returns. -/
def exec (text : Bytes) : Throwing Link Exception Unit where
  run link :=
    let r := engine.run link.calls.length text link.connection
    (if r.1 then .ok () else .error .sqlite, ⟨r.2, link.calls ++ [text]⟩)

end Engine

/-- `SQLite::Transaction` -/
structure Transaction where
  mbCommited : Bool

namespace Transaction

variable (engine : Engine)

/-- `Transaction::Transaction` -/
def construct : Throwing Link Exception Transaction := do
  engine.exec beginText
  pure ⟨false⟩

/-- `Transaction::~Transaction`: what `exec` throws is caught. -/
def destroy (transaction : Transaction) (link : Link) : Link :=
  if transaction.mbCommited = false then ((engine.exec rollbackText).run link).2 else link

/-- `Transaction::commit` -/
def commit : Throwing (Link × Transaction) Exception Unit := do
  let transaction ← Throwing.read Prod.snd
  if transaction.mbCommited = false then
    Throwing.outside (engine.exec commitText)
    Throwing.modify fun s => (s.1, ⟨true⟩)
  else Throwing.throw (.text "Transaction already committed." (-1))

/-- `_database->exec(...)` for each of the texts. -/
def execAll : List Bytes → Throwing (Link × Transaction) Exception Unit
  | [] => pure ()
  | text :: texts => do
    Throwing.outside (engine.exec text)
    execAll texts

/-- The scope of a transaction that executes the texts and commits. -/
def committing (texts : List Bytes) : Throwing Link Exception Unit :=
  Throwing.scope (construct engine) (destroy engine) do
    execAll engine texts
    commit engine

end Transaction

/-! ## All or nothing -/

namespace Engine

variable (engine : Engine)

/-- Each of the texts has run, from the `n`-th call on. -/
def change? : Nat → List Bytes → List Row → Option (List Row)
  | _, [], users => some users
  | n, text :: texts, users =>
    if engine.outcome n = .done then (engine.change text users).bind (change? (n + 1) texts)
    else none

/-- What the texts make of the table as one step, `none` when any of the calls has failed. -/
def transact (n : Nat) (texts : List Bytes) (users : List Row) : Option (List Row) :=
  if engine.outcome n = .done then
    (engine.change? (n + 1) texts users).bind fun users =>
      if engine.outcome (n + 1 + texts.length) = .done then some users else none
  else none

/-- A text without transaction statements. -/
structure Plain (text : Bytes) : Prop where
  plain : engine.plain text = true
  ne_begin : text ≠ beginText
  ne_commit : text ≠ commitText
  ne_rollback : text ≠ rollbackText

variable {engine} {n : Nat} {text : Bytes} {users content : List Row}

theorem exec_run_ok {link : Link} {c : Connection}
    (h : engine.run link.calls.length text link.connection = (true, c)) :
    (engine.exec text).run link = (.ok (), ⟨c, link.calls ++ [text]⟩) := by
  simp only [exec, h, if_true]

theorem exec_run_error {link : Link} {c : Connection}
    (h : engine.run link.calls.length text link.connection = (false, c)) :
    (engine.exec text).run link = (.error .sqlite, ⟨c, link.calls ++ [text]⟩) := by
  simp only [exec, h, Bool.false_eq_true, if_false]

/-- `exec` returns or throws as SQLite says, and leaves the connection that it says. -/
theorem exec_triple (text : Bytes) (c : Connection) (n : Nat) :
    Throwing.Triple (fun link => link.At c n) (engine.exec text)
      (fun _ link => (engine.run n text c).1 = true ∧
        link.At (engine.run n text c).2 (n + 1))
      (fun _ link => (engine.run n text c).1 = false ∧
        link.At (engine.run n text c).2 (n + 1)) := by
  rintro link ⟨rfl, rfl⟩
  have hcalls : (link.calls ++ [text]).length = link.calls.length + 1 := List.length_append
  generalize hrun : engine.run link.calls.length text link.connection = r
  obtain ⟨ok, c⟩ := r
  cases ok with
  | true => exact Or.inl ⟨(), _, exec_run_ok hrun, rfl, rfl, hcalls⟩
  | false => exact Or.inr ⟨_, _, exec_run_error hrun, rfl, rfl, hcalls⟩

theorem afterError_stored (c : Connection) (outcome : Outcome) :
    (c.afterError outcome).stored = c.stored := by
  cases outcome <;> rfl

/-- In autocommit mode. -/
theorem run_begin : engine.run n beginText ⟨users, none⟩ =
    if engine.outcome n = .done then (true, ⟨users, some users⟩) else (false, ⟨users, none⟩) := by
  cases houtcome : engine.outcome n <;> simp [run, houtcome]

theorem run_commit_iff {c : Connection} : (engine.run n commitText c).1 = true ↔
    c.transaction ≠ none ∧ engine.outcome n = .done := by
  have hne : commitText ≠ beginText := by decide
  obtain ⟨stored, transaction⟩ := c
  cases transaction <;> cases houtcome : engine.outcome n <;> simp [run, hne, houtcome]

theorem run_commit_ok {c : Connection} (h : (engine.run n commitText c).1 = true) :
    (engine.run n commitText c).2 = ⟨c.content, none⟩ := by
  have hne : commitText ≠ beginText := by decide
  obtain ⟨hopen, houtcome⟩ := run_commit_iff.mp h
  obtain ⟨content, htransaction⟩ := Option.ne_none_iff_exists'.mp hopen
  simp [run, hne, houtcome, htransaction, Connection.content]

theorem run_commit_error {c : Connection} (h : (engine.run n commitText c).1 = false) :
    (engine.run n commitText c).2.stored = c.stored := by
  have hne : commitText ≠ beginText := by decide
  obtain ⟨stored, transaction⟩ := c
  cases transaction <;> cases houtcome : engine.outcome n <;>
    simp [run, hne, houtcome, Connection.afterError] at h ⊢

theorem run_plain (hplain : engine.Plain text) : engine.run n text ⟨users, some content⟩ =
    (engine.change? n [text] content).elim
      (false, Connection.afterError ⟨users, some content⟩ (engine.outcome n))
      (fun content' => (true, ⟨users, some content'⟩)) := by
  have hcontent : (Connection.mk users (some content)).content = content := rfl
  rw [run, if_neg hplain.ne_begin, if_neg hplain.ne_commit, if_neg hplain.ne_rollback,
    if_pos hplain.plain, runPlain, hcontent]
  cases hchange : engine.change text content with
  | none => simp [change?, hchange]
  | some content' =>
    cases houtcome : engine.outcome n <;>
      simp [change?, hchange, houtcome, Connection.put, Connection.afterError]

theorem exec_plain (hplain : engine.Plain text) :
    Throwing.Triple (fun link => link.At ⟨users, some content⟩ n) (engine.exec text)
      (fun _ link => ∃ content', engine.change? n [text] content = some content' ∧
        link.At ⟨users, some content'⟩ (n + 1))
      (fun _ link => engine.change? n [text] content = none ∧ link.connection.stored = users) := by
  refine (exec_triple text ⟨users, some content⟩ n).consequence (fun _ hs => hs) ?_ ?_
  · rintro _ link ⟨hok, hlink⟩
    rw [run_plain hplain] at hok hlink
    cases hchange : engine.change? n [text] content with
    | none =>
      rw [hchange] at hok
      cases hok
    | some content' =>
      rw [hchange] at hlink
      exact ⟨content', rfl, hlink⟩
  · rintro _ link ⟨herror, hlink, -⟩
    rw [run_plain hplain] at herror hlink
    cases hchange : engine.change? n [text] content with
    | none =>
      rw [hchange] at hlink
      exact ⟨rfl, by rw [hlink]; exact afterError_stored _ _⟩
    | some content' =>
      rw [hchange] at herror
      cases herror

end Engine

namespace Transaction

variable {engine : Engine} {n : Nat} {users content : List Row}

theorem change?_cons (text : Bytes) (texts : List Bytes) :
    engine.change? n (text :: texts) content =
      (engine.change? n [text] content).bind (engine.change? (n + 1) texts) := by
  simp only [Engine.change?]
  split
  · rw [Option.bind_assoc]
    rfl
  · rfl

theorem execAll_triple {texts : List Bytes} (hplain : ∀ text ∈ texts, engine.Plain text) :
    Throwing.Triple (fun s => s.1.At ⟨users, some content⟩ n ∧ s.2 = ⟨false⟩)
      (execAll engine texts)
      (fun _ s => ∃ content', engine.change? n texts content = some content' ∧
        s.1.At ⟨users, some content'⟩ (n + texts.length) ∧ s.2 = ⟨false⟩)
      (fun _ s => engine.change? n texts content = none ∧ s.1.connection.stored = users ∧
        s.2 = ⟨false⟩) := by
  induction texts generalizing n content with
  | nil => exact Throwing.Triple.pure fun s hs => ⟨content, rfl, hs⟩
  | cons text texts ih =>
    obtain ⟨hfirst, hrest⟩ := List.forall_mem_cons.mp hplain
    have hexec : Throwing.Triple (fun s : Link × Transaction =>
        s.1.At ⟨users, some content⟩ n ∧ s.2 = ⟨false⟩) (Throwing.outside (engine.exec text))
        (fun _ s => ∃ content', engine.change? n [text] content = some content' ∧
          s.1.At ⟨users, some content'⟩ (n + 1) ∧ s.2 = ⟨false⟩)
        (fun _ s => engine.change? n (text :: texts) content = none ∧
          s.1.connection.stored = users ∧ s.2 = ⟨false⟩) := by
      refine (Engine.exec_plain hfirst).outside.consequence (fun _ hs => hs) ?_ ?_
      · rintro _ s ⟨⟨content', hchange, hlink⟩, hobject⟩
        exact ⟨content', hchange, hlink, hobject⟩
      · rintro _ s ⟨⟨hchange, hstored⟩, hobject⟩
        exact ⟨by rw [change?_cons, hchange]; rfl, hstored, hobject⟩
    refine hexec.bind fun _ => Throwing.Triple.of_exists fun content' =>
      Throwing.Triple.of_fact fun hchange => (ih hrest).consequence (fun _ hs => hs) ?_ ?_
    · rintro _ s ⟨content'', hrests, hlink, hobject⟩
      refine ⟨content'', by rw [change?_cons, hchange]; exact hrests, ?_, hobject⟩
      rwa [List.length_cons, Nat.add_comm texts.length, ← Nat.add_assoc]
    · rintro _ s ⟨hrests, hstored, hobject⟩
      exact ⟨by rw [change?_cons, hchange]; exact hrests, hstored, hobject⟩

/-- One text, whatever is in it. -/
theorem execAll_one (text : Bytes) (c : Connection) (n : Nat) :
    Throwing.Triple (fun s => s.1.At c n ∧ s.2 = ⟨false⟩) (execAll engine [text])
      (fun _ s => (engine.run n text c).1 = true ∧ s.1.At (engine.run n text c).2 (n + 1) ∧
        s.2 = ⟨false⟩)
      (fun _ s => (engine.run n text c).1 = false ∧
        s.1.connection = (engine.run n text c).2 ∧ s.2 = ⟨false⟩) := by
  refine Throwing.Triple.bind ((Engine.exec_triple text c n).outside.consequence
    (fun _ hs => hs) (fun _ _ hs => hs) ?_) fun _ => Throwing.Triple.pure ?_
  · rintro _ s ⟨⟨herror, hlink, -⟩, hobject⟩
    exact ⟨herror, hlink, hobject⟩
  · rintro s ⟨⟨hok, hlink⟩, hobject⟩
    exact ⟨hok, hlink, hobject⟩

/-- `commit` ends the transaction, or leaves the file as it is. -/
theorem commit_triple (c : Connection) :
    Throwing.Triple (fun s => s.1.At c n ∧ s.2 = ⟨false⟩) (commit engine)
      (fun _ s => (c.transaction ≠ none ∧ engine.outcome n = .done) ∧
        s.1.connection = ⟨c.content, none⟩ ∧ s.2 = ⟨true⟩)
      (fun _ s => ¬ (c.transaction ≠ none ∧ engine.outcome n = .done) ∧
        s.1.connection.stored = c.stored ∧ s.2 = ⟨false⟩) := by
  refine Throwing.Triple.bind (Q := fun object s =>
    object = ⟨false⟩ ∧ s.1.At c n ∧ s.2 = ⟨false⟩) ?_ fun object => ?_
  · exact Throwing.Triple.read fun s hs => ⟨hs.2, hs⟩
  · refine Throwing.Triple.of_fact fun hobject => ?_
    rw [hobject, if_pos rfl]
    refine Throwing.Triple.bind ((Engine.exec_triple commitText c n).outside.consequence
      (fun _ hs => hs) (fun _ _ hs => hs) fun _ s hs => ?_) fun _ => ?_
    · obtain ⟨⟨herror, hlink, -⟩, hkept⟩ := hs
      refine ⟨fun hboth => ?_, by rw [hlink, Engine.run_commit_error herror], hkept⟩
      rw [Engine.run_commit_iff.mpr hboth] at herror
      cases herror
    · refine Throwing.Triple.modify fun s hs => ?_
      obtain ⟨⟨hok, hlink, -⟩, -⟩ := hs
      exact ⟨Engine.run_commit_iff.mp hok, hlink.trans (Engine.run_commit_ok hok), rfl⟩

/-- The last call was a `ROLLBACK`, and has failed. -/
def RollbackFailed (engine : Engine) (link : Link) : Prop :=
  ∃ calls, link.calls = calls ++ [rollbackText] ∧ engine.outcome calls.length = .failed

/-- The destructor of a transaction that was not committed. -/
theorem destroy_rollback (link : Link) :
    (destroy engine ⟨false⟩ link).connection.stored = link.connection.stored ∧
      ((destroy engine ⟨false⟩ link).connection.transaction = none ∨
        RollbackFailed engine (destroy engine ⟨false⟩ link)) := by
  have hne : rollbackText ≠ beginText ∧ rollbackText ≠ commitText := by decide
  obtain ⟨⟨stored, transaction⟩, calls⟩ := link
  have hcalls : (destroy engine ⟨false⟩ ⟨⟨stored, transaction⟩, calls⟩).calls =
      calls ++ [rollbackText] := rfl
  cases houtcome : engine.outcome calls.length with
  | failed =>
    refine ⟨?_, Or.inr ⟨calls, hcalls, houtcome⟩⟩
    cases transaction <;> simp [destroy, Engine.exec, Engine.run, hne, houtcome,
      Connection.afterError]
  | done =>
    cases transaction <;> simp [destroy, Engine.exec, Engine.run, hne, houtcome,
      Connection.afterError]
  | rolledBack =>
    cases transaction <;> simp [destroy, Engine.exec, Engine.run, hne, houtcome,
      Connection.afterError]

/-- `BEGIN` in autocommit mode. -/
theorem construct_triple :
    Throwing.Triple (fun link => link.At ⟨users, none⟩ n) (construct engine)
      (fun object link => engine.outcome n = .done ∧ link.At ⟨users, some users⟩ (n + 1) ∧
        object = ⟨false⟩)
      (fun _ link => engine.outcome n ≠ .done ∧ link.connection = ⟨users, none⟩) := by
  refine Throwing.Triple.bind ((Engine.exec_triple beginText ⟨users, none⟩ n).consequence
    (fun _ hs => hs) (fun _ _ hs => hs) ?_) fun _ => Throwing.Triple.pure ?_
  · rintro _ link ⟨herror, hlink, -⟩
    rw [Engine.run_begin] at herror hlink
    split at herror
    · cases herror
    · rename_i hfailed
      rw [if_neg hfailed] at hlink
      exact ⟨hfailed, hlink⟩
  · rintro link ⟨hok, hlink⟩
    rw [Engine.run_begin] at hok hlink
    split at hok
    · rename_i hdone
      rw [if_pos hdone] at hlink
      exact ⟨hdone, hlink, rfl⟩
    · cases hok

/-- A scope whose body leaves a file with `C` when it commits and one with `D` when it throws.
A transaction is open behind it only if the `ROLLBACK` of the destructor has failed. -/
theorem scope_triple {body : Throwing (Link × Transaction) Exception Unit} {users : List Row}
    {n : Nat} {C D : List Row → Prop}
    (hbegin : engine.outcome n ≠ .done → D users)
    (hbody : engine.outcome n = .done → Throwing.Triple
      (fun s => s.1.At ⟨users, some users⟩ (n + 1) ∧ s.2 = ⟨false⟩) body
      (fun _ s => C s.1.connection.stored ∧ s.1.connection.transaction = none ∧
        s.2 = ⟨true⟩)
      (fun _ s => D s.1.connection.stored ∧ s.2 = ⟨false⟩)) :
    Throwing.Triple (fun link => link.At ⟨users, none⟩ n)
      (Throwing.scope (construct engine) (destroy engine) body)
      (fun _ link => C link.connection.stored ∧ link.connection.transaction = none)
      (fun _ link => D link.connection.stored ∧
        (link.connection.transaction = none ∨ RollbackFailed engine link)) := by
  refine Throwing.Triple.scope
    (I := fun object link => engine.outcome n = .done ∧ link.At ⟨users, some users⟩ (n + 1) ∧
      object = ⟨false⟩)
    (J := fun _ s => C s.1.connection.stored ∧ s.1.connection.transaction = none ∧
      s.2 = ⟨true⟩)
    (K := fun _ s => D s.1.connection.stored ∧ s.2 = ⟨false⟩) ?_ (fun object => ?_) ?_ ?_
  · refine construct_triple.consequence (fun _ hs => hs) (fun _ _ hs => hs) ?_
    rintro _ link ⟨hfailed, hlink⟩
    rw [hlink]
    exact ⟨hbegin hfailed, Or.inl rfl⟩
  · refine Throwing.Triple.consequence (P := fun s => engine.outcome n = .done ∧
      s.1.At ⟨users, some users⟩ (n + 1) ∧ s.2 = ⟨false⟩) (Throwing.Triple.of_fact hbody)
      (fun s hs => ⟨hs.1.1, hs.1.2.1, hs.2.trans hs.1.2.2⟩) (fun _ _ hs => hs) fun _ _ hs => hs
  · rintro _ ⟨link, object⟩ ⟨hcommitted, hnone, hobject⟩
    obtain rfl : object = ⟨true⟩ := hobject
    exact ⟨hcommitted, hnone⟩
  · rintro _ ⟨link, object⟩ ⟨hthrown, hobject⟩
    obtain ⟨hkept, hended⟩ := @destroy_rollback engine link
    obtain rfl : object = ⟨false⟩ := hobject
    exact ⟨by rw [hkept]; exact hthrown, hended⟩

/-- The scope of a transaction is all or nothing.  When it returns, the file has what the texts
have made of the table, one after another, and autocommit mode is on again.  When it throws,
one of the calls has failed and the file is as it was. -/
theorem committing_triple (engine : Engine) {texts : List Bytes}
    (hplain : ∀ text ∈ texts, engine.Plain text) (users : List Row) (n : Nat) :
    Throwing.Triple (fun link => link.At ⟨users, none⟩ n) (committing engine texts)
      (fun _ link => engine.transact n texts users = some link.connection.stored ∧
        link.connection.transaction = none)
      (fun _ link => (engine.transact n texts users = none ∧ link.connection.stored = users) ∧
        (link.connection.transaction = none ∨ RollbackFailed engine link)) := by
  refine scope_triple (C := fun stored => engine.transact n texts users = some stored)
    (D := fun stored => engine.transact n texts users = none ∧ stored = users)
    (fun hfailed => ⟨if_neg hfailed, rfl⟩) fun hdone => ?_
  have htransact : engine.transact n texts users = (engine.change? (n + 1) texts users).bind
      fun users => if engine.outcome (n + 1 + texts.length) = .done then some users else none :=
    if_pos hdone
  refine Throwing.Triple.bind ((execAll_triple hplain).consequence (fun _ hs => hs)
    (fun _ _ hs => hs) fun _ s hs => ?_) fun _ => ?_
  · exact ⟨⟨by rw [htransact, hs.1]; rfl, hs.2.1⟩, hs.2.2⟩
  · refine Throwing.Triple.of_exists fun content => Throwing.Triple.of_fact fun hchange => ?_
    refine (commit_triple ⟨users, some content⟩).consequence (fun _ hs => hs) ?_ ?_
    · rintro _ s ⟨⟨-, hcommit⟩, hlink, hobject⟩
      refine ⟨?_, by rw [hlink], hobject⟩
      rw [htransact, hchange, Option.bind_some, if_pos hcommit, hlink]
      rfl
    · rintro _ s ⟨hnot, hstored, hobject⟩
      refine ⟨⟨?_, hstored⟩, hobject⟩
      have hfailed : engine.outcome (n + 1 + texts.length) ≠ .done :=
        fun hcommit => hnot ⟨Option.some_ne_none content, hcommit⟩
      rw [htransact, hchange, Option.bind_some, if_neg hfailed]

/-- Within a transaction there is no `BEGIN`. -/
theorem committing_open (texts : List Bytes) {link : Link}
    (h : link.connection.transaction = some content) :
    (committing engine texts).run link =
      (.error .sqlite, ⟨link.connection, link.calls ++ [beginText]⟩) := by
  have hbegin : engine.run link.calls.length beginText link.connection =
      (false, link.connection) := by
    simp [Engine.run, h]
  have hconstruct : (construct engine).run link =
      (.error .sqlite, ⟨link.connection, link.calls ++ [beginText]⟩) :=
    Throwing.bind_run_error (Engine.exec_run_error hbegin)
  simp only [committing, Throwing.scope, hconstruct]

/-! ## One scope after another -/

variable (engine)

/-- Which of the scopes return, and the connection behind the last one.  What they throw is
caught. -/
def scopes : List (List Bytes) → Link → List Bool × Link
  | [], link => ([], link)
  | texts :: batches, link =>
    let r := (committing engine texts).run link
    let next := scopes batches r.2
    (r.1.isOk :: next.1, next.2)

/-- What the texts make of the table, one after another. -/
def effect (texts : List Bytes) (users : List Row) : Option (List Row) :=
  texts.foldlM (fun users text => engine.change text users) users

/-- The texts of the scopes that return. -/
def returned (batches : List (List Bytes)) (oks : List Bool) : List Bytes :=
  ((batches.zip oks).filter Prod.snd).flatMap Prod.fst

variable {engine}

theorem change?_effect {texts : List Bytes} {users' : List Row}
    (h : engine.change? n texts users = some users') : effect engine texts users = some users' := by
  induction texts generalizing n users with
  | nil => exact h
  | cons text texts ih =>
    rw [Engine.change?] at h
    split at h
    · obtain ⟨content, hchange, hrest⟩ := Option.bind_eq_some_iff.mp h
      rw [effect, List.foldlM_cons, hchange]
      exact ih hrest
    · cases h

theorem transact_effect {texts : List Bytes} {users' : List Row}
    (h : engine.transact n texts users = some users') :
    effect engine texts users = some users' := by
  rw [Engine.transact] at h
  split at h
  · obtain ⟨content, hchange, hcommit⟩ := Option.bind_eq_some_iff.mp h
    split at hcommit
    · rw [change?_effect hchange, Option.some.inj hcommit]
    · cases hcommit
  · cases h

theorem effect_append (texts texts' : List Bytes) (users : List Row) :
    effect engine (texts ++ texts') users =
      (effect engine texts users).bind (effect engine texts') := by
  rw [effect, List.foldlM_append]
  rfl

theorem scopes_open (batches : List (List Bytes)) {link : Link}
    (h : link.connection.transaction = some content) :
    (∀ ok ∈ (scopes engine batches link).1, ok = false) ∧
      (scopes engine batches link).2.connection = link.connection := by
  induction batches generalizing link with
  | nil => exact ⟨fun _ hnil => absurd hnil List.not_mem_nil, rfl⟩
  | cons texts batches ih =>
    obtain ⟨hoks, hconnection⟩ := @ih ⟨link.connection, link.calls ++ [beginText]⟩ h
    rw [scopes, committing_open texts h]
    exact ⟨List.forall_mem_cons.mpr ⟨rfl, hoks⟩, hconnection⟩

theorem returned_of_false {batches : List (List Bytes)} {oks : List Bool}
    (h : ∀ ok ∈ oks, ok = false) : returned batches oks = [] := by
  have hfilter : (batches.zip oks).filter Prod.snd = [] := by
    rw [List.filter_eq_nil_iff]
    intro pair hpair
    rw [h pair.2 (List.of_mem_zip hpair).2]
    exact Bool.false_ne_true
  rw [returned, hfilter]
  rfl

theorem returned_cons (texts : List Bytes) (batches : List (List Bytes)) (ok : Bool)
    (oks : List Bool) :
    returned (texts :: batches) (ok :: oks) =
      (if ok then texts else []) ++ returned batches oks := by
  cases ok <;> rfl

/-- Scopes of transactions that follow one another are a serial history: the file has what the
ones that return make of the table, each as a whole and in their order, and nothing of the ones
that throw.  A transaction stays open only when a scope throws whose last call, the `ROLLBACK`
of the destructor, has failed, and neither that scope nor one behind it returns. -/
theorem scopes_serial (engine : Engine) (batches : List (List Bytes))
    (hplain : ∀ texts ∈ batches, ∀ text ∈ texts, engine.Plain text) (users : List Row)
    (calls : List Bytes) :
    effect engine (returned batches (scopes engine batches ⟨⟨users, none⟩, calls⟩).1) users =
        some (scopes engine batches ⟨⟨users, none⟩, calls⟩).2.connection.stored ∧
      ((scopes engine batches ⟨⟨users, none⟩, calls⟩).2.connection.transaction ≠ none →
        ∃ before texts after e link, batches = before ++ texts :: after ∧
          (committing engine texts).run (scopes engine before ⟨⟨users, none⟩, calls⟩).2 =
            (.error e, link) ∧
          RollbackFailed engine link ∧
          ∀ ok ∈ (scopes engine batches ⟨⟨users, none⟩, calls⟩).1.drop before.length,
            ok = false) := by
  induction batches generalizing users calls with
  | nil => exact ⟨rfl, fun hopen => absurd rfl hopen⟩
  | cons texts batches ih =>
    obtain ⟨htexts, hbatches⟩ := List.forall_mem_cons.mp hplain
    -- a scope in front of the one whose destructor fails
    have hbehind : ∀ {r : Except Exception Unit} {stored : List Row} {later : List Bytes},
        (committing engine texts).run ⟨⟨users, none⟩, calls⟩ = (r, ⟨⟨stored, none⟩, later⟩) →
        (scopes engine (texts :: batches) ⟨⟨users, none⟩, calls⟩).2.connection.transaction ≠
          none →
        ∃ before texts' after e link, texts :: batches = before ++ texts' :: after ∧
          (committing engine texts').run (scopes engine before ⟨⟨users, none⟩, calls⟩).2 =
            (.error e, link) ∧
          RollbackFailed engine link ∧
          ∀ ok ∈ (scopes engine (texts :: batches) ⟨⟨users, none⟩, calls⟩).1.drop before.length,
            ok = false := by
      intro r stored later hrun hopen
      rw [scopes, hrun] at hopen
      obtain ⟨before, texts', after, e, link, rfl, herror, hfailed, hoks⟩ :=
        (ih hbatches stored later).2 hopen
      refine ⟨texts :: before, texts', after, e, link, rfl, ?_, hfailed, ?_⟩
      · rw [scopes, hrun]
        exact herror
      · rw [scopes, hrun]
        exact hoks
    rcases committing_triple engine htexts users calls.length ⟨⟨users, none⟩, calls⟩ ⟨rfl, rfl⟩ with
      ⟨_, ⟨⟨stored, transaction⟩, later⟩, hrun, hdone, hnone⟩ |
      ⟨e, ⟨⟨stored, transaction⟩, later⟩, hrun, ⟨-, hstored⟩, hended⟩
    · obtain rfl : transaction = none := hnone
      refine ⟨?_, hbehind hrun⟩
      rw [scopes, hrun]
      show effect engine (returned (texts :: batches) (true :: _)) users = _
      rw [returned_cons, if_pos rfl, effect_append, transact_effect hdone]
      exact (ih hbatches stored later).1
    · obtain rfl : stored = users := hstored
      cases transaction with
      | none =>
        refine ⟨?_, hbehind hrun⟩
        rw [scopes, hrun]
        exact (ih hbatches stored later).1
      | some content =>
        obtain ⟨hoks, hconnection⟩ :=
          @scopes_open engine content batches ⟨⟨stored, some content⟩, later⟩ rfl
        have hfailed := hended.resolve_left (Option.some_ne_none content)
        refine ⟨?_, fun _ => ⟨[], texts, batches, e, _, rfl, hrun, hfailed, ?_⟩⟩
        · rw [scopes, hrun]
          show effect engine (returned (texts :: batches) (false :: _)) stored = _
          rw [returned_cons, if_neg Bool.false_ne_true, returned_of_false hoks]
          exact congrArg some (congrArg Connection.stored hconnection).symm
        · rw [scopes, hrun]
          exact List.forall_mem_cons.mpr ⟨rfl, hoks⟩

end Transaction

/-- An engine that takes an INSERT of the login as one row. -/
def inserting (outcome : Nat → Outcome) : Engine where
  outcome := outcome
  plain text := (readInsert text).isSome
  change text users := (readInsert text).map fun values =>
    users ++ [⟨users.length + 1, values.1, values.2.1, 0⟩]
  other _ _ c := (false, c)

theorem inserting_plain (outcome : Nat → Outcome) {name password : Bytes} (hname : 0 ∉ name)
    (hpassword : 0 ∉ password) (hquotes : 34 ∉ name ∧ 34 ∉ password) :
    (inserting outcome).Plain (insertText name password) := by
  have hread : readInsert (insertText name password) = some (name, password, ascii "0") :=
    (readInsert_insertText_iff hname hpassword).mpr hquotes
  have hother : ∀ text, readInsert text = none → insertText name password ≠ text := by
    intro text hnone heq
    rw [heq, hnone] at hread
    cases hread
  exact ⟨congrArg Option.isSome hread, hother _ (by decide +kernel), hother _ (by decide +kernel),
    hother _ (by decide +kernel)⟩

/-- The second `COMMIT` fails. -/
def secondFails (n : Nat) : Outcome := if n = 5 then .failed else .done

def twoAccounts : List (List Bytes) := [[insertText [97] [120]], [insertText [98] [121]]]

theorem Transaction.scopes_serial_secondFails :
    effect (inserting secondFails) (returned twoAccounts
        (scopes (inserting secondFails) twoAccounts ⟨⟨[], none⟩, []⟩).1) [] =
      some (scopes (inserting secondFails) twoAccounts ⟨⟨[], none⟩, []⟩).2.connection.stored ∧
    ((scopes (inserting secondFails) twoAccounts ⟨⟨[], none⟩, []⟩).2.connection.transaction ≠
        none →
      ∃ before texts after e link, twoAccounts = before ++ texts :: after ∧
        (committing (inserting secondFails) texts).run
            (scopes (inserting secondFails) before ⟨⟨[], none⟩, []⟩).2 = (.error e, link) ∧
        RollbackFailed (inserting secondFails) link ∧
        ∀ ok ∈ (scopes (inserting secondFails) twoAccounts ⟨⟨[], none⟩, []⟩).1.drop before.length,
          ok = false) := by
  refine Transaction.scopes_serial (inserting secondFails) twoAccounts ?_ [] []
  refine List.forall_mem_cons.mpr ⟨?_, List.forall_mem_singleton.mpr ?_⟩
  · exact List.forall_mem_singleton.mpr
      (inserting_plain secondFails (by decide) (by decide) (by decide))
  · exact List.forall_mem_singleton.mpr
      (inserting_plain secondFails (by decide) (by decide) (by decide))

end SQLite
end WhiteSmo
