/-!
# What a query leaves behind

Model of `Database::query`, `nextRecordset` and `getLastRecord` of `wsDatabase/src/Database.cpp` and
`database/Database.h`.  The connection is the list of the responses that the statements of the last
string still have to come; what the server answers to a string is a parameter.

* `outcome_iff` — what is reported about a statement is the same from two states exactly when they
  agree in the fields that its branch leaves as they were, and have no record set left in them.
-/

set_option autoImplicit false

namespace Libws.Responses

/-- The fields of a row, as texts; NULL is none. -/
abbrev Row := List (Option String)

/-- The response to a statement. -/
inductive Response where
  /-- a result set; it may be empty -/
  | resultSet (rows : List Row)
  /-- a result set that `mysql_store_result` does not get -/
  | storeFailed
  /-- no result set, but a number of affected rows -/
  | affected (rows : UInt64)
  deriving DecidableEq, Repr

/-- The response to a string of statements: that to the first, and those to the others up to the first
that fails. -/
inductive Reply where
  | ok (first : Response) (rest : List Response)
  | error
  deriving DecidableEq, Repr

/-- A record set, which is made for a result set with rows only. -/
structure Recordset where
  mysqlRes : List Row
  sql : String
  rows_ne : mysqlRes ≠ []
  deriving DecidableEq

structure Database where
  /-- the results that `mysql_next_result` comes to -/
  nextResults : List Response
  numAffectedRows : UInt64
  numResultRows : Nat
  lastRecords : Option Recordset
  lastSQL : String
  deriving DecidableEq

namespace Database

/-- The constructor, and `logon`. -/
def new : Database := ⟨[], 0, 0, none, ""⟩

/-- The branches on a response, which `query` and `nextRecordset` share. -/
def store (db : Database) (sql : String) : Response → Database
  | .resultSet rows =>
    if h : rows = [] then { db with numResultRows := 0 }
    else { db with numResultRows := rows.length, lastRecords := some ⟨rows, sql, h⟩ }
  | .storeFailed => db
  | .affected rows => { db with lastRecords := none, numAffectedRows := rows }

/-- `query`; the other results of the last string are ignored. -/
def query (db : Database) (strSQL : String) : Reply → Database × Bool
  | .ok first rest => (store { db with nextResults := rest, lastSQL := strSQL } strSQL first, true)
  | .error =>
    ({ nextResults := [], lastSQL := "", lastRecords := none, numResultRows := 0, numAffectedRows := 0 }, false)

def nextRecordset (db : Database) : Database × Bool :=
  match db.nextResults with
  | [] => (db, false)
  | response :: rest => (store { db with nextResults := rest } db.lastSQL response, true)

/-- `getLastRecord` moves the record set out. -/
def getLastRecord (db : Database) : Database × Option Recordset := ({ db with lastRecords := none }, db.lastRecords)

def getResultRows (db : Database) : Nat := db.numResultRows

def getAffectedRows (db : Database) : UInt64 := db.numAffectedRows

end Database

/-! ## What is reported -/

/-- What is reported about a statement: the rows of the record set, and the two counts.  The text that
a record set was made for shows in the log only. -/
def report (db : Database) : Option (List Row) × Nat × UInt64 :=
  (db.getLastRecord.2.map (·.mysqlRes), db.getResultRows, db.getAffectedRows)

/-- The record set, if any, is of this response. -/
def Own (response : Option Response) (db : Database) : Prop :=
  ∀ records, db.getLastRecord.2 = some records → response = some (.resultSet records.mysqlRes)

/-- The report is the same from both states, and no record set is of an earlier statement. -/
structure SameOutcome (response : Option Response) (after₁ after₂ : Database) : Prop where
  report_eq : report after₁ = report after₂
  own₁ : Own response after₁
  own₂ : Own response after₂

/-- The states agree in the fields that the response leaves as they were, and have no record set where
it leaves that. -/
def SameLeft (db₁ db₂ : Database) : Option Response → Prop
  | none => True
  | some (.resultSet []) =>
    db₁.numAffectedRows = db₂.numAffectedRows ∧ db₁.lastRecords = none ∧ db₂.lastRecords = none
  | some (.resultSet (_ :: _)) => db₁.numAffectedRows = db₂.numAffectedRows
  | some .storeFailed =>
    (db₁.numAffectedRows = db₂.numAffectedRows ∧ db₁.numResultRows = db₂.numResultRows) ∧
      db₁.lastRecords = none ∧ db₂.lastRecords = none
  | some (.affected _) => db₁.numResultRows = db₂.numResultRows

/-- The response to the first statement of a string; none if it fails. -/
def Reply.first : Reply → Option Response
  | .ok first _ => some first
  | .error => none

variable {db db₁ db₂ : Database} {response : Option Response}

/-- A record set that is left is not of a response without rows. -/
theorem own_iff_none (h : ∀ rows, rows ≠ [] → response ≠ some (.resultSet rows)) :
    Own response db ↔ db.lastRecords = none := by
  constructor
  · intro hown
    cases hrecords : db.lastRecords with
    | none => rfl
    | some records => exact absurd (hown records hrecords) (h records.mysqlRes records.rows_ne)
  · intro hnone records hrecords
    exact absurd (hnone.symm.trans hrecords) nofun

/-- Where a response leaves the record set, there must be none. -/
theorem sameOutcome_iff_of_left (h : ∀ rows, rows ≠ [] → response ≠ some (.resultSet rows)) :
    SameOutcome response db₁ db₂ ↔
      (db₁.numResultRows = db₂.numResultRows ∧ db₁.numAffectedRows = db₂.numAffectedRows) ∧
        db₁.lastRecords = none ∧ db₂.lastRecords = none := by
  constructor
  · rintro ⟨hreport, hown₁, hown₂⟩
    obtain ⟨-, hrows, haffected⟩ : _ ∧ _ ∧ _ := by simpa only [report, Prod.mk.injEq] using hreport
    exact ⟨⟨hrows, haffected⟩, (own_iff_none h).mp hown₁, (own_iff_none h).mp hown₂⟩
  · rintro ⟨⟨hrows, haffected⟩, hnone₁, hnone₂⟩
    constructor
    · simp only [report, Database.getLastRecord, Database.getResultRows, Database.getAffectedRows, hrows, haffected,
        hnone₁, hnone₂]
    · exact (own_iff_none h).mpr hnone₁
    · exact (own_iff_none h).mpr hnone₂

/-- **One statement**, from two states. -/
theorem store_iff (db₁ db₂ : Database) (sql₁ sql₂ : String) (response : Response) :
    SameOutcome (some response) (db₁.store sql₁ response) (db₂.store sql₂ response) ↔
      SameLeft db₁ db₂ (some response) := by
  cases response with
  | resultSet rows =>
    cases rows with
    | nil =>
      rw [sameOutcome_iff_of_left (by rintro rows hrows heq; cases heq; exact hrows rfl)]
      constructor
      · rintro ⟨⟨-, haffected⟩, hnone₁, hnone₂⟩
        exact ⟨haffected, hnone₁, hnone₂⟩
      · rintro ⟨haffected, hnone₁, hnone₂⟩
        exact ⟨⟨rfl, haffected⟩, hnone₁, hnone₂⟩
    | cons row rows =>
      constructor
      · intro h
        have haffected := congrArg (fun report => report.2.2) h.report_eq
        exact haffected
      · intro haffected
        constructor
        · show (some (row :: rows), (row :: rows).length, db₁.numAffectedRows) = (_, _, db₂.numAffectedRows)
          rw [haffected]
          rfl
        · intro records hrecords
          cases hrecords
          rfl
        · intro records hrecords
          cases hrecords
          rfl
  | storeFailed =>
    rw [sameOutcome_iff_of_left (by rintro rows hrows heq; cases heq)]
    constructor
    · rintro ⟨⟨hrows, haffected⟩, hnone⟩
      exact ⟨⟨haffected, hrows⟩, hnone⟩
    · rintro ⟨⟨haffected, hrows⟩, hnone⟩
      exact ⟨⟨hrows, haffected⟩, hnone⟩
  | affected rows =>
    rw [sameOutcome_iff_of_left (by rintro rows hrows heq; cases heq)]
    constructor
    · rintro ⟨⟨hrows, -⟩, -⟩
      exact hrows
    · intro hrows
      exact ⟨⟨hrows, rfl⟩, rfl, rfl⟩

theorem query_iff (db₁ db₂ : Database) (strSQL : String) (reply : Reply) :
    SameOutcome reply.first (db₁.query strSQL reply).1 (db₂.query strSQL reply).1 ↔
      SameLeft db₁ db₂ reply.first := by
  cases reply with
  | ok first rest => exact store_iff { db₁ with nextResults := rest, lastSQL := strSQL } _ strSQL strSQL first
  | error =>
    constructor
    · intro _
      trivial
    · intro _
      refine ⟨rfl, ?_, ?_⟩
      · exact fun records hrecords => nomatch hrecords
      · exact fun records hrecords => nomatch hrecords

/-- **The outcome of a statement.**  From any two states, what is reported after `query`, and after a
`nextRecordset` that returns true, is the same and of that statement alone exactly when the states
agree in what the response leaves as it was, and have no record set left where it leaves that. -/
theorem outcome_iff (db₁ db₂ : Database) :
    (∀ (strSQL : String) (reply : Reply),
      SameOutcome reply.first (db₁.query strSQL reply).1 (db₂.query strSQL reply).1 ↔
        SameLeft db₁ db₂ reply.first) ∧
    ∀ (response : Response) (rest₁ rest₂ : List Response), db₁.nextResults = response :: rest₁ →
      db₂.nextResults = response :: rest₂ →
      (SameOutcome (some response) db₁.nextRecordset.1 db₂.nextRecordset.1 ↔ SameLeft db₁ db₂ (some response)) := by
  constructor
  · intro strSQL reply
    exact query_iff db₁ db₂ strSQL reply
  · intro response rest₁ rest₂ hnext₁ hnext₂
    unfold Database.nextRecordset
    rw [hnext₁, hnext₂]
    exact store_iff { db₁ with nextResults := rest₁ } { db₂ with nextResults := rest₂ } _ _ response

/-- The second statements of two strings of updates. -/
theorem outcome_iff_updates :
    SameOutcome (some (.affected 2))
      (Database.new.query "DELETE FROM a; UPDATE b SET c = 1" (.ok (.affected 7) [.affected 2])).1.nextRecordset.1
      (Database.new.query "INSERT INTO a VALUES (1); UPDATE b SET c = 1" (.ok (.affected 1) [.affected 2])).1.nextRecordset.1 :=
  ((outcome_iff _ _).2 (.affected 2) [] [] rfl rfl).mpr rfl

/-- The record set of an earlier statement that nobody took is handed out after a query without rows. -/
theorem stale_records :
    ¬ ∀ (db₁ db₂ : Database) (strSQL : String) (reply : Reply),
      SameOutcome reply.first (db₁.query strSQL reply).1 (db₂.query strSQL reply).1 := by
  intro hall
  have hsame := hall .new (Database.new.query "SELECT c FROM a" (.ok (.resultSet [[some "1"]]) [])).1 "SELECT c FROM b"
    (.ok (.resultSet []) [])
  exact absurd hsame.report_eq (by decide)

end Libws.Responses
