import Newcoin.Bytes
import Newcoin.Lib.Sql

/-!
# The rows of a statement

`SqliteDatabase` holds one statement, and `SQL_FOREACH` runs a block at each of its rows.  SQLite itself is a
parameter: what a text prepares to, and what a prepared statement gives when it is executed.

* `forEach_reading`: a block that runs no statement is run once at each row, in order.
* `forEach_nested`: a block that runs another query with rows to its end is run for ever.
-/

namespace Newcoin

open Lib.Sql

/-! ### Statements of SQLite -/

/-- What a statement gives from its first step to its last, and what it makes of the database. -/
structure Execution (C : Type) where
  rows : List (List Value)
  /-- `SQLITE_DONE` behind the rows, or an error. -/
  done : Bool
  after : C

/-- A statement that `sqlite3_prepare_v2` has accepted. -/
structure Prepared (C : Type) where
  columns : List Bytes
  execute : C → Execution C

inductive StepResult
  | row | done | error
  deriving DecidableEq, Repr

/-- `sqlite3_stmt`. -/
structure Stmt (C : Type) extends Prepared C where
  /-- The row it is at. -/
  row : List Value
  /-- The rows behind it, and how these end; `none` before the first step and after the last. -/
  rest : Option (List (List Value) × Bool)

/-- `sqlite3_step`: after its last step a statement is reset and starts anew. -/
def Stmt.step {C : Type} (stmt : Stmt C) (db : C) : StepResult × Stmt C × C :=
  let started := match stmt.rest with
    | some rest => (rest, db)
    | none => (((stmt.execute db).rows, (stmt.execute db).done), (stmt.execute db).after)
  match started.1 with
  | (row :: rows, done) => (.row, { stmt with row, rest := some (rows, done) }, started.2)
  | ([], done) => (if done then .done else .error, { stmt with rest := none }, started.2)

/-! ### The connection -/

/-- The members; `mConnection` is what the database holds. -/
structure SqliteDatabase (C : Type) where
  mConnection : C
  mCurrentStmt : Option (Stmt C)
  mMoreRows : Bool
  mColNameTable : List Bytes

namespace SqliteDatabase

variable {C : Type} (sqlite3_prepare_v2 : C → Bytes → Option (Prepared C))

/-- `executeSQL`: what it returns, and the members after it.  The statement before it is finalized. -/
def executeSQL (sql : Bytes) (db : SqliteDatabase C) : Bool × SqliteDatabase C :=
  match sqlite3_prepare_v2 db.mConnection sql with
  | none => (false, { db with mCurrentStmt := none })
  | some p =>
    match Stmt.step ⟨p, [], none⟩ db.mConnection with
    | (.row, stmt, mConnection) =>
      (true, { db with mConnection, mCurrentStmt := some stmt, mMoreRows := true })
    | (.done, stmt, mConnection) =>
      (true, { db with mConnection, mCurrentStmt := some stmt, mMoreRows := false })
    | (.error, stmt, mConnection) =>
      (false, { db with mConnection, mCurrentStmt := some stmt, mMoreRows := false })

def startIterRows (db : SqliteDatabase C) : Bool × SqliteDatabase C :=
  (db.mMoreRows, { db with mColNameTable := db.mCurrentStmt.elim [] (·.columns) })

/-- `getNextRow`; `mMoreRows` stays as it is. -/
def getNextRow (db : SqliteDatabase C) : Bool × SqliteDatabase C :=
  if ¬ db.mMoreRows then (false, db)
  else
    match db.mCurrentStmt with
    | none => (false, db)
    | some stmt =>
      match stmt.step db.mConnection with
      | (.row, stmt, mConnection) => (true, { db with mConnection, mCurrentStmt := some stmt })
      | (_, stmt, mConnection) => (false, { db with mConnection, mCurrentStmt := some stmt })

def endIterRows (db : SqliteDatabase C) : SqliteDatabase C := { db with mCurrentStmt := none }

/-- `getColNumber`: the first column of the name. -/
def getColNumber (colName : Bytes) (columns : List Bytes) : Option ℕ := columns.findIdx? (· = colName)

/-- The value that a getter by name finds, if there is the column. -/
def column (columns : List Bytes) (row : List Value) (colName : Bytes) : Option Value :=
  (getColNumber colName columns).map fun index => row.getD index .null

/-- What the getters find in the current row. -/
def read (db : SqliteDatabase C) : Bytes → Option Value :=
  column db.mColNameTable (db.mCurrentStmt.elim [] (·.row))

/-! ### `SQL_FOREACH` -/

/-- The connection, and the variables of a block. -/
abbrev Frame (C B : Type) := SqliteDatabase C × B

/-- `for (bool _bMore = …; _bMore; _bMore = getNextRow())`; `none` if `fuel` runs of the block are not enough. -/
def forRows {B : Type} (block : Frame C B → Frame C B) : ℕ → Bool → Frame C B → Option (Frame C B)
  | _, false, s => some s
  | 0, true, _ => none
  | fuel + 1, true, s =>
    let s := block s
    let next := s.1.getNextRow
    forRows block fuel next.1 (next.2, s.2)

/-- `SQL_FOREACH(db, sql)` with a block. -/
def forEach {B : Type} (fuel : ℕ) (sql : Bytes) (block : Frame C B → Frame C B) (s : Frame C B) :
    Option (Frame C B) :=
  let executed := s.1.executeSQL sqlite3_prepare_v2 sql
  if executed.1 then
    let started := executed.2.startIterRows
    forRows block fuel started.1 (started.2, s.2)
  else some (executed.2, s.2)

/-- A block that runs no statement, but reads the columns. -/
def reading {B : Type} (f : (Bytes → Option Value) → B → B) (s : Frame C B) : Frame C B := (s.1, f s.1.read s.2)

/-- What is left behind by a loop over a statement: it is done, and starts anew at the next step. -/
structure LeftBy (p : Prepared C) (db : SqliteDatabase C) : Prop where
  stmt : ∃ row, db.mCurrentStmt = some ⟨p, row, none⟩
  columns : db.mColNameTable = p.columns

variable {B : Type} {sqlite3_prepare_v2} (f : (Bytes → Option Value) → B → B)

/-- A statement without rows. -/
lemma executeSQL_nil {p : Prepared C} {sql : Bytes} {db : SqliteDatabase C}
    (hprepare : sqlite3_prepare_v2 db.mConnection sql = some p) (hrows : (p.execute db.mConnection).rows = []) :
    executeSQL sqlite3_prepare_v2 sql db = ((p.execute db.mConnection).done,
      ⟨(p.execute db.mConnection).after, some ⟨p, [], none⟩, false, db.mColNameTable⟩) := by
  cases hdone : (p.execute db.mConnection).done <;> simp [executeSQL, hprepare, Stmt.step, hrows, hdone]

/-- A statement with rows: it is at the first one. -/
lemma executeSQL_cons {p : Prepared C} {sql : Bytes} {db : SqliteDatabase C} {row : List Value}
    {rows : List (List Value)} (hprepare : sqlite3_prepare_v2 db.mConnection sql = some p)
    (hrows : (p.execute db.mConnection).rows = row :: rows) :
    executeSQL sqlite3_prepare_v2 sql db = (true, ⟨(p.execute db.mConnection).after,
      some ⟨p, row, some (rows, (p.execute db.mConnection).done)⟩, true, db.mColNameTable⟩) := by
  simp [executeSQL, hprepare, Stmt.step, hrows]

/-- A loop that is at a row. -/
lemma forRows_reading {p : Prepared C} {db : SqliteDatabase C} {row : List Value} {rows : List (List Value)}
    {done : Bool} (hstmt : db.mCurrentStmt = some ⟨p, row, some (rows, done)⟩) (hmore : db.mMoreRows = true)
    (hcolumns : db.mColNameTable = p.columns) (fuel : ℕ) (b : B) :
    ∃ db', LeftBy p db' ∧ db'.mMoreRows = true ∧ db'.mConnection = db.mConnection ∧
      forRows (reading f) (rows.length + 1 + fuel) true (db, b) =
        some (db', (row :: rows).foldl (fun b row => f (column p.columns row) b) b) := by
  induction rows generalizing db row b with
  | nil =>
    refine ⟨{ db with mCurrentStmt := some ⟨p, row, none⟩ }, ⟨⟨row, rfl⟩, hcolumns⟩, hmore, rfl, ?_⟩
    rw [List.length_nil, Nat.zero_add, Nat.add_comm, forRows]
    cases done <;> simp [reading, getNextRow, hmore, hstmt, Stmt.step, forRows, read, hcolumns]
  | cons row' rows ih =>
    obtain ⟨db', hleft, hmore', hconn, hrun⟩ :=
      @ih { db with mCurrentStmt := some ⟨p, row', some (rows, done)⟩ } row' rfl hmore hcolumns
        (f (column p.columns row) b)
    refine ⟨db', hleft, hmore', hconn, ?_⟩
    have hstep : forRows (reading f) ((row' :: rows).length + 1 + fuel) true (db, b) =
        forRows (reading f) (rows.length + 1 + fuel) true
          ({ db with mCurrentStmt := some ⟨p, row', some (rows, done)⟩ }, f (column p.columns row) b) := by
      rw [List.length_cons, Nat.succ_add, Nat.succ_add, forRows]
      simp [reading, getNextRow, hmore, hstmt, Stmt.step, read, hcolumns]
    rw [hstep, hrun]
    rfl

/-- A loop with such a block, from its statement on. -/
lemma forEach_eq {p : Prepared C} {sql : Bytes} {s : Frame C B}
    (hprepare : sqlite3_prepare_v2 s.1.mConnection sql = some p) {fuel : ℕ}
    (hfuel : (p.execute s.1.mConnection).rows.length ≤ fuel) :
    ∃ db', db'.mConnection = (p.execute s.1.mConnection).after ∧
      ((p.execute s.1.mConnection).rows ≠ [] → LeftBy p db' ∧ db'.mMoreRows = true) ∧
      forEach sqlite3_prepare_v2 fuel sql (reading f) s =
        some (db', (p.execute s.1.mConnection).rows.foldl (fun b row => f (column p.columns row) b) s.2) := by
  unfold forEach
  cases hrows : (p.execute s.1.mConnection).rows with
  | nil =>
    rw [executeSQL_nil hprepare hrows]
    cases (p.execute s.1.mConnection).done <;> simp [startIterRows, forRows]
  | cons row rows =>
    rw [hrows, List.length_cons] at hfuel
    obtain ⟨more, rfl⟩ := Nat.exists_eq_add_of_le hfuel
    obtain ⟨db', hleft, hmore, hconn, hrun⟩ := @forRows_reading C B f p
      ⟨(p.execute s.1.mConnection).after, some ⟨p, row, some (rows, (p.execute s.1.mConnection).done)⟩, true,
        p.columns⟩ row rows (p.execute s.1.mConnection).done rfl rfl rfl more s.2
    refine ⟨db', hconn, fun _ => ⟨hleft, hmore⟩, ?_⟩
    rw [executeSQL_cons hprepare hrows]
    exact hrun

/-- **A block that runs no statement is run once at each row**, in the order of the rows, and the loop ends; the
statement is executed once. -/
theorem forEach_reading {p : Prepared C} {sql : Bytes} {s : Frame C B}
    (hprepare : sqlite3_prepare_v2 s.1.mConnection sql = some p) {fuel : ℕ}
    (hfuel : (p.execute s.1.mConnection).rows.length ≤ fuel) :
    ∃ db', db'.mConnection = (p.execute s.1.mConnection).after ∧
      forEach sqlite3_prepare_v2 fuel sql (reading f) s =
        some (db', (p.execute s.1.mConnection).rows.foldl (fun b row => f (column p.columns row) b) s.2) := by
  obtain ⟨db', hconn, -, hrun⟩ := forEach_eq f hprepare hfuel
  exact ⟨db', hconn, hrun⟩

/-- One query, with two rows. -/
def twoRows : Prepared Unit := ⟨[cString "Count"], fun _ => ⟨[[.integer 1], [.integer 2]], true, ()⟩⟩

/-- A connection just made. -/
def connected : SqliteDatabase Unit := ⟨(), none, false, []⟩

theorem forEach_reading_twoRows : ∃ db', db'.mConnection = () ∧
    forEach (fun _ _ => some twoRows) 2 (cString "SELECT") (reading fun row n => (row (cString "Count")).toList ++ n)
      (connected, []) = some (db', [.integer 2, .integer 1]) :=
  forEach_reading (p := twoRows) (fun row n => (row (cString "Count")).toList ++ n) rfl le_rfl

/-! ### Loops in loops -/

/-- A block that is itself a loop over a query. -/
def nested (sqlite3_prepare_v2 : C → Bytes → Option (Prepared C)) (fuel : ℕ) (sql : Bytes)
    (f : (Bytes → Option Value) → B → B) (s : Frame C B) : Frame C B :=
  (forEach sqlite3_prepare_v2 fuel sql (reading f) s).getD s

/-- A loop over such a block does not end: the query of the block starts anew at every step. -/
lemma forRows_nested {p : Prepared C} {sql : Bytes} {fuel : ℕ} (hprepare : ∀ db, sqlite3_prepare_v2 db sql = some p)
    (hrows : ∀ db, (p.execute db).rows ≠ [] ∧ (p.execute db).rows.length ≤ fuel) (runs : ℕ) (s : Frame C B) :
    forRows (nested sqlite3_prepare_v2 fuel sql f) runs true s = none := by
  induction runs generalizing s with
  | zero => rfl
  | succ runs ih =>
    obtain ⟨db', -, hleft, hrun⟩ := forEach_eq f (hprepare s.1.mConnection) (hrows _).2
    obtain ⟨⟨⟨row, hstmt⟩, -⟩, hmore⟩ := hleft (hrows _).1
    have hnext : db'.getNextRow.1 = true := by
      obtain ⟨row', rows, hcons⟩ := List.exists_cons_of_ne_nil (hrows db'.mConnection).1
      simp [getNextRow, hmore, hstmt, Stmt.step, hcons]
    rw [forRows, nested, hrun]
    dsimp only [Option.getD_some]
    rw [hnext]
    exact ih _

/-- **A loop in a loop does not end**: if the block of `SQL_FOREACH` runs a query that has rows to its end, as an
inner `SQL_FOREACH` does, the outer loop is at the rows of the inner query from then on, and goes on for ever. -/
theorem forEach_nested {p p' : Prepared C} {sql sql' : Bytes} {s : Frame C B} {fuel' : ℕ}
    (hprepare : sqlite3_prepare_v2 s.1.mConnection sql = some p) (hrow : (p.execute s.1.mConnection).rows ≠ [])
    (hprepare' : ∀ db, sqlite3_prepare_v2 db sql' = some p')
    (hrows' : ∀ db, (p'.execute db).rows ≠ [] ∧ (p'.execute db).rows.length ≤ fuel') (fuel : ℕ) :
    forEach sqlite3_prepare_v2 fuel sql (nested sqlite3_prepare_v2 fuel' sql' f) s = none := by
  obtain ⟨row, rows, hcons⟩ := List.exists_cons_of_ne_nil hrow
  rw [forEach, executeSQL_cons hprepare hcons]
  exact forRows_nested f hprepare' hrows' fuel _

theorem forEach_nested_twoRows : forEach (fun _ _ => some twoRows) 1000 (cString "SELECT")
    (nested (fun _ _ => some twoRows) 2 (cString "SELECT") fun _ (n : ℕ) => n + 1) (connected, 0) = none :=
  forEach_nested (fun _ n => n + 1) rfl (by decide) (fun _ => rfl)
    (fun _ => ⟨List.cons_ne_nil _ _, le_rfl⟩) 1000

end SqliteDatabase

end Newcoin
