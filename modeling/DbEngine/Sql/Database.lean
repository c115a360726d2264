import DbEngine.Sql.Planner
import DbEngine.Engine.StorageEngine

/-!
# Executing statements

`sql/executor.cpp` and `sql/database.cpp`, over any storage engine.  A statement that
throws may still have changed the engine, so every execution returns the state it leaves
next to its outcome.
-/

namespace DbEngine.Sql

open Lib

/-- `CompareOpMatches`. -/
def compareOpMatches : CompareOp → Int → Bool
  | .eq, sign => decide (sign = 0)
  | .lt, sign => decide (sign < 0)
  | .le, sign => decide (sign ≤ 0)
  | .gt, sign => decide (0 < sign)
  | .ge, sign => decide (0 ≤ sign)

/-- `Executor::MatchesPredicate`. -/
def matchesPredicate (schema : TableSchema) (row : Row) :
    Predicate → Except Failure Bool
  | [] => .ok true
  | comparison :: rest =>
    match schema.columnIndex comparison.column with
    | none => .ok false
    | some index =>
      match row[index]? with
      | none => .error .outOfBounds
      | some value => do
        let sign ← compareValues value comparison.literal
        if compareOpMatches comparison.op sign then matchesPredicate schema row rest
        else return false

/-- The scan loop of `ExecuteFetch` and `ExecuteDelete`: the matching rows with their
engine keys, up to the end of the table or the upper bound. -/
def scanRows (schema : TableSchema) (hi : Int64) (residual : Predicate) :
    List (KeyType × Bytes) → Except Failure (List (KeyType × Row))
  | [] => .ok []
  | (key, payload) :: rest =>
    if decodeTableId key ≠ schema.tableId then .ok []
    else if hi < decodeRowKey key then .ok []
    else do
      let row ← decodeRow schema (decodeRowKey key) payload
      let isMatch ← matchesPredicate schema row residual
      let found ← scanRows schema hi residual rest
      return if isMatch then (key, row) :: found else found

/-- Where a scan starts, and its upper bound. -/
def Plan.scanRange (plan : Plan) : Int64 × Int64 :=
  if plan.accessPath = .rangeScan then (plan.rangeLo, plan.rangeHi)
  else (0, Int64.maxValue)

section

variable {State : Type} (engine : StorageEngine State)

/-- The rows a plan selects, with their engine keys: the point lookup or the scan that
`ExecuteFetch` and `ExecuteDelete` begin with. -/
def fetchEntries (schema : TableSchema) (plan : Plan) (state : State) :
    Except Failure (List (KeyType × Row)) × State :=
  if plan.accessPath = .pointLookup then
    let key := encodeKey schema.tableId plan.pointKey
    let (found, state) := engine.get key state
    match found with
    | none => (.ok [], state)
    | some payload => (do
        let row ← decodeRow schema plan.pointKey payload
        let isMatch ← matchesPredicate schema row plan.residual
        return if isMatch then [(key, row)] else [], state)
  else
    let (entries, state) := engine.scan (encodeKey schema.tableId plan.scanRange.1) state
    (scanRows schema plan.scanRange.2 plan.residual entries, state)

/-- `Executor::ExecuteFetch`. -/
def executeFetch (schema : TableSchema) (plan : Plan) (state : State) :
    Except Failure (List Row) × State :=
  let (fetched, state) := fetchEntries engine schema plan state
  (fetched.map fun entries => entries.map Prod.snd, state)

/-- The deletion loop at the end of `ExecuteDelete`. -/
def deleteKeys : List KeyType → State → Nat × State
  | [], state => (0, state)
  | key :: rest, state =>
    let (existed, state) := engine.delete key state
    let (deleted, state) := deleteKeys rest state
    ((if existed then 1 else 0) + deleted, state)

/-- `Executor::ExecuteDelete`. -/
def executeDelete (schema : TableSchema) (plan : Plan) (state : State) :
    Except Failure Nat × State :=
  match fetchEntries engine schema plan state with
  | (.error failure, state) => (.error failure, state)
  | (.ok entries, state) =>
    let (deleted, state) := deleteKeys engine (entries.map Prod.fst) state
    (.ok deleted, state)

structure QueryResult where
  columnNames : List String := []
  rows : List Row := []
  rowsAffected : Nat := 0
  message : String := ""
  deriving Repr, DecidableEq

/-- `Database`. -/
structure Database (State : Type) where
  catalog : Catalog := {}
  engine : State

/-- `Database::ExecuteCreateTable`. -/
def executeCreateTable (stmt : CreateTableStmt) (db : Database State) :
    Except Failure QueryResult × Database State :=
  match db.catalog.createTable stmt.tableName stmt.columns with
  | .error failure => (.error failure, db)
  | .ok catalog => (.ok { message := "CREATE TABLE" }, { db with catalog })

/-- The checks of `Database::ExecuteInsert`: the key and the payload to put. -/
def prepareInsert (catalog : Catalog) (stmt : InsertStmt) :
    Except Failure (KeyType × Bytes) := do
  let schema ← catalog.getTable stmt.tableName
  match stmt.values with
  | .integer pk :: _ =>
    if pk < 0 ∨ kMaxRowKey < pk then
      .error (.sqlException ("primary key " ++ toString pk ++ " is out of range [0, " ++
        toString kMaxRowKey ++ "]"))
    else do
      let payload ← encodeRow schema stmt.values
      return (encodeKey schema.tableId pk, payload)
  | _ => .error (.sqlException "the primary key value must be an INTEGER")

/-- `Database::ExecuteInsert`. -/
def executeInsert (stmt : InsertStmt) (db : Database State) :
    Except Failure QueryResult × Database State :=
  match prepareInsert db.catalog stmt with
  | .error failure => (.error failure, db)
  | .ok (key, payload) =>
    match engine.put key payload db.engine with
    | (.error message, state) =>
      (.error (.invalidArgument message), { db with engine := state })
    | (.ok (), state) =>
      (.ok { rowsAffected := 1, message := "INSERT 1" }, { db with engine := state })

/-- The column names and indices a `SELECT` projects to. -/
def projection (schema : TableSchema) : List String → Except Failure (List Nat)
  | [] => .ok []
  | name :: rest =>
    match schema.columnIndex name with
    | none => .error (.sqlException ("no such column: '" ++ name ++ "' on table '" ++
        schema.name ++ "'"))
    | some index => do
      let indices ← projection schema rest
      return index :: indices

/-- `row[idx]` for every index. -/
def projectRow (row : Row) : List Nat → Except Failure Row
  | [] => .ok []
  | index :: rest =>
    match row[index]? with
    | none => .error .outOfBounds
    | some value => do
      let values ← projectRow row rest
      return value :: values

def projectRows (indices : List Nat) : List Row → Except Failure (List Row)
  | [] => .ok []
  | row :: rest => do
    let projected ← projectRow row indices
    let others ← projectRows indices rest
    return projected :: others

/-- `Database::ExecuteSelect`, once the rows are fetched. -/
def presentRows (schema : TableSchema) (stmt : SelectStmt) (rows : List Row) :
    Except Failure QueryResult := do
  let names := if stmt.selectStar then schema.columns.map ColumnDef.name else stmt.columns
  let indices ←
    if stmt.selectStar then .ok (range schema.columns.length)
    else projection schema stmt.columns
  let projected ← projectRows indices rows
  return {
    columnNames := names
    rows := projected
    rowsAffected := projected.length
    message := "SELECT " ++ toString projected.length }

/-- The schema and the plan of a statement with a `WHERE` clause. -/
def planStatement (catalog : Catalog) (tableName : String) (whereClause : Predicate) :
    Except Failure (TableSchema × Plan) := do
  let schema ← catalog.getTable tableName
  let plan ← planQuery schema whereClause
  return (schema, plan)

/-- `Database::ExecuteSelect`. -/
def executeSelect (stmt : SelectStmt) (db : Database State) :
    Except Failure QueryResult × Database State :=
  match planStatement db.catalog stmt.tableName stmt.whereClause with
  | .error failure => (.error failure, db)
  | .ok (schema, plan) =>
    let (fetched, state) := executeFetch engine schema plan db.engine
    (fetched.bind (presentRows schema stmt), { db with engine := state })

/-- `Database::ExecuteDeleteStmt`. -/
def executeDeleteStmt (stmt : DeleteStmt) (db : Database State) :
    Except Failure QueryResult × Database State :=
  match planStatement db.catalog stmt.tableName stmt.whereClause with
  | .error failure => (.error failure, db)
  | .ok (schema, plan) =>
    let (outcome, state) := executeDelete engine schema plan db.engine
    (outcome.map fun deleted =>
      { rowsAffected := deleted, message := "DELETE " ++ toString deleted },
      { db with engine := state })

/-- `Database::Execute`, once the statement is parsed. -/
def execute : Statement → Database State → Except Failure QueryResult × Database State
  | .createTable stmt, db => executeCreateTable stmt db
  | .insert stmt, db => executeInsert engine stmt db
  | .select stmt, db => executeSelect engine stmt db
  | .delete stmt, db => executeDeleteStmt engine stmt db

/-- Statements executed in order, with their outcomes. -/
def executeAll : List Statement → Database State →
    List (Except Failure QueryResult) × Database State
  | [], db => ([], db)
  | statement :: rest, db =>
    let (outcome, db) := execute engine statement db
    let (outcomes, db) := executeAll rest db
    (outcome :: outcomes, db)

end

end DbEngine.Sql
