import DbEngine.Sql.Database
import DbEngine.Sql.Packing
import DbEngine.Sql.RowCodec

/-!
# The relational meaning of statements

What the SQL layer is for, said without keys, encodings or access paths: a table is a
finite map from primary key to row, and every statement reads or changes the map of the
one table it names.  A statement outside these rules is rejected and changes nothing.
-/

namespace DbEngine.Sql

open Lib Function

/-- The value of a row in the first column of a given name. -/
def cell (name : String) : List ColumnDef → Row → Option Value
  | column :: columns, value :: row =>
    if column.name = name then some value else cell name columns row
  | _, _ => none

/-- A comparison of two values of one ordered type. -/
def CompareOp.test {α : Type} [LinearOrder α] (left right : α) : CompareOp → Bool
  | .eq => decide (left = right)
  | .lt => decide (left < right)
  | .le => decide (left ≤ right)
  | .gt => decide (right < left)
  | .ge => decide (right ≤ left)

/-- Integers compare with integers and texts with texts. -/
def CompareOp.relates (op : CompareOp) : Value → Value → Bool
  | .integer left, .integer right => op.test left right
  | .text left, .text right => op.test left right
  | _, _ => false

/-- A row satisfies a comparison. -/
def Comparison.holds (columns : List ColumnDef) (row : Row) (comparison : Comparison) :
    Bool :=
  match cell comparison.column columns row with
  | some value => comparison.op.relates value comparison.literal
  | none => false

/-- A row satisfies every comparison. -/
def satisfies (columns : List ColumnDef) (whereClause : Predicate) (row : Row) : Bool :=
  whereClause.all (Comparison.holds columns row)

/-- The comparison is about a column of the table, with a literal of its type. -/
def Comparison.admissible (columns : List ColumnDef) (comparison : Comparison) : Bool :=
  match columns.find? fun column => decide (column.name = comparison.column) with
  | some column => decide (column.type = comparison.literal.type)
  | none => false

/-- A table: its columns, and its rows by primary key. -/
structure Table where
  columns : List ColumnDef
  rows : SortedMap KeyType Row

abbrev Tables := String → Option Table

namespace Table

/-- The rows that satisfy a `WHERE` clause, in ascending order of their primary keys. -/
def matching (table : Table) (whereClause : Predicate) : List (KeyType × Row) :=
  table.rows.entries.filter fun entry => satisfies table.columns whereClause entry.2

/-- The table without those rows. -/
def without (table : Table) (whereClause : Predicate) : Table where
  columns := table.columns
  rows := {
    entries := table.rows.entries.filter fun entry =>
      !satisfies table.columns whereClause entry.2
    ascending := table.rows.ascending.sublist filter_sublist }

def insert (table : Table) (pk : KeyType) (row : Row) : Table :=
  { table with rows := table.rows.insert pk row }

/-- The columns a `SELECT` asks for exist. -/
def hasColumns (table : Table) (names : List String) : Bool :=
  names.all fun name => table.columns.any fun column => decide (column.name = name)

/-- What a `SELECT` shows of a row. -/
def project (table : Table) (stmt : SelectStmt) (row : Row) : Row :=
  if stmt.selectStar then row
  else stmt.columns.filterMap fun name => cell name table.columns row

end Table

/-- `CREATE TABLE` adds an empty table under a new name. -/
def Tables.create (tables : Tables) (stmt : CreateTableStmt) :
    Option (QueryResult × Tables) :=
  match tables stmt.tableName with
  | some _ => none
  | none => some ({ message := "CREATE TABLE" },
      update tables stmt.tableName (some ⟨stmt.columns, SortedMap.empty⟩))

/-- `INSERT` puts a row that fits its table under its primary key, over an older one. -/
def Tables.insert (tables : Tables) (stmt : InsertStmt) : Option (QueryResult × Tables) :=
  match tables stmt.tableName, stmt.values with
  | some table, .integer pk :: _ =>
    if InRange pk ∧ Encodable table.columns stmt.values then
      some ({ rowsAffected := 1, message := "INSERT 1" },
        update tables stmt.tableName (some (table.insert pk stmt.values)))
    else
      none
  | _, _ => none

/-- `SELECT` shows the matching rows, in ascending order of their primary keys. -/
def Tables.select (tables : Tables) (stmt : SelectStmt) : Option (QueryResult × Tables) :=
  match tables stmt.tableName with
  | some table =>
    if stmt.whereClause.all (Comparison.admissible table.columns) &&
        (stmt.selectStar || table.hasColumns stmt.columns) then
      let shown := (table.matching stmt.whereClause).map fun entry =>
        table.project stmt entry.2
      some ({
        columnNames :=
          if stmt.selectStar then table.columns.map ColumnDef.name else stmt.columns
        rows := shown
        rowsAffected := shown.length
        message := "SELECT " ++ toString shown.length }, tables)
    else
      none
  | none => none

/-- `DELETE` removes the matching rows and counts them. -/
def Tables.delete (tables : Tables) (stmt : DeleteStmt) : Option (QueryResult × Tables) :=
  match tables stmt.tableName with
  | some table =>
    if stmt.whereClause.all (Comparison.admissible table.columns) then
      let removed := (table.matching stmt.whereClause).length
      some ({ rowsAffected := removed, message := "DELETE " ++ toString removed },
        update tables stmt.tableName (some (table.without stmt.whereClause)))
    else
      none
  | none => none

/-- The meaning of a statement, `none` where it is rejected. -/
def Tables.step (tables : Tables) : Statement → Option (QueryResult × Tables)
  | .createTable stmt => tables.create stmt
  | .insert stmt => tables.insert stmt
  | .select stmt => tables.select stmt
  | .delete stmt => tables.delete stmt

/-- The tables after a statement; a rejected one leaves them alone. -/
def Tables.after (tables : Tables) (statement : Statement) : Tables :=
  match tables.step statement with
  | some (_, after) => after
  | none => tables

/-- Statements in order. -/
def Tables.run : List Statement → Tables → List (Option QueryResult) × Tables
  | [], tables => ([], tables)
  | statement :: rest, tables =>
    let (results, final) := Tables.run rest (tables.after statement)
    ((tables.step statement).map Prod.fst :: results, final)

/-! ## Predicates as the code evaluates them -/

section

variable {schema : TableSchema} {row : Row}

lemma compareOpMatches_compareSign {α : Type} [LinearOrder α] (op : CompareOp)
    (left right : α) : compareOpMatches op (compareSign left right) = op.test left right := by
  rcases lt_trichotomy left right with less | equal | greater
  · have notGreater := lt_asymm less
    cases op <;> simp [compareOpMatches, compareSign, CompareOp.test, less, ne_of_lt less,
      notGreater, le_of_lt less]
  · subst equal
    cases op <;> simp [compareOpMatches, compareSign, CompareOp.test]
  · have notLess := lt_asymm greater
    cases op <;> simp [compareOpMatches, compareSign, CompareOp.test, greater,
      (ne_of_lt greater).symm, notLess, le_of_lt greater]

/-- Looking a column up by index finds the cell, with its column. -/
lemma columnIndex_cell {columns : List ColumnDef} (typed : WellTyped columns row) (name : String) :
    (∃ index column value, columns.findIdx? (fun column => decide (column.name = name)) =
        some index ∧ columns[index]? = some column ∧ row[index]? = some value ∧
      cell name columns row = some value ∧
      columns.find? (fun column => decide (column.name = name)) = some column ∧
      value.type = column.type) ∨
    (columns.findIdx? (fun column => decide (column.name = name)) = none ∧
      cell name columns row = none ∧
      columns.find? (fun column => decide (column.name = name)) = none) := by
  induction typed with
  | nil => exact .inr ⟨rfl, rfl, rfl⟩
  | @cons column value columns row typedHead typedTail ih =>
    by_cases hit : column.name = name
    · refine Or.inl ⟨0, column, value, ?_, rfl, rfl, ?_, ?_, typedHead⟩
      · simp [List.findIdx?_cons, hit]
      · simp [cell, hit]
      · simp [hit]
    · rcases ih with ⟨index, found, foundValue, atIndex, atColumn, atRow, isCell, isFound,
        sameType⟩ | ⟨noIndex, noCell, noColumn⟩
      · refine Or.inl ⟨index + 1, found, foundValue, ?_, ?_, ?_, ?_, ?_, sameType⟩
        · simp [List.findIdx?_cons, hit, atIndex]
        · simpa using atColumn
        · simpa using atRow
        · simpa [cell, hit] using isCell
        · simpa [find?_cons, hit] using isFound
      · refine Or.inr ⟨?_, ?_, ?_⟩
        · simp [List.findIdx?_cons, hit, noIndex]
        · simpa [cell, hit] using noCell
        · simpa [find?_cons, hit] using noColumn

lemma compareValues_eq {value literal : Value} (sameType : value.type = literal.type)
    (op : CompareOp) : ∃ sign, compareValues value literal = .ok sign ∧
      compareOpMatches op sign = op.relates value literal := by
  cases value with
  | integer left =>
    cases literal with
    | integer right => exact ⟨_, rfl, compareOpMatches_compareSign op left right⟩
    | text right => cases sameType
  | text left =>
    cases literal with
    | integer right => cases sameType
    | text right => exact ⟨_, rfl, compareOpMatches_compareSign op left right⟩

/-- On a well-typed row, an admissible predicate is evaluated without failure. -/
lemma matchesPredicate_eq (typed : WellTyped schema.columns row) {predicate : Predicate}
    (admissible : predicate.all (Comparison.admissible schema.columns) = true) :
    matchesPredicate schema row predicate = .ok (satisfies schema.columns predicate row) := by
  induction predicate with
  | nil => rfl
  | cons comparison rest ih =>
    rw [all_cons, Bool.and_eq_true] at admissible
    have later := ih admissible.2
    have here := admissible.1
    rw [satisfies, all_cons]
    rcases columnIndex_cell typed comparison.column with ⟨index, column, value, atIndex,
      _, atRow, isCell, isFound, sameType⟩ | ⟨_, _, noColumn⟩
    · have literalType : value.type = comparison.literal.type := by
        simp only [Comparison.admissible, isFound, decide_eq_true_eq] at here
        exact sameType.trans here
      obtain ⟨sign, compared, agrees⟩ := compareValues_eq literalType comparison.op
      have holds : Comparison.holds schema.columns row comparison =
          comparison.op.relates value comparison.literal := by
        simp only [Comparison.holds, isCell]
      simp only [matchesPredicate, TableSchema.columnIndex, atIndex, atRow, compared, bind,
        Except.bind, agrees, holds, later]
      cases comparison.op.relates value comparison.literal <;> rfl
    · simp [Comparison.admissible, noColumn] at here

lemma columnIndex_find (columns : List ColumnDef) (name : String) :
    (∃ index column, columns.findIdx? (fun column => decide (column.name = name)) =
        some index ∧ columns[index]? = some column ∧
      columns.find? (fun column => decide (column.name = name)) = some column) ∨
    (columns.findIdx? (fun column => decide (column.name = name)) = none ∧
      columns.find? (fun column => decide (column.name = name)) = none) := by
  -- Any row of the right types will do.
  have typed : WellTyped columns (columns.map fun column =>
      if column.type = .integer then .integer 0 else .text []) := by
    induction columns with
    | nil => exact List.Forall₂.nil
    | cons column columns ih =>
      refine List.Forall₂.cons ?_ ih
      cases columnType : column.type <;> simp [Value.type, columnType]
  rcases columnIndex_cell typed name with ⟨index, column, _, atIndex, atColumn, _, _, isFound,
    _⟩ | ⟨noIndex, _, noColumn⟩
  · exact .inl ⟨index, column, atIndex, atColumn, isFound⟩
  · exact .inr ⟨noIndex, noColumn⟩

/-- Validation passes exactly the admissible predicates. -/
lemma validateComparison_eq (schema : TableSchema) (comparison : Comparison) :
    (comparison.admissible schema.columns = true ∧ validateComparison schema comparison = .ok ()) ∨
    (comparison.admissible schema.columns = false ∧
      ∃ message, validateComparison schema comparison = .error (.sqlException message)) := by
  rcases columnIndex_find schema.columns comparison.column with
    ⟨index, column, atIndex, atColumn, isFound⟩ | ⟨noIndex, noColumn⟩
  · simp only [Comparison.admissible, isFound, validateComparison, TableSchema.columnIndex,
      atIndex, atColumn]
    by_cases sameType : column.type = comparison.literal.type
    · exact .inl ⟨decide_eq_true sameType, if_neg (not_not.mpr sameType)⟩
    · exact .inr ⟨decide_eq_false sameType, _, if_pos sameType⟩
  · refine Or.inr ⟨by simp [Comparison.admissible, noColumn], ?_⟩
    simp only [validateComparison, TableSchema.columnIndex, noIndex]
    exact ⟨_, rfl⟩

lemma validateAll_eq (schema : TableSchema) (predicate : Predicate) :
    (predicate.all (Comparison.admissible schema.columns) = true ∧
      validateAll schema predicate = .ok ()) ∨
    (predicate.all (Comparison.admissible schema.columns) = false ∧
      ∃ message, validateAll schema predicate = .error (.sqlException message)) := by
  induction predicate with
  | nil => exact .inl ⟨rfl, rfl⟩
  | cons comparison rest ih =>
    rcases validateComparison_eq schema comparison with ⟨admissible, passed⟩ |
      ⟨refused, message, failed⟩
    · rcases ih with ⟨allAdmissible, allPassed⟩ | ⟨someRefused, message, failed⟩
      · refine Or.inl ⟨?_, ?_⟩
        · rw [all_cons, admissible, allAdmissible]
          rfl
        · simp only [validateAll, passed, bind, Except.bind, allPassed]
      · refine Or.inr ⟨?_, message, ?_⟩
        · rw [all_cons, someRefused, Bool.and_false]
        · simp only [validateAll, passed, bind, Except.bind, failed]
    · refine Or.inr ⟨?_, message, ?_⟩
      · rw [all_cons, refused, Bool.false_and]
      · simp only [validateAll, failed, bind, Except.bind]

end

end DbEngine.Sql
