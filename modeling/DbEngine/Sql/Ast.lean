import DbEngine.Common.Config

/-!
# Statements and values

`sql/value.h` and `sql/ast.h`, and the ways a statement can fail.
-/

namespace DbEngine.Sql

/-- `Value`, a `std::variant<int64_t, std::string>`. -/
inductive Value where
  | integer (value : Int64)
  | text (value : Bytes)
  deriving Repr, DecidableEq

inductive ColumnType where
  | integer
  | text
  deriving Repr, DecidableEq

/-- The type of the alternative a value holds. -/
def Value.type : Value → ColumnType
  | .integer _ => .integer
  | .text _ => .text

abbrev Row := List Value

/-- What an execution can throw or run into. -/
inductive Failure where
  | sqlException (message : String)
  /-- `std::invalid_argument`, from the storage engine. -/
  | invalidArgument (message : String)
  /-- `std::bad_variant_access`, from `std::get` on the other alternative. -/
  | badVariantAccess
  /-- An index past the end of a vector. -/
  | outOfBounds
  deriving Repr, DecidableEq

/-- `std::get<int64_t>`. -/
def Value.getInteger : Value → Except Failure Int64
  | .integer value => .ok value
  | .text _ => .error .badVariantAccess

/-- `std::get<std::string>`. -/
def Value.getText : Value → Except Failure Bytes
  | .integer _ => .error .badVariantAccess
  | .text value => .ok value

/-- The sign of a comparison of two values of one ordered type. -/
def compareSign {α : Type} [LinearOrder α] (left right : α) : Int :=
  if left < right then -1 else if right < left then 1 else 0

/-- `CompareValues`. -/
def compareValues : Value → Value → Except Failure Int
  | .integer left, right => do
    let right ← right.getInteger
    return compareSign left right
  | .text left, right => do
    let right ← right.getText
    return compareSign left right

structure ColumnDef where
  name : String
  type : ColumnType
  deriving Repr, DecidableEq

/-- The first column is the `INTEGER` primary key. -/
def Keyed (columns : List ColumnDef) : Prop :=
  columns.head?.map ColumnDef.type = some .integer

instance (columns : List ColumnDef) : Decidable (Keyed columns) :=
  inferInstanceAs (Decidable (_ = _))

/-- `CreateTableStmt`; `ParseCreateTable` rejects a first column of another type. -/
structure CreateTableStmt where
  tableName : String
  columns : List ColumnDef
  keyed : Keyed columns

structure InsertStmt where
  tableName : String
  values : List Value

inductive CompareOp where
  | eq
  | lt
  | le
  | gt
  | ge
  deriving Repr, DecidableEq

structure Comparison where
  column : String
  op : CompareOp
  literal : Value
  deriving Repr, DecidableEq

/-- A conjunction of comparisons. -/
abbrev Predicate := List Comparison

structure SelectStmt where
  tableName : String
  selectStar : Bool
  columns : List String
  whereClause : Predicate

structure DeleteStmt where
  tableName : String
  whereClause : Predicate

inductive Statement where
  | createTable (stmt : CreateTableStmt)
  | insert (stmt : InsertStmt)
  | select (stmt : SelectStmt)
  | delete (stmt : DeleteStmt)

/-- The table a statement names. -/
def Statement.tableName : Statement → String
  | .createTable stmt => stmt.tableName
  | .insert stmt => stmt.tableName
  | .select stmt => stmt.tableName
  | .delete stmt => stmt.tableName

end DbEngine.Sql
