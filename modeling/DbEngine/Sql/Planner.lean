import DbEngine.Sql.Catalog

/-!
# The planner

`sql/planner.h` and `sql/planner.cpp`: type checking of a `WHERE` clause and the choice
of an access path.
-/

namespace DbEngine.Sql

inductive AccessPathType where
  | pointLookup
  | rangeScan
  | fullScan
  deriving Repr, DecidableEq

structure Plan where
  accessPath : AccessPathType := .fullScan
  pointKey : Int64 := 0
  rangeLo : Int64 := 0
  rangeHi : Int64 := Int64.maxValue
  residual : Predicate := []

/-- `ValidateComparison`. -/
def validateComparison (schema : TableSchema) (comparison : Comparison) :
    Except Failure Unit :=
  match schema.columnIndex comparison.column with
  | none => .error (.sqlException ("no such column: '" ++ comparison.column ++
      "' on table '" ++ schema.name ++ "'"))
  | some index =>
    match schema.columns[index]? with
    | none => .error .outOfBounds
    | some column =>
      if column.type ≠ comparison.literal.type then
        .error (.sqlException
          ("type mismatch comparing column '" ++ comparison.column ++ "'"))
      else
        .ok ()

/-- The validation loop at the head of `PlanQuery`. -/
def validateAll (schema : TableSchema) : Predicate → Except Failure Unit
  | [] => .ok ()
  | comparison :: rest => do
    validateComparison schema comparison
    validateAll schema rest

/-- Whether pass 1 stops at a comparison. -/
def isPointLookup (pkName : String) (comparison : Comparison) : Bool :=
  decide (comparison.column = pkName) && decide (comparison.op = .eq)

/-- The bounds pass 2 accumulates. -/
structure Bounds where
  lo : Int64 := 0
  hi : Int64 := Int64.maxValue
  foundBound : Bool := false

/-- One iteration of pass 2. -/
def Bounds.add (bounds : Bounds) (pkName : String) (comparison : Comparison) :
    Except Failure Bounds :=
  if comparison.column ≠ pkName then
    .ok bounds
  else do
    let value ← comparison.literal.getInteger
    match comparison.op with
    | .lt => return { bounds with
        hi := min bounds.hi (if value = Int64.minValue then value else value - 1)
        foundBound := true }
    | .le => return { bounds with hi := min bounds.hi value, foundBound := true }
    | .gt => return { bounds with
        lo := max bounds.lo (if value = Int64.maxValue then value else value + 1)
        foundBound := true }
    | .ge => return { bounds with lo := max bounds.lo value, foundBound := true }
    | .eq => return bounds

/-- Pass 2 of `PlanQuery`. -/
def Bounds.addAll (pkName : String) : Predicate → Bounds → Except Failure Bounds
  | [], bounds => .ok bounds
  | comparison :: rest, bounds => do
    let bounds ← bounds.add pkName comparison
    Bounds.addAll pkName rest bounds

/-- `PlanQuery`. -/
def planQuery (schema : TableSchema) (whereClause : Predicate) : Except Failure Plan := do
  validateAll schema whereClause
  match schema.columns with
  | [] => throw .outOfBounds
  | primaryKey :: _ =>
    match whereClause.findIdx? (isPointLookup primaryKey.name) with
    | some index =>
      match whereClause[index]? with
      | none => throw .outOfBounds
      | some comparison =>
        let pointKey ← comparison.literal.getInteger
        return {
          accessPath := .pointLookup
          pointKey
          residual := whereClause.eraseIdx index }
    | none =>
      let bounds ← Bounds.addAll primaryKey.name whereClause {}
      if bounds.foundBound then
        return {
          accessPath := .rangeScan
          rangeLo := max bounds.lo 0
          rangeHi := bounds.hi
          residual := whereClause }
      else
        return { accessPath := .fullScan, residual := whereClause }

end DbEngine.Sql
