import DbEngine.Sql.Ast
import DbEngine.Lib.LittleEndian

/-!
# The catalog

`sql/catalog.h` and `sql/catalog.cpp`: table schemas, the packing of table id and primary
key into one engine key, and the encoding of a row's other columns into a value.
-/

namespace DbEngine.Sql

open Lib

structure TableSchema where
  name : String
  tableId : UInt16
  columns : List ColumnDef

/-- `TableSchema::ColumnIndex`, with `none` for -1. -/
def TableSchema.columnIndex (schema : TableSchema) (columnName : String) : Option Nat :=
  schema.columns.findIdx? fun column => decide (column.name = columnName)

/-! ## Keys -/

def kTableIdBits : Nat := 16

def kRowKeyBits : Nat := 64 - kTableIdBits

/-- `(int64_t(1) << kRowKeyBits) - 1`. -/
def kMaxRowKey : Int64 := ((1 : Int64) <<< .ofNat kRowKeyBits) - 1

/-- `1 << kTableIdBits`. -/
def kMaxTables : Nat := 2 ^ kTableIdBits

/-- `EncodeKey`. -/
def encodeKey (tableId : UInt16) (pk : Int64) : KeyType :=
  (tableId.toUInt64.toInt64 <<< .ofNat kRowKeyBits) ||| (pk &&& kMaxRowKey)

/-- `DecodeRowKey`. -/
def decodeRowKey (key : KeyType) : Int64 :=
  key &&& kMaxRowKey

/-- `DecodeTableId`. -/
def decodeTableId (key : KeyType) : UInt16 :=
  ((key.toUInt64 >>> .ofNat kRowKeyBits) &&& .ofNat (kMaxTables - 1)).toUInt16

/-! ## Rows -/

/-- `AppendInteger`: the eight bytes of the number in memory. -/
def appendInteger (out : Bytes) (value : Int64) : Bytes :=
  out ++ toLittleEndian 8 value.toUInt64.toNat

/-- `AppendText`: a two-byte length, then the bytes. -/
def appendText (out text : Bytes) : Except Failure Bytes :=
  if 0xFFFF < text.length then
    .error (.sqlException "TEXT value too long (max 65535 bytes)")
  else
    .ok (out ++ toLittleEndian 2 text.length ++ text)

/-- `ReadInteger`. -/
def readInteger (payload : Bytes) (offset : Nat) : Except Failure (Int64 × Nat) :=
  if payload.length < offset + 8 then
    .error (.sqlException "corrupt row: truncated INTEGER field")
  else
    .ok ((UInt64.ofNat (ofLittleEndian ((payload.drop offset).take 8))).toInt64, offset + 8)

/-- `ReadText`. -/
def readText (payload : Bytes) (offset : Nat) : Except Failure (Bytes × Nat) :=
  if payload.length < offset + 2 then
    .error (.sqlException "corrupt row: truncated TEXT length prefix")
  else
    let length := ofLittleEndian ((payload.drop offset).take 2)
    let offset := offset + 2
    if payload.length < offset + length then
      .error (.sqlException "corrupt row: truncated TEXT payload")
    else
      .ok ((payload.drop offset).take length, offset + length)

/-- One column of the loop in `EncodeRow`. -/
def encodeColumn (column : ColumnDef) (value : Value) (payload : Bytes) :
    Except Failure Bytes :=
  match column.type, value with
  | .integer, .integer number => .ok (appendInteger payload number)
  | .integer, .text _ =>
    .error (.sqlException ("column '" ++ column.name ++ "' expects an INTEGER value"))
  | .text, .text text => appendText payload text
  | .text, .integer _ =>
    .error (.sqlException ("column '" ++ column.name ++ "' expects a TEXT value"))

/-- The loop in `EncodeRow`. -/
def encodeColumns : List ColumnDef → List Value → Bytes → Except Failure Bytes
  | column :: columns, value :: values, payload => do
    let payload ← encodeColumn column value payload
    encodeColumns columns values payload
  | _ :: _, [], _ => .error .outOfBounds
  | [], _, payload => .ok payload

/-- `EncodeRow`. -/
def encodeRow (schema : TableSchema) (values : List Value) : Except Failure Bytes :=
  if values.length ≠ schema.columns.length then
    .error (.sqlException ("expected " ++ toString schema.columns.length ++
      " values for table '" ++ schema.name ++ "', got " ++ toString values.length))
  else
    match encodeColumns schema.columns.tail values.tail [] with
    | .error failure => .error failure
    | .ok payload =>
      if MAX_VALUE_SIZE < payload.length then
        .error (.sqlException ("row for table '" ++ schema.name ++ "' is " ++
          toString payload.length ++ " bytes, exceeding the " ++
          toString MAX_VALUE_SIZE ++ "-byte row cap (see DESIGN.md — MAX_VALUE_SIZE " ++
          "is shared with the storage engines)"))
      else
        .ok payload

/-- The loop in `DecodeRow`. -/
def decodeColumns : List ColumnDef → Bytes → Nat → Except Failure (List Value)
  | [], _, _ => .ok []
  | column :: columns, payload, offset =>
    match column.type with
    | .integer => do
      let (number, offset) ← readInteger payload offset
      let values ← decodeColumns columns payload offset
      return .integer number :: values
    | .text => do
      let (text, offset) ← readText payload offset
      let values ← decodeColumns columns payload offset
      return .text text :: values

/-- `DecodeRow`. -/
def decodeRow (schema : TableSchema) (primaryKey : Int64) (payload : Bytes) :
    Except Failure Row := do
  let values ← decodeColumns schema.columns.tail payload 0
  return .integer primaryKey :: values

/-! ## Tables -/

/-- `Catalog`; the tables are listed in the order of their creation. -/
structure Catalog where
  tables : List TableSchema := []
  nextTableId : UInt16 := 0

/-- `tables_.find(name)`. -/
def Catalog.find (catalog : Catalog) (name : String) : Option TableSchema :=
  catalog.tables.find? fun schema => decide (schema.name = name)

/-- `Catalog::CreateTable`.  The 16-bit counter never reaches `kMaxTables`, so the
second check never fires; the increment wraps. -/
def Catalog.createTable (catalog : Catalog) (name : String) (columns : List ColumnDef) :
    Except Failure Catalog :=
  if (catalog.find name).isSome then
    .error (.sqlException ("table '" ++ name ++ "' already exists"))
  else if kMaxTables ≤ catalog.nextTableId.toNat then
    .error (.sqlException "table id space exhausted")
  else
    .ok { tables := catalog.tables ++ [⟨name, catalog.nextTableId, columns⟩]
          nextTableId := catalog.nextTableId + 1 }

/-- `Catalog::GetTable`. -/
def Catalog.getTable (catalog : Catalog) (name : String) : Except Failure TableSchema :=
  match catalog.find name with
  | some schema => .ok schema
  | none => .error (.sqlException ("no such table: '" ++ name ++ "'"))

end DbEngine.Sql
