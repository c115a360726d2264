import DbEngine.Sql.Access

/-!
# Statements against their meaning

Over an engine that behaves as an ordered map, every statement does what its relational
meaning says: the same result, or a `SqlException` where the meaning rejects it, and the
engine's contents go on representing the tables.
-/

namespace DbEngine.Sql

open Comparison (admissible)
open Lib Function SortedMap Catalog

/-- The catalog and the engine's contents represent the tables. -/
structure DbInv (contents : SortedMap KeyType Bytes) (catalog : Catalog)
    (tables : Tables) : Prop where
  namesNodup : (catalog.tables.map TableSchema.name).Nodup
  ids : (catalog.tables.map fun schema => schema.tableId.toNat) =
    range catalog.tables.length
  next : catalog.nextTableId.toNat = catalog.tables.length % kMaxTables
  owned : ∀ entry ∈ contents.entries, ∃ schema ∈ catalog.tables,
    schema.tableId = decodeTableId entry.1
  represents : ∀ schema ∈ catalog.tables, ∃ table, tables schema.name = some table ∧
    Represents contents schema table
  known : ∀ name table, tables name = some table →
    ∃ schema ∈ catalog.tables, schema.name = name

section

variable {contents : SortedMap KeyType Bytes} {catalog : Catalog} {tables : Tables}

lemma dbInv_init : DbInv SortedMap.empty {} (fun _ => none) where
  namesNodup := nodup_nil
  ids := rfl
  next := rfl
  owned := by simp [SortedMap.empty]
  represents := by simp
  known := by simp

section

variable (inv : DbInv contents catalog tables)
include inv

/-- A table of the catalog has a meaning, and the other way round. -/
lemma DbInv.find_eq (name : String) :
    (∃ schema table, catalog.find name = some schema ∧ tables name = some table ∧
      schema ∈ catalog.tables ∧ schema.name = name ∧ Represents contents schema table) ∨
    (catalog.find name = none ∧ tables name = none ∧
      name ∉ catalog.tables.map TableSchema.name) := by
  cases found : catalog.find name with
  | some schema =>
    have mem := mem_of_find?_eq_some found
    have named : schema.name = name := by
      simpa using find?_some found
    obtain ⟨table, meaning, rep⟩ := inv.represents schema mem
    rw [named] at meaning
    exact .inl ⟨schema, table, rfl, meaning, mem, named, rep⟩
  | none =>
    have absent : ∀ schema ∈ catalog.tables, schema.name ≠ name := by
      intro schema mem named
      have missed := find?_eq_none.mp found schema mem
      simp [named] at missed
    refine Or.inr ⟨rfl, ?_, ?_⟩
    · cases meaning : tables name with
      | none => rfl
      | some table =>
        obtain ⟨schema, mem, named⟩ := inv.known name table meaning
        exact absurd named (absent schema mem)
    · intro mem
      obtain ⟨schema, schemaMem, named⟩ := mem_map.mp mem
      exact absent schema schemaMem named

/-- Table ids tell tables apart. -/
lemma DbInv.eq_of_tableId_eq (leftMem : left ∈ catalog.tables)
    (rightMem : right ∈ catalog.tables) (same : left.tableId = right.tableId) : left = right := by
  have nodup : (catalog.tables.map fun schema => schema.tableId.toNat).Nodup := by
    rw [inv.ids]
    exact List.nodup_range
  exact inj_on_of_nodup_map nodup leftMem rightMem (congrArg UInt16.toNat same)

lemma DbInv.tableId_lt (mem : schema ∈ catalog.tables) :
    schema.tableId.toNat < catalog.tables.length := by
  have listed : schema.tableId.toNat ∈
      catalog.tables.map fun schema => schema.tableId.toNat := mem_map_of_mem mem
  rw [inv.ids] at listed
  exact mem_range.mp listed

/-- The contents may change under one table, together with its meaning. -/
lemma DbInv.of_update (mem : schema ∈ catalog.tables)
    (foreign : ∀ key, decodeTableId key ≠ schema.tableId → contents'.lookup key = contents.lookup
      key) (rep : Represents contents' schema table) :
    DbInv contents' catalog (update tables schema.name (some table)) where
  namesNodup := inv.namesNodup
  ids := inv.ids
  next := inv.next
  owned entry entryMem := by
    by_cases mine : decodeTableId entry.1 = schema.tableId
    · exact ⟨schema, mem, mine.symm⟩
    · have kept := foreign entry.1 mine
      rw [lookup_eq_some.mpr entryMem] at kept
      exact inv.owned (entry.1, entry.2) (lookup_eq_some.mp kept.symm)
  represents other otherMem := by
    by_cases same : other.name = schema.name
    · have equal : other = schema := inj_on_of_nodup_map inv.namesNodup otherMem mem same
      subst equal
      exact ⟨table, by simp, rep⟩
    · obtain ⟨found, meaning, old⟩ := inv.represents other otherMem
      refine ⟨found, by simp [same, meaning], { old with stored := ?_ }⟩
      intro pk inRange
      rw [foreign, old.stored pk inRange]
      rw [decodeTableId_encodeKey]
      intro sameId
      exact same (congrArg TableSchema.name (inv.eq_of_tableId_eq otherMem mem sameId))
  known name found meaning := by
    by_cases same : name = schema.name
    · exact ⟨schema, mem, same.symm⟩
    · simp only [update_of_ne same] at meaning
      exact inv.known name found meaning

end

end

/-! ## One statement -/

section

variable {State : Type} {engine : StorageEngine State}

/-- A statement did what it means: its result and the tables it leads to, or a
`SqlException` that changes nothing. -/
inductive Refines (map : engine.OrderedMap) (db : Database State) :
    Except Failure QueryResult × Database State → Option (QueryResult × Tables) → Prop where
  | accepted (inv : DbInv (map.contents db'.engine) db'.catalog after) :
      Refines map db (.ok result, db') (some (result, after))
  | rejected (sameCatalog : db'.catalog = db.catalog)
      (sameContents : map.contents db'.engine = map.contents db.engine) :
      Refines map db (.error (.sqlException message), db') none

variable {map : engine.OrderedMap} {db : Database State} {tables : Tables}

/-! ### CREATE TABLE -/

lemma dbInv_create (inv : DbInv (map.contents db.engine) db.catalog tables)
    {stmt : CreateTableStmt}
    (fresh : stmt.tableName ∉ db.catalog.tables.map TableSchema.name)
    (nextId : db.catalog.nextTableId.toNat = db.catalog.tables.length) :
    DbInv (map.contents db.engine)
      { tables := db.catalog.tables ++
          [⟨stmt.tableName, db.catalog.nextTableId, stmt.columns⟩]
        nextTableId := db.catalog.nextTableId + 1 }
      (update tables stmt.tableName (some ⟨stmt.columns, SortedMap.empty⟩)) where
  namesNodup := by
    rw [map_append, map_cons, map_nil, ← concat_eq_append]
    exact List.Nodup.concat fresh inv.namesNodup
  ids := by
    simp only [map_append, map_cons, map_nil, length_append,
      length_cons, length_nil, inv.ids, nextId]
    exact range_succ.symm
  next := by
    have plusOne : (db.catalog.nextTableId + 1).toNat =
        (db.catalog.nextTableId.toNat + 1) % kMaxTables := UInt16.toNat_add _ _
    rw [plusOne, nextId, length_append]
    rfl
  owned entry mem := by
    obtain ⟨schema, schemaMem, same⟩ := inv.owned entry mem
    exact ⟨schema, mem_append_left _ schemaMem, same⟩
  represents schema mem := by
    rcases mem_append.mp mem with old | new
    · obtain ⟨table, meaning, rep⟩ := inv.represents schema old
      have ne : schema.name ≠ stmt.tableName := by
        intro same
        apply fresh
        rw [← same]
        exact mem_map_of_mem old
      exact ⟨table, by simp [ne, meaning], rep⟩
    · rw [mem_singleton.mp new]
      refine ⟨_, update_self _ _ _, rfl, stmt.keyed, by simp [SortedMap.empty], ?_⟩
      -- No key of the new id is in use: the id of every owner is smaller.
      intro pk _
      cases stored : (map.contents db.engine).lookup
          (encodeKey db.catalog.nextTableId pk) with
      | none => rfl
      | some payload =>
        obtain ⟨schema, schemaMem, same⟩ := inv.owned _ (lookup_eq_some.mp stored)
        have smaller := inv.tableId_lt schemaMem
        rw [same, decodeTableId_encodeKey, nextId] at smaller
        exact absurd smaller (lt_irrefl _)
  known name table meaning := by
    by_cases same : name = stmt.tableName
    · exact ⟨_, mem_append_right _ (mem_singleton_self _), same.symm⟩
    · simp only [update_of_ne same] at meaning
      obtain ⟨schema, schemaMem, named⟩ := inv.known name table meaning
      exact ⟨schema, mem_append_left _ schemaMem, named⟩

lemma refines_create (inv : DbInv (map.contents db.engine) db.catalog tables)
    (stmt : CreateTableStmt) (room : stmt.tableName ∉ db.catalog.tables.map TableSchema.name →
      db.catalog.tables.length < kMaxTables) :
    Refines map db (executeCreateTable stmt db) (tables.create stmt) := by
  rcases inv.find_eq stmt.tableName with ⟨schema, table, found, meaning, _⟩ |
    ⟨missing, noMeaning, fresh⟩
  · simp only [executeCreateTable, createTable, found, Option.isSome_some, if_true,
      Tables.create, meaning]
    exact .rejected rfl rfl
  · have nextId : db.catalog.nextTableId.toNat = db.catalog.tables.length := by
      rw [inv.next]
      exact Nat.mod_eq_of_lt (room fresh)
    have notExhausted : ¬ kMaxTables ≤ db.catalog.nextTableId.toNat := by
      rw [nextId]
      exact not_le.mpr (room fresh)
    simp only [executeCreateTable, createTable, missing, Option.isSome_none,
      Bool.false_eq_true, if_false, notExhausted, Tables.create, noMeaning]
    exact .accepted (dbInv_create inv fresh nextId)

/-! ### INSERT -/

variable {contents : SortedMap KeyType Bytes} {schema : TableSchema} {table : Table}
  {catalog : Catalog} {rows : List Row} {whereClause : Predicate} {state : State}

lemma Represents.insert (rep : Represents contents schema table) (ok : RowOk table.columns pk row) :
    Represents (contents.insert (encodeKey schema.tableId pk) (payloadOf row)) schema
      (table.insert pk row) where
  columns := rep.columns
  keyed := rep.keyed
  rows entry mem := by
    rcases mem_insertEntry mem with rfl | old
    · exact ok
    · exact rep.rows entry old
  stored query inRange := by
    by_cases same : query = pk
    · subst same
      rw [lookup_insert_self, Table.insert, lookup_insert_self]
      rfl
    · have ne : encodeKey schema.tableId query ≠ encodeKey schema.tableId pk :=
        fun equal => same (encodeKey_inj _ inRange ok.inRange equal)
      rw [lookup_insert_of_ne ne, Table.insert, lookup_insert_of_ne same]
      exact rep.stored query inRange

/-- The checks of an `INSERT` into a table pass exactly the rows that fit it. -/
lemma prepareInsert_eq (looked : catalog.getTable stmt.tableName = .ok schema) :
    (∃ pk rest, stmt.values = .integer pk :: rest ∧ InRange pk ∧
      Encodable schema.columns stmt.values ∧ prepareInsert catalog stmt =
        .ok (encodeKey schema.tableId pk, payloadOf stmt.values)) ∨
    ((∀ pk rest, stmt.values = .integer pk :: rest →
        ¬ (InRange pk ∧ Encodable schema.columns stmt.values)) ∧
      ∃ message, prepareInsert catalog stmt = .error (.sqlException message)) := by
  simp only [prepareInsert, looked, bind, Except.bind]
  cases values : stmt.values with
  | nil => exact .inr ⟨by simp, _, rfl⟩
  | cons head rest =>
    cases head with
    | text text => exact .inr ⟨by simp, _, rfl⟩
    | integer pk =>
      by_cases outside : pk < 0 ∨ kMaxRowKey < pk
      · refine Or.inr ⟨?_, _, if_pos outside⟩
        rintro _ _ equal ⟨inRange, _⟩
        cases equal
        rcases outside with negative | large
        · exact absurd inRange.1 (not_le.mpr negative)
        · exact absurd inRange.2 (not_le.mpr large)
      · obtain ⟨notNegative, notLarge⟩ := not_or.mp outside
        have inRange : InRange pk := ⟨not_lt.mp notNegative, not_lt.mp notLarge⟩
        simp only [if_neg outside]
        by_cases encodable : Encodable schema.columns (.integer pk :: rest)
        · refine Or.inl ⟨pk, rest, rfl, inRange, encodable, ?_⟩
          rw [encodeRow_eq_ok encodable]
          rfl
        · obtain ⟨message, failed⟩ := encodeRow_error encodable
          refine Or.inr ⟨?_, message, by rw [failed]⟩
          rintro _ _ equal ⟨_, accepted⟩
          exact encodable accepted

lemma refines_insert (inv : DbInv (map.contents db.engine) db.catalog tables)
    (stmt : InsertStmt) : Refines map db (executeInsert engine stmt db) (tables.insert stmt) := by
  rcases inv.find_eq stmt.tableName with ⟨schema, table, found, meaning, mem, named, rep⟩ |
    ⟨missing, noMeaning, _⟩
  · have looked : db.catalog.getTable stmt.tableName = .ok schema := by
      simp only [getTable, found]
    rcases prepareInsert_eq looked with ⟨pk, rest, values, inRange, encodable, prepared⟩ |
      ⟨refused, message, failed⟩
    · rw [rep.columns] at encodable
      have ok : RowOk table.columns pk stmt.values := ⟨inRange, encodable, by rw [values]; rfl⟩
      have small : (payloadOf stmt.values).length ≤ MAX_VALUE_SIZE := by
        rw [length_payloadOf]
        exact encodable.2.2
      have put := map.put_eq (encodeKey schema.tableId pk) _ db.engine small
      have contents := map.put_contents (encodeKey schema.tableId pk) _ db.engine small
      have meant : tables.insert stmt = some ({ rowsAffected := 1, message := "INSERT 1" },
          update tables schema.name (some (table.insert pk stmt.values))) := by
        rw [values] at encodable
        simp [Tables.insert, meaning, values, inRange, encodable, named]
      rw [meant]
      cases executed : engine.put (encodeKey schema.tableId pk) (payloadOf stmt.values)
          db.engine with
      | mk outcome state =>
        rw [executed] at put contents
        simp only at put contents
        simp only [executeInsert, prepared, executed, put]
        refine .accepted ?_
        simp only [contents]
        refine inv.of_update mem ?_ (rep.insert ok)
        intro key foreign
        apply lookup_insert_of_ne
        rintro rfl
        exact foreign (decodeTableId_encodeKey _ _)
    · have meant : tables.insert stmt = none := by
        cases values : stmt.values with
        | nil => simp only [Tables.insert, meaning, values]
        | cons head rest =>
          cases head with
          | text text => simp only [Tables.insert, meaning, values]
          | integer pk =>
            have refusedHere := refused pk rest values
            rw [rep.columns, values] at refusedHere
            simp only [Tables.insert, meaning, values, if_neg refusedHere]
      rw [meant]
      simp only [executeInsert, failed]
      exact .rejected rfl rfl
  · have meant : tables.insert stmt = none := by
      simp only [Tables.insert, noMeaning]
    rw [meant]
    simp only [executeInsert, prepareInsert, getTable, missing, bind, Except.bind]
    exact .rejected rfl rfl

/-! ### SELECT -/

/-- Projecting to every column gives the row. -/
lemma projectRow_range' (before row : Row) :
    projectRow (before ++ row) (List.range' before.length row.length) = .ok row := by
  induction row generalizing before with
  | nil => rfl
  | cons value rest ih =>
    have later := ih (before ++ [value])
    rw [append_assoc, length_append] at later
    have here : (before ++ value :: rest)[before.length]? = some value := by simp
    simp only [length_cons, List.range'_succ, projectRow, here, bind, Except.bind]
    simp only [List.singleton_append, length_cons, length_nil, zero_add] at later
    rw [later]
    rfl

/-- Projecting to columns by name gives their cells, if there are such columns. -/
lemma projection_eq (schema : TableSchema) (names : List String) :
    ((names.all fun name => schema.columns.any fun column => decide (column.name = name)) = true ∧
      ∃ indices, projection schema names = .ok indices ∧
        ∀ row, WellTyped schema.columns row → projectRow row indices =
          .ok (names.filterMap fun name => cell name schema.columns row)) ∨
    ((names.all fun name => schema.columns.any fun column => decide (column.name = name)) = false ∧
      ∃ message, projection schema names = .error (.sqlException message)) := by
  induction names with
  | nil => exact .inl ⟨rfl, [], rfl, fun _ _ => rfl⟩
  | cons name rest ih =>
    rcases columnIndex_find schema.columns name with ⟨index, column, atIndex, _, isFound⟩ |
      ⟨noIndex, noColumn⟩
    · have exists_ : (schema.columns.any fun column => decide (column.name = name)) =
          true := any_eq_true.mpr
        ⟨column, mem_of_find?_eq_some isFound, by simpa using find?_some isFound⟩
      rw [all_cons, exists_, Bool.true_and]
      simp only [projection, TableSchema.columnIndex, atIndex, bind, Except.bind]
      rcases ih with ⟨all, indices, projected, rows⟩ | ⟨notAll, message, failed⟩
      · refine Or.inl ⟨all, index :: indices, by rw [projected]; rfl, ?_⟩
        intro row typed
        rcases columnIndex_cell typed name with ⟨index', _, value, atIndex', _, atRow,
          isCell, _⟩ | ⟨noIndex, _⟩
        · rw [atIndex] at atIndex'
          cases atIndex'
          simp only [projectRow, atRow, rows row typed, bind, Except.bind,
            List.filterMap_cons, isCell]
          rfl
        · rw [atIndex] at noIndex
          cases noIndex
      · exact .inr ⟨notAll, message, by rw [failed]⟩
    · have missing : (schema.columns.any fun column => decide (column.name = name)) =
          false := by
        rw [any_eq_false]
        exact fun column mem => find?_eq_none.mp noColumn column mem
      refine Or.inr ⟨by rw [all_cons, missing, Bool.false_and], ?_⟩
      simp only [projection, TableSchema.columnIndex, noIndex]
      exact ⟨_, rfl⟩

lemma projectRows_eq (each : ∀ row ∈ rows, projectRow row indices = .ok (show_ row)) :
    projectRows indices rows = .ok (rows.map show_) := by
  induction rows with
  | nil => rfl
  | cons row rest ih =>
    have later := ih fun other mem => each other (mem_cons_of_mem _ mem)
    simp only [projectRows, each row mem_cons_self, later, bind, Except.bind]
    rfl

/-- What is shown of fetched rows, or which column is missing. -/
lemma presentRows_eq (rep : Represents contents schema table) (stmt : SelectStmt)
    (typed : ∀ row ∈ rows, WellTyped table.columns row) :
    ((stmt.selectStar || table.hasColumns stmt.columns) = true ∧
      presentRows schema stmt rows = .ok {
        columnNames :=
          if stmt.selectStar then table.columns.map ColumnDef.name else stmt.columns
        rows := rows.map (table.project stmt)
        rowsAffected := rows.length
        message := "SELECT " ++ toString rows.length }) ∨
    ((stmt.selectStar || table.hasColumns stmt.columns) = false ∧
      ∃ message, presentRows schema stmt rows = .error (.sqlException message)) := by
  cases star : stmt.selectStar with
  | true =>
    have whole : ∀ row ∈ rows, projectRow row (range schema.columns.length) =
        .ok (table.project stmt row) := by
      intro row mem
      have sameLength := (typed row mem).length_eq
      rw [rep.columns, sameLength, List.range_eq_range']
      simpa [Table.project, star] using projectRow_range' [] row
    refine Or.inl ⟨rfl, ?_⟩
    simp only [presentRows, star, if_true, bind, Except.bind, projectRows_eq whole, length_map]
    rw [rep.columns]
    rfl
  | false =>
    rw [Bool.false_or]
    rcases projection_eq schema stmt.columns with ⟨all, indices, projected, each⟩ |
      ⟨notAll, message, failed⟩
    · rw [rep.columns] at all each
      have shown : ∀ row ∈ rows, projectRow row indices =
          .ok (table.project stmt row) := by
        intro row mem
        simpa [Table.project, star] using each row (typed row mem)
      refine Or.inl ⟨all, ?_⟩
      simp only [presentRows, star, bind, Except.bind, projected, projectRows_eq shown,
        Bool.false_eq_true, if_false, length_map]
      rfl
    · rw [rep.columns] at notAll
      refine Or.inr ⟨notAll, message, ?_⟩
      simp only [presentRows, star, bind, Except.bind, failed, Bool.false_eq_true, if_false]

/-- A statement with a `WHERE` clause gets its plan, or is refused for its clause. -/
lemma planStatement_eq (found : catalog.find tableName = some schema)
    (rep : Represents contents schema table)
    (literals : KeyLiteralsInRange table.columns whereClause) :
    (whereClause.all (admissible table.columns) = true ∧
      ∃ plan, planStatement catalog tableName whereClause = .ok (schema, plan) ∧
        PlanFor table.columns whereClause plan) ∨
    (whereClause.all (admissible table.columns) = false ∧
      ∃ message, planStatement catalog tableName whereClause = .error (.sqlException message)) := by
  have looked : catalog.getTable tableName = .ok schema := by
    simp only [getTable, found]
  have keyed : Keyed schema.columns := by
    rw [rep.columns]
    exact rep.keyed
  rw [← rep.columns] at literals ⊢
  simp only [planStatement, looked, bind, Except.bind]
  cases admissible : whereClause.all (admissible schema.columns) with
  | true =>
    obtain ⟨plan, planned, planFor⟩ := planQuery_eq keyed admissible literals
    exact .inl ⟨rfl, plan, by rw [planned]; rfl, planFor⟩
  | false =>
    obtain ⟨message, failed⟩ := planQuery_error admissible
    exact .inr ⟨rfl, message, by rw [failed]⟩

lemma refines_select (inv : DbInv (map.contents db.engine) db.catalog tables) (stmt : SelectStmt)
    (literals : ∀ table, tables stmt.tableName = some table →
      KeyLiteralsInRange table.columns stmt.whereClause) :
    Refines map db (executeSelect engine stmt db) (tables.select stmt) := by
  rcases inv.find_eq stmt.tableName with ⟨schema, table, found, meaning, mem, named, rep⟩ |
    ⟨missing, noMeaning, _⟩
  · rcases planStatement_eq found rep (literals table meaning) with
      ⟨admissible, plan, planned, planFor⟩ | ⟨inadmissible, message, failed⟩
    · obtain ⟨fetched, contents⟩ := fetchEntries_eq map rep admissible planFor
      have typed : ∀ row ∈ (table.matching stmt.whereClause).map Prod.snd,
          WellTyped table.columns row := by
        intro row rowMem
        obtain ⟨entry, entryMem, rfl⟩ := mem_map.mp rowMem
        exact (rep.rows entry (mem_filter.mp entryMem).1).wellTyped rep.keyed
      have rows : (executeFetch engine schema plan db.engine).1 =
          .ok ((table.matching stmt.whereClause).map Prod.snd) := by
        simp only [executeFetch, fetched, Table.fetched, Except.map, map_map]
        rfl
      have kept : map.contents (executeFetch engine schema plan db.engine).2 =
          map.contents db.engine := contents
      simp only [executeSelect, planned, rows, Except.bind]
      rcases presentRows_eq rep stmt typed with ⟨columns, presented⟩ | ⟨noColumns, message, failed⟩
      · simp only [Tables.select, meaning, admissible, columns, Bool.and_self, if_true,
          presented, length_map, map_map]
        refine .accepted ?_
        rw [kept]
        exact inv
      · simp only [Tables.select, meaning, admissible, noColumns, Bool.and_false,
          Bool.false_eq_true, if_false, failed]
        exact .rejected rfl kept
    · simp only [Tables.select, meaning, inadmissible, Bool.false_and, Bool.false_eq_true,
        if_false, executeSelect, failed]
      exact .rejected rfl rfl
  · simp only [Tables.select, noMeaning, executeSelect, planStatement, getTable,
      missing, bind, Except.bind]
    exact .rejected rfl rfl

/-! ### DELETE -/

/-- Deleting present keys, each once, counts and removes them. -/
lemma deleteKeys_eq (map : engine.OrderedMap) (nodup : keys.Nodup)
    (present : ∀ key ∈ keys, ((map.contents state).lookup key).isSome = true) :
    (deleteKeys engine keys state).1 = keys.length ∧
    ∀ query, (map.contents (deleteKeys engine keys state).2).lookup query =
      if query ∈ keys then none else (map.contents state).lookup query := by
  induction keys generalizing state with
  | nil => exact ⟨rfl, fun query => by simp [deleteKeys]⟩
  | cons key rest ih =>
    obtain ⟨fresh, restNodup⟩ := nodup_cons.mp nodup
    have contents := map.delete_contents key state
    have stillPresent : ∀ other ∈ rest,
        ((map.contents (engine.delete key state).2).lookup other).isSome = true := by
      intro other mem
      have ne : other ≠ key := by
        rintro rfl
        exact fresh mem
      rw [contents, lookup_erase_of_ne ne]
      exact present other (mem_cons_of_mem _ mem)
    obtain ⟨count, lookups⟩ := ih restNodup stillPresent
    have existed : (engine.delete key state).1 = true := by
      rw [map.delete_eq]
      exact present key mem_cons_self
    refine ⟨?_, ?_⟩
    · simp only [deleteKeys, existed, if_true, count, length_cons]
      exact Nat.add_comm _ _
    · intro query
      simp only [deleteKeys, lookups, contents, mem_cons]
      by_cases here : query = key
      · subst here
        simp [lookup_erase_self]
      · simp [here, lookup_erase_of_ne here]

section

variable {contents : SortedMap KeyType Bytes} {schema : TableSchema} {table : Table}
  {whereClause : Predicate}

lemma Table.mem_fetched_keys (rep : Represents contents schema table) (inRange : InRange pk) :
    encodeKey schema.tableId pk ∈ (table.fetched schema.tableId whereClause).map Prod.fst ↔
      ∃ row, table.rows.lookup pk = some row ∧ satisfies table.columns whereClause row = true := by
  constructor
  · intro mem
    obtain ⟨keyed, keyedMem, same⟩ := mem_map.mp mem
    obtain ⟨entry, entryMem, rfl⟩ := mem_map.mp keyedMem
    obtain ⟨stored, passes⟩ := mem_filter.mp entryMem
    have equal : entry.1 = pk := encodeKey_inj _ (rep.rows entry stored).inRange inRange same
    subst equal
    exact ⟨entry.2, lookup_eq_some.mpr stored, passes⟩
  · rintro ⟨row, found, passes⟩
    refine mem_map.mpr ⟨keyedRow schema.tableId (pk, row), ?_, rfl⟩
    exact mem_map_of_mem (mem_filter.mpr ⟨lookup_eq_some.mp found, passes⟩)

lemma Table.fetched_keys_nodup (rep : Represents contents schema table) :
    ((table.fetched schema.tableId whereClause).map Prod.fst).Nodup := by
  have ascending : Ascending (table.matching whereClause) :=
    table.rows.ascending.sublist filter_sublist
  rw [Table.fetched, map_map]
  refine List.Nodup.map_on ?_ ?_
  · intro left leftMem right rightMem same
    have keys : left.1 = right.1 :=
      encodeKey_inj _ (rep.rows left (mem_filter.mp leftMem).1).inRange
        (rep.rows right (mem_filter.mp rightMem).1).inRange same
    exact ascending.eq_of_key_eq leftMem rightMem keys
  · exact ascending.imp fun less same => absurd (congrArg Prod.fst same) (ne_of_lt less)

lemma Represents.without (rep : Represents contents schema table)
    (lookups : ∀ query, contents'.lookup query =
      if query ∈ (table.fetched schema.tableId whereClause).map Prod.fst then none
      else contents.lookup query) : Represents contents' schema (table.without whereClause) where
  columns := rep.columns
  keyed := rep.keyed
  rows entry mem := rep.rows entry (mem_filter.mp mem).1
  stored pk inRange := by
    have kept : (table.without whereClause).rows.lookup pk =
        (table.rows.lookup pk).filter fun row =>
          !satisfies table.columns whereClause row :=
      table.rows.ascending.lookupEntry_filter _
    rw [lookups, kept, rep.stored pk inRange]
    simp only [Table.mem_fetched_keys rep inRange]
    cases found : table.rows.lookup pk with
    | none => simp
    | some row =>
      cases passes : satisfies table.columns whereClause row <;>
        simp [Option.filter, passes]

end

/-- Deleting through a plan of a `WHERE` clause removes exactly the matching rows. -/
lemma executeDelete_eq (map : engine.OrderedMap)
    (rep : Represents (map.contents state) schema table)
    (admissible : whereClause.all (admissible table.columns) = true)
    (planned : PlanFor table.columns whereClause plan) :
    (executeDelete engine schema plan state).1 = .ok (table.matching whereClause).length ∧
    ∀ query, (map.contents (executeDelete engine schema plan state).2).lookup query =
      if query ∈ (table.fetched schema.tableId whereClause).map Prod.fst then none
      else (map.contents state).lookup query := by
  obtain ⟨fetched, contents⟩ := fetchEntries_eq map rep admissible planned
  have executed : fetchEntries engine schema plan state =
      (.ok (table.fetched schema.tableId whereClause),
        (fetchEntries engine schema plan state).2) := Prod.ext fetched rfl
  have present : ∀ key ∈ (table.fetched schema.tableId whereClause).map Prod.fst,
      ((map.contents (fetchEntries engine schema plan state).2).lookup key).isSome = true := by
    intro key keyMem
    obtain ⟨keyed, keyedMem, rfl⟩ := mem_map.mp keyMem
    obtain ⟨entry, entryMem, rfl⟩ := mem_map.mp keyedMem
    have stored := (mem_filter.mp entryMem).1
    have looked := rep.stored entry.1 (rep.rows entry stored).inRange
    rw [lookup_eq_some.mpr stored] at looked
    rw [contents]
    simp only [keyedRow, looked]
    rfl
  obtain ⟨count, lookups⟩ := deleteKeys_eq map (Table.fetched_keys_nodup rep) present
  rw [contents] at lookups
  have length : ((table.fetched schema.tableId whereClause).map Prod.fst).length =
      (table.matching whereClause).length := by
    rw [length_map, Table.fetched, length_map]
  rw [length] at count
  rw [executeDelete, executed]
  simp only [count]
  exact ⟨trivial, lookups⟩

lemma refines_delete (inv : DbInv (map.contents db.engine) db.catalog tables) (stmt : DeleteStmt)
    (literals : ∀ table, tables stmt.tableName = some table →
      KeyLiteralsInRange table.columns stmt.whereClause) :
    Refines map db (executeDeleteStmt engine stmt db) (tables.delete stmt) := by
  rcases inv.find_eq stmt.tableName with ⟨schema, table, found, meaning, mem, named, rep⟩ |
    ⟨missing, noMeaning, _⟩
  · rcases planStatement_eq found rep (literals table meaning) with
      ⟨admissible, plan, planned, planFor⟩ | ⟨inadmissible, message, failed⟩
    · obtain ⟨count, lookups⟩ := executeDelete_eq map rep admissible planFor
      simp only [executeDeleteStmt, planned, count, Except.map, Tables.delete, meaning,
        admissible, if_true]
      refine .accepted ?_
      rw [← named]
      refine inv.of_update mem ?_ (rep.without lookups)
      intro key foreign
      rw [lookups, if_neg]
      intro keyMem
      obtain ⟨keyed, keyedMem, rfl⟩ := mem_map.mp keyMem
      obtain ⟨entry, _, rfl⟩ := mem_map.mp keyedMem
      exact foreign (decodeTableId_encodeKey _ _)
    · simp only [Tables.delete, meaning, inadmissible, Bool.false_eq_true, if_false,
        executeDeleteStmt, failed]
      exact .rejected rfl rfl
  · simp only [Tables.delete, noMeaning, executeDeleteStmt, planStatement, getTable,
      missing, bind, Except.bind]
    exact .rejected rfl rfl

end

end DbEngine.Sql
