import DbEngine.Sql.Statements

/-!
# Whole runs of the SQL layer

From an empty engine and an empty catalog, a run of statements gives the results of its
relational meaning, and what is stored after every statement is what the meaning says.
-/

namespace DbEngine.Sql

open Lib Function

/-- No tables. -/
def noTables : Tables := fun _ => none

/-- The names the statements ask to create tables under. -/
def createdNames : List Statement → List String
  | [] => []
  | .createTable stmt :: rest => stmt.tableName :: createdNames rest
  | _ :: rest => createdNames rest

/-- Every literal a statement compares for equality with a primary key is a key a row may
have. -/
def Statement.KeyLiteralsInRange (tables : Tables) : Statement → Prop
  | .select stmt => ∀ table, tables stmt.tableName = some table →
      Sql.KeyLiteralsInRange table.columns stmt.whereClause
  | .delete stmt => ∀ table, tables stmt.tableName = some table →
      Sql.KeyLiteralsInRange table.columns stmt.whereClause
  | _ => True

/-- The same of every statement of a run. -/
def RunKeyLiteralsInRange : List Statement → Tables → Prop
  | [], _ => True
  | statement :: rest, tables => statement.KeyLiteralsInRange tables ∧
      RunKeyLiteralsInRange rest (tables.after statement)

/-- An outcome is the result the meaning gives, or a `SqlException` where it gives none. -/
inductive Agrees : Except Failure QueryResult → Option QueryResult → Prop where
  | result (result : QueryResult) : Agrees (.ok result) (some result)
  | refused (message : String) : Agrees (.error (.sqlException message)) none

/-! ## The names in use -/

section

variable {State : Type}

def Catalog.names (catalog : Catalog) : List String := catalog.tables.map TableSchema.name

/-- The names in use and the names to come do not exhaust the table ids. -/
def Room (catalog : Catalog) (statements : List Statement) : Prop :=
  (catalog.names ++ createdNames statements).toFinset.card ≤ kMaxTables

lemma Room.mono {statements statements' : List Statement} (room : Room catalog statements)
    (fewer : catalog'.names ++ createdNames statements' ⊆
      catalog.names ++ createdNames statements) : Room catalog' statements' := by
  refine le_trans (Finset.card_le_card ?_) room
  intro name mem
  exact List.mem_toFinset.mpr (fewer (List.mem_toFinset.mp mem))

lemma createdNames_append (before after : List Statement) :
    createdNames (before ++ after) = createdNames before ++ createdNames after := by
  induction before with
  | nil => rfl
  | cons statement rest ih => cases statement <;> simp [createdNames, ih]

/-- A statement leaves the catalog alone or adds the table it creates. -/
lemma execute_catalog (engine : StorageEngine State) (statement : Statement) (db : Database State) :
    (execute engine statement db).2.catalog = db.catalog ∨
    ∃ stmt schema, statement = .createTable stmt ∧ schema.name = stmt.tableName ∧
      (execute engine statement db).2.catalog.tables = db.catalog.tables ++ [schema] := by
  cases statement with
  | createTable stmt =>
    cases created : db.catalog.createTable stmt.tableName stmt.columns with
    | error failure => exact .inl (by simp only [execute, executeCreateTable, created])
    | ok catalog =>
      refine Or.inr ⟨stmt, ⟨stmt.tableName, db.catalog.nextTableId, stmt.columns⟩, rfl, rfl, ?_⟩
      simp only [execute, executeCreateTable, created]
      simp only [Catalog.createTable] at created
      split at created
      · cases created
      · split at created
        · cases created
        · cases created
          rfl
  | insert stmt =>
    refine Or.inl ?_
    simp only [execute, executeInsert]
    split
    · rfl
    · split <;> rfl
  | select stmt =>
    refine Or.inl ?_
    simp only [execute, executeSelect]
    split <;> rfl
  | delete stmt =>
    refine Or.inl ?_
    simp only [execute, executeDeleteStmt]
    split <;> rfl

lemma execute_names (engine : StorageEngine State) (statement : Statement)
    (rest : List Statement) (db : Database State) :
    (execute engine statement db).2.catalog.names ++ createdNames rest ⊆
      db.catalog.names ++ createdNames (statement :: rest) := by
  rcases execute_catalog engine statement db with same | ⟨stmt, schema, rfl, named, tables⟩
  · rw [same]
    cases statement <;> simp [createdNames]
  · simp [Catalog.names, tables, named, createdNames]

/-- Other tables stay where they are. -/
lemma execute_find (engine : StorageEngine State) (statement : Statement)
    (db : Database State) {name : String} (other : name ≠ statement.tableName) :
    (execute engine statement db).2.catalog.find name = db.catalog.find name := by
  rcases execute_catalog engine statement db with same | ⟨stmt, schema, rfl, named, tables⟩
  · rw [same]
  · have ne : schema.name ≠ name := by
      rw [named]
      exact other.symm
    simp only [Catalog.find, tables, List.find?_append, find?_cons, List.find?_nil,
      decide_eq_false ne, or_none]

lemma Room.lt (inv : DbInv contents catalog tables)
    (room : Room catalog (.createTable stmt :: rest))
    (fresh : stmt.tableName ∉ catalog.tables.map TableSchema.name) :
    catalog.tables.length < kMaxTables := by
  have nodup : (stmt.tableName :: catalog.names).Nodup := nodup_cons.mpr ⟨fresh, inv.namesNodup⟩
  have counted := List.toFinset_card_of_nodup nodup
  rw [length_cons, Catalog.names, length_map] at counted
  rw [Nat.lt_iff_add_one_le, ← counted]
  refine le_trans (Finset.card_le_card ?_) room
  intro name mem
  rw [List.mem_toFinset] at mem ⊢
  rcases mem_cons.mp mem with rfl | old
  · exact mem_append_right _ mem_cons_self
  · exact mem_append_left _ old

end

/-! ## Runs -/

section

variable {State : Type} {engine : StorageEngine State} {map : engine.OrderedMap}
  {db : Database State} {tables : Tables}

lemma execute_refines (inv : DbInv (map.contents db.engine) db.catalog tables)
    {rest : List Statement} (room : Room db.catalog (statement :: rest))
    (literals : statement.KeyLiteralsInRange tables) :
    Refines map db (execute engine statement db) (tables.step statement) := by
  cases statement with
  | createTable stmt => exact refines_create inv stmt (Room.lt inv room)
  | insert stmt => exact refines_insert inv stmt
  | select stmt => exact refines_select inv stmt literals
  | delete stmt => exact refines_delete inv stmt literals

/-- One statement: its outcome agrees, and the tables stay represented. -/
lemma Refines.agrees {statement : Statement}
    (refines : Refines map db executed (tables.step statement))
    (inv : DbInv (map.contents db.engine) db.catalog tables) :
    Agrees executed.1 ((tables.step statement).map Prod.fst) ∧
      DbInv (map.contents executed.2.engine) executed.2.catalog (tables.after statement) := by
  unfold Tables.after
  generalize tables.step statement = meaning at refines ⊢
  cases refines with
  | accepted after => exact ⟨.result _, after⟩
  | rejected sameCatalog sameContents =>
    refine ⟨.refused _, ?_⟩
    simp only [sameCatalog, sameContents]
    exact inv

lemma executeAll_refines (statements : List Statement)
    (inv : DbInv (map.contents db.engine) db.catalog tables) (room : Room db.catalog statements)
    (literals : RunKeyLiteralsInRange statements tables) :
    List.Forall₂ Agrees (executeAll engine statements db).1 (Tables.run statements tables).1 ∧
    DbInv (map.contents (executeAll engine statements db).2.engine)
      (executeAll engine statements db).2.catalog (Tables.run statements tables).2 := by
  induction statements generalizing db tables with
  | nil => exact ⟨.nil, inv⟩
  | cons statement rest ih =>
    obtain ⟨here, later⟩ := literals
    obtain ⟨agrees, invAfter⟩ := (execute_refines inv room here).agrees inv
    obtain ⟨agreeLater, invFinal⟩ :=
      ih invAfter (room.mono (execute_names engine statement rest db)) later
    exact ⟨.cons agrees agreeLater, invFinal⟩

lemma Tables.run_append (before after : List Statement) (tables : Tables) :
    (Tables.run (before ++ after) tables).2 =
      (Tables.run after (Tables.run before tables).2).2 := by
  induction before generalizing tables with
  | nil => rfl
  | cons statement rest ih => exact ih _

lemma runKeyLiteralsInRange_append {before after : List Statement}
    (literals : RunKeyLiteralsInRange (before ++ after) tables) :
    RunKeyLiteralsInRange before tables ∧
      RunKeyLiteralsInRange after (Tables.run before tables).2 := by
  induction before generalizing tables with
  | nil => exact ⟨trivial, literals⟩
  | cons statement rest ih =>
    obtain ⟨earlier, later⟩ := ih literals.2
    exact ⟨⟨literals.1, earlier⟩, later⟩

lemma executeAll_names (engine : StorageEngine State) (before after : List Statement)
    (db : Database State) : (executeAll engine before db).2.catalog.names ++ createdNames after ⊆
      db.catalog.names ++ createdNames (before ++ after) := by
  induction before generalizing db with
  | nil => exact List.Subset.refl _
  | cons statement rest ih =>
    exact List.Subset.trans (ih (execute engine statement db).2)
      (execute_names engine statement (rest ++ after) db)

end

/-! ## What is stored -/

section

variable {State : Type} {engine : StorageEngine State}

/-- The row stored for a table and a primary key, as it is decoded. -/
def Database.storedRow (map : engine.OrderedMap) (db : Database State) (name : String)
    (pk : Int64) : Option (Except Failure Row) :=
  (db.catalog.find name).bind fun schema =>
    ((map.contents db.engine).lookup (encodeKey schema.tableId pk)).map (decodeRow schema pk)

/-- The database stores exactly the tables. -/
structure Stores (map : engine.OrderedMap) (db : Database State) (tables : Tables) :
    Prop where
  columns : ∀ name, (db.catalog.find name).map TableSchema.columns =
    (tables name).map Table.columns
  rows : ∀ name pk, InRange pk → db.storedRow map name pk =
    ((tables name).bind fun table => table.rows.lookup pk).map .ok
  inRange : ∀ name table, tables name = some table →
    ∀ entry ∈ table.rows.entries, InRange entry.1

variable {map : engine.OrderedMap} {db : Database State} {tables : Tables}

lemma DbInv.stores (inv : DbInv (map.contents db.engine) db.catalog tables) :
    Stores map db tables where
  columns name := by
    rcases inv.find_eq name with ⟨schema, table, found, meaning, _, _, rep⟩ |
      ⟨missing, noMeaning, _⟩
    · simp only [found, meaning, map_some, rep.columns]
    · rw [missing, noMeaning]
      rfl
  rows name pk inRange := by
    rcases inv.find_eq name with ⟨schema, table, found, meaning, _, _, rep⟩ |
      ⟨missing, noMeaning, _⟩
    · simp only [Database.storedRow, found, meaning, bind_some, rep.stored pk inRange]
      cases stored : table.rows.lookup pk with
      | none => rfl
      | some row =>
        have ok := rep.rows _ (SortedMap.lookup_eq_some.mp stored)
        have decoded : decodeRow schema pk (payloadOf row) = .ok row :=
          decodeRow_payloadOf (by rw [rep.columns]; exact ok.encodable) ok.first
        simp only [map_some, decoded]
    · simp only [Database.storedRow, missing, noMeaning, bind_none]
      rfl
  inRange name table meaning entry mem := by
    rcases inv.find_eq name with ⟨_, found, _, meaning', _, _, rep⟩ | ⟨_, noMeaning, _⟩
    · rw [meaning] at meaning'
      cases meaning'
      exact (rep.rows entry mem).inRange
    · rw [meaning] at noMeaning
      cases noMeaning

/-- A statement changes the meaning of the table it names only. -/
lemma Tables.after_of_ne (tables : Tables) (statement : Statement) {name : String}
    (other : name ≠ statement.tableName) : tables.after statement name = tables name := by
  unfold Tables.after
  cases stepped : tables.step statement with
  | none => rfl
  | some reached =>
    cases statement with
    | createTable stmt =>
      simp only [Tables.step, Tables.create] at stepped
      split at stepped
      · cases stepped
      · cases stepped
        exact update_of_ne other _ _
    | insert stmt =>
      simp only [Tables.step, Tables.insert] at stepped
      split at stepped
      · split at stepped
        · cases stepped
          exact update_of_ne other _ _
        · cases stepped
      · cases stepped
    | select stmt =>
      simp only [Tables.step, Tables.select] at stepped
      split at stepped
      · split at stepped
        · cases stepped
          rfl
        · cases stepped
      · cases stepped
    | delete stmt =>
      simp only [Tables.step, Tables.delete] at stepped
      split at stepped
      · split at stepped
        · cases stepped
          exact update_of_ne other _ _
        · cases stepped
      · cases stepped

/-- A failed statement failed with a `SqlException` and changed nothing. -/
lemma Refines.unchanged {executed : Except Failure QueryResult × Database State}
    (refines : Refines map db executed meaning) {failure : Failure}
    (failed : executed.1 = .error failure) :
    (∃ message, failure = .sqlException message) ∧ executed.2.catalog = db.catalog ∧
      map.contents executed.2.engine = map.contents db.engine := by
  cases refines with
  | accepted => cases failed
  | rejected sameCatalog sameContents =>
    cases failed
    exact ⟨⟨_, rfl⟩, sameCatalog, sameContents⟩

end

/-- The SQL layer implements its relational meaning.  Over an engine that behaves as an
ordered map, the outcomes of a run are those of the naive semantics; after every statement
the database stores exactly the tables of the naive semantics; no statement touches
another table; and a statement that throws throws a `SqlException` and changes nothing. -/
theorem executeAll_implements_meaning {State : Type} {engine : StorageEngine State}
    (map : engine.OrderedMap) (state : State) (fresh : map.contents state = SortedMap.empty)
    (statements : List Statement)
    (few : (createdNames statements).toFinset.card ≤ kMaxTables)
    (literals : RunKeyLiteralsInRange statements noTables) :
    List.Forall₂ Agrees (executeAll engine statements { engine := state }).1
      (Tables.run statements noTables).1 ∧
    ∀ before statement after, statements = before ++ statement :: after →
      let db := (executeAll engine before { engine := state }).2
      let executed := execute engine statement db
      Stores map executed.2 (Tables.run (before ++ [statement]) noTables).2 ∧
      (∀ name, name ≠ statement.tableName →
        executed.2.catalog.find name = db.catalog.find name ∧
        ∀ pk, InRange pk →
          executed.2.storedRow map name pk = db.storedRow map name pk) ∧
      (∀ failure, executed.1 = .error failure →
        (∃ message, failure = .sqlException message) ∧
        executed.2.catalog = db.catalog ∧
        map.contents executed.2.engine = map.contents db.engine) := by
  let initial : Database State := { engine := state }
  have start : DbInv (map.contents initial.engine) initial.catalog noTables := by
    have empty : map.contents initial.engine = SortedMap.empty := fresh
    rw [empty]
    exact dbInv_init
  have room : Room initial.catalog statements := few
  refine ⟨(executeAll_refines statements start room literals).1, ?_⟩
  rintro before statement after rfl
  rcases runKeyLiteralsInRange_append literals with ⟨earlier, here, _⟩
  have roomBefore : Room initial.catalog before := by
    refine room.mono ?_
    rw [createdNames_append, ← append_assoc]
    exact List.subset_append_left _ _
  have inv := (executeAll_refines before start roomBefore earlier).2
  have roomHere := room.mono (executeAll_names engine before (statement :: after) initial)
  have refines := execute_refines inv roomHere here
  have invAfter := (refines.agrees inv).2
  rw [Tables.run_append]
  refine ⟨invAfter.stores, ?_, fun failure failed => refines.unchanged failed⟩
  intro name other
  refine ⟨execute_find engine statement _ other, ?_⟩
  intro pk inRange
  rw [invAfter.stores.rows name pk inRange, inv.stores.rows name pk inRange,
    Tables.after_of_ne _ statement other]

/-- A run over the ordered map itself that creates, fills, reads and clears a table. -/
def sampleRun : List Statement :=
  [.createTable ⟨"t", [⟨"id", .integer⟩, ⟨"n", .text⟩], rfl⟩,
   .insert ⟨"t", [.integer 7, .text [104, 105]]⟩,
   .insert ⟨"t", [.text [104]]⟩,
   .select ⟨"t", false, ["n"], [⟨"id", .eq, .integer 7⟩]⟩,
   .delete ⟨"t", [⟨"id", .ge, .integer 0⟩]⟩]

theorem executeAll_implements_meaning_sampleRun :
    (createdNames sampleRun).toFinset.card ≤ kMaxTables ∧
    RunKeyLiteralsInRange sampleRun noTables ∧
    List.Forall₂ Agrees (executeAll mapEngine sampleRun { engine := SortedMap.empty }).1
      (Tables.run sampleRun noTables).1 := by
  have few : (createdNames sampleRun).toFinset.card ≤ kMaxTables := by decide
  have literals : RunKeyLiteralsInRange sampleRun noTables := by
    refine ⟨trivial, trivial, trivial, ?_, ?_, trivial⟩
    · intro table _ comparison member _ _ value literal
      rw [mem_singleton.mp member] at literal
      cases literal
      decide
    · intro table _ comparison member isEq
      rw [mem_singleton.mp member] at isEq
      cases isEq
  exact ⟨few, literals, (executeAll_implements_meaning mapEngine_orderedMap SortedMap.empty rfl
    sampleRun few literals).1⟩

end DbEngine.Sql
