import DbEngine.Sql.Statements

/-!
# The access path is invisible

Over contents whose entries for a table were all accepted by `INSERT`, the plan chosen
for a `WHERE` clause and the scan of the whole table return the same rows and delete the
same rows, unless a row is mistaken for another one.  A point lookup drops its equality from
the residual and masks its key to 48 bits, and so it may find a row that has not this key.
-/

namespace DbEngine.Sql

open Lib

/-- Every entry of a table is a row that `INSERT` accepted. -/
def Inserted (contents : SortedMap KeyType Bytes) (schema : TableSchema) : Prop :=
  ∀ entry ∈ contents.entries, decodeTableId entry.1 = schema.tableId →
    ∃ catalog stmt, Catalog.getTable catalog stmt.tableName = .ok schema ∧
      prepareInsert catalog stmt = .ok entry

/-- The full-scan plan whose residual is the whole `WHERE` clause. -/
def Plan.fullScan (whereClause : Predicate) : Plan :=
  { accessPath := .fullScan, residual := whereClause }

section

variable {contents : SortedMap KeyType Bytes} {schema : TableSchema}

/-- The row an entry of a table decodes to, under its primary key. -/
def decodeEntry (schema : TableSchema) (entry : KeyType × Bytes) : Option (KeyType × Row) :=
  if decodeTableId entry.1 = schema.tableId then
    (decodeRow schema (decodeRowKey entry.1) entry.2).toOption.map
      (Prod.mk (decodeRowKey entry.1))
  else none

lemma Inserted.stored (inserted : Inserted contents schema) {entry : KeyType × Bytes}
    (mem : entry ∈ contents.entries) (mine : decodeTableId entry.1 = schema.tableId) :
    ∃ row, RowOk schema.columns (decodeRowKey entry.1) row ∧ entry.2 = payloadOf row := by
  obtain ⟨catalog, stmt, looked, accepted⟩ := inserted entry mem mine
  rcases prepareInsert_eq looked with ⟨pk, rest, values, inRange, encodable, prepared⟩ |
    ⟨_, message, failed⟩
  · rw [prepared] at accepted
    cases accepted
    refine ⟨stmt.values, ?_, rfl⟩
    rw [decodeRowKey_encodeKey _ inRange]
    exact ⟨inRange, encodable, by rw [values]; rfl⟩
  · rw [failed] at accepted
    cases accepted

lemma decodeEntry_eq_some {key pk : KeyType} {payload : Bytes} {row : Row}
    (decoded : decodeEntry schema (key, payload) = some (pk, row)) :
    decodeTableId key = schema.tableId ∧ pk = decodeRowKey key ∧
      decodeRow schema pk payload = .ok row := by
  rw [decodeEntry] at decoded
  split at decoded
  next mine =>
    cases found : decodeRow schema (decodeRowKey key) payload with
    | error failure => simp [found, Except.toOption] at decoded
    | ok value =>
      simp only [found, Except.toOption, map_some, some.injEq, Prod.mk.injEq] at decoded
      obtain ⟨rfl, rfl⟩ := decoded
      exact ⟨mine, rfl, found⟩
  · cases decoded

/-- The rows of a table, read back from the engine. -/
def storedRows (contents : SortedMap KeyType Bytes) (schema : TableSchema) :
    SortedMap KeyType Row where
  entries := contents.entries.filterMap (decodeEntry schema)
  ascending := by
    unfold Ascending
    rw [List.pairwise_filterMap]
    refine contents.ascending.imp ?_
    rintro ⟨key, payload⟩ ⟨key', payload'⟩ less ⟨pk, row⟩ decoded ⟨pk', row'⟩ decoded'
    obtain ⟨mine, rfl, _⟩ := decodeEntry_eq_some decoded
    obtain ⟨mine', rfl, _⟩ := decodeEntry_eq_some decoded'
    exact (lt_iff_of_sameTable (mine.trans mine'.symm)).mp less

/-- Contents of accepted rows represent the table of those rows. -/
lemma Inserted.represents (inserted : Inserted contents schema) (keyed : Keyed schema.columns) :
    Represents contents schema ⟨schema.columns, storedRows contents schema⟩ where
  columns := rfl
  keyed := keyed
  rows := by
    intro entry mem
    obtain ⟨⟨key, payload⟩, stored, decoded⟩ := mem_filterMap.mp mem
    obtain ⟨mine, pkEq, rowEq⟩ := decodeEntry_eq_some decoded
    obtain ⟨row, ok, payloadEq⟩ := inserted.stored stored mine
    have reads := decodeRow_payloadOf ok.encodable ok.first
    simp only at payloadEq
    rw [pkEq, payloadEq, reads] at rowEq
    cases rowEq
    rw [pkEq]
    exact ok
  stored := by
    intro pk inRange
    apply Option.ext
    intro payload
    rw [map_eq_some_iff]
    constructor
    · intro found
      have mem := SortedMap.lookup_eq_some.mp found
      have mine := decodeTableId_encodeKey schema.tableId pk
      obtain ⟨row, ok, payloadEq⟩ := inserted.stored mem mine
      have reads := decodeRow_payloadOf ok.encodable ok.first
      simp only at payloadEq ok reads
      rw [decodeRowKey_encodeKey _ inRange] at reads
      refine ⟨row, SortedMap.lookup_eq_some.mpr (mem_filterMap.mpr ⟨_, mem, ?_⟩), payloadEq.symm⟩
      simp [decodeEntry, decodeRowKey_encodeKey _ inRange, payloadEq, reads, Except.toOption]
    · rintro ⟨row, found, rfl⟩
      obtain ⟨⟨key, payload⟩, stored, decoded⟩ :=
        mem_filterMap.mp (SortedMap.lookup_eq_some.mp found)
      obtain ⟨mine, rfl, rowEq⟩ := decodeEntry_eq_some decoded
      obtain ⟨original, ok, payloadEq⟩ := inserted.stored stored mine
      have reads := decodeRow_payloadOf ok.encodable ok.first
      simp only at payloadEq ok reads
      rw [payloadEq, reads] at rowEq
      cases rowEq
      rw [← mine, encodeKey_decode, ← payloadEq]
      exact SortedMap.lookup_eq_some.mpr stored

end

/-- No row is found in place of one that cannot be there: where the first equality with the
primary key is with a literal out of range, the row at the masked key does not satisfy the
clause with the literal for its key. -/
def Unmasked (contents : SortedMap KeyType Bytes) (schema : TableSchema)
    (whereClause : Predicate) : Prop :=
  ∀ value row, keyLiteral schema.columns whereClause = some (.integer value) → ¬ InRange value →
    (storedRows contents schema).lookup (decodeRowKey value) = some row →
    satisfies schema.columns whereClause (.integer value :: row.tail) = false

section

variable {State : Type} {engine : StorageEngine State} {schema : TableSchema} {table : Table}
  {whereClause : Predicate} {plan : Plan} {state : State}

/-- A plan returns these rows, and deletes exactly them. -/
def Yields (map : engine.OrderedMap) (schema : TableSchema) (state : State) (plan : Plan)
    (rows : List (KeyType × Row)) : Prop :=
  (executeFetch engine schema plan state).1 = .ok (rows.map Prod.snd) ∧
    (executeDelete engine schema plan state).1 = .ok rows.length ∧
    ∀ key, (map.contents (executeDelete engine schema plan state).2).lookup key =
      if (rows.map Prod.fst).contains key then none else (map.contents state).lookup key

/-- The chosen plan and the full scan return the same rows, and the rows the plan deletes are
those the full scan returns, exactly if no row is found in place of another one. -/
theorem accessPath_invisible (map : engine.OrderedMap) (schema : TableSchema)
    (whereClause : Predicate) (state : State) (keyed : Keyed schema.columns)
    (wellTyped : whereClause.all (Comparison.admissible schema.columns) = true)
    (inserted : Inserted (map.contents state) schema) :
    ∃ plan rows, planQuery schema whereClause = .ok plan ∧
      (fetchEntries engine schema (Plan.fullScan whereClause) state).1 = .ok rows ∧
      (executeFetch engine schema (Plan.fullScan whereClause) state).1 =
        .ok (rows.map Prod.snd) ∧
      (Yields map schema state plan rows ↔
        Unmasked (map.contents state) schema whereClause) := by
  let table : Table := ⟨schema.columns, storedRows (map.contents state) schema⟩
  have rep : Represents (map.contents state) schema table := inserted.represents keyed
  have returned {candidate rows}
      (fetched : (fetchEntries engine schema candidate state).1 = .ok rows) :
      (executeFetch engine schema candidate state).1 = .ok (rows.map Prod.snd) := by
    simp only [executeFetch, fetched]
    rfl
  have scanned : (fetchEntries engine schema (Plan.fullScan whereClause) state).1 =
      .ok (table.fetched schema.tableId whereClause) :=
    (fetchEntries_eq map rep wellTyped (planFor_fullScan schema.columns whereClause)).1
  rcases planQuery_cases keyed wellTyped with ⟨plan, planned, kind⟩
  refine ⟨plan, _, planned, scanned, returned scanned, ?_⟩
  have agrees (planFor : PlanFor schema.columns whereClause plan) :
      Yields map schema state plan (table.fetched schema.tableId whereClause) := by
    rcases executeDelete_eq map rep wellTyped planFor with ⟨count, lookups⟩
    refine ⟨returned (fetchEntries_eq map rep wellTyped planFor).1, count.trans ?_,
      by simpa only [List.contains_iff_mem] using lookups⟩
    rw [Table.fetched, length_map]
  rcases kind with point | ⟨missing, -, planFor⟩
  · by_cases inRange : InRange plan.pointKey
    · refine iff_of_true (agrees (.point point inRange)) fun value row literal outside _ => ?_
      cases point.literal.symm.trans literal
      exact absurd inRange outside
    · -- No row has the literal for its key, so the scan returns nothing.
      have nothing : table.fetched schema.tableId whereClause = [] := by
        rw [Table.fetched, Table.matching, filter_eq_nil_iff.mpr, map_nil]
        intro entry mem passes
        have ok := rep.rows entry mem
        rw [point.exact entry.1 entry.2 ok.first, Bool.and_eq_true, decide_eq_true_eq] at passes
        exact inRange (passes.1 ▸ ok.inRange)
      obtain ⟨fetched, kept⟩ := fetchEntries_point map rep point
      rw [nothing, Yields, returned fetched]
      constructor
      · rintro ⟨same, -⟩ value row literal - lookup
        cases point.literal.symm.trans literal
        by_contra passes
        rw [show table.rows.lookup _ = some row from lookup, map_some, Option.filter_some,
          if_pos (Bool.eq_true_of_not_eq_false passes)] at same
        cases same
      · intro unmasked
        have none : ((table.rows.lookup (decodeRowKey plan.pointKey)).map fun row : Row =>
            .integer plan.pointKey :: row.tail).filter (satisfies schema.columns whereClause) =
              Option.none := by
          rw [Option.filter_eq_none_iff]
          intro row shown
          obtain ⟨found, lookup, rfl⟩ := map_eq_some_iff.mp shown
          rw [unmasked _ found point.literal inRange lookup]
          exact Bool.false_ne_true
        rw [none] at fetched ⊢
        have executed : fetchEntries engine schema plan state =
            (.ok [], (fetchEntries engine schema plan state).2) := Prod.ext fetched rfl
        rw [executeDelete, executed]
        exact ⟨rfl, rfl, fun key => by rw [← kept]; rfl⟩
  · refine iff_of_true (agrees planFor) fun value row literal => ?_
    rw [missing] at literal
    cases literal

end

/-! ### One row -/

/-- A table with only its key column. -/
def idTable : TableSchema := ⟨"t", 0, [⟨"id", .integer⟩]⟩

/-- Contents with the single row 5. -/
def rowFive : SortedMap KeyType Bytes := SortedMap.empty.insert (encodeKey 0 5) []

lemma inserted_rowFive : Inserted rowFive idTable := by
  intro entry mem _
  have isFive : entry = (encodeKey 0 5, []) := mem_singleton.mp mem
  subst isFive
  exact ⟨{ tables := [idTable] }, ⟨"t", [.integer 5]⟩, rfl, rfl⟩

/-- The masked key of the literal is that of the row, but the row does not satisfy the rest. -/
theorem accessPath_invisible_rowFive :
    let whereClause : Predicate := [⟨"id", .eq, .integer 281474976710661⟩, ⟨"id", .lt, .integer 9⟩]
    Unmasked rowFive idTable whereClause ∧ ∃ plan, planQuery idTable whereClause = .ok plan ∧
      Yields mapEngine_orderedMap idTable rowFive plan [] := by
  intro whereClause
  have unmasked : Unmasked rowFive idTable whereClause := by
    intro value row literal _ _
    cases literal
    rfl
  rcases accessPath_invisible mapEngine_orderedMap idTable whereClause rowFive
    rfl (by decide) inserted_rowFive with ⟨plan, rows, planned, scanned, _, exactly⟩
  have nothing : (fetchEntries mapEngine idTable (Plan.fullScan whereClause) rowFive).1 = .ok [] := by
    decide +kernel
  cases nothing.symm.trans scanned
  exact ⟨unmasked, plan, planned, exactly.mpr unmasked⟩

/-- The literal `2 ^ 48 + 5`, which no row has as its key. -/
def beyondRange : Predicate := [⟨"id", .eq, .integer 281474976710661⟩]

/-- The plan for `id = 2 ^ 48 + 5` finds row 5, shows it under the literal and deletes it;
the full scan finds nothing. -/
theorem pointLookup_masks_key :
    Inserted rowFive idTable ∧
    beyondRange.all (Comparison.admissible idTable.columns) = true ∧
    ∃ plan, planQuery idTable beyondRange = .ok plan ∧
      (executeFetch mapEngine idTable (Plan.fullScan beyondRange) rowFive).1 = .ok [] ∧
      (executeFetch mapEngine idTable plan rowFive).1 =
        .ok [[.integer 281474976710661]] ∧
      (executeDelete mapEngine idTable plan rowFive).1 = .ok 1 ∧
      (executeDelete mapEngine idTable plan rowFive).2.lookup (encodeKey 0 5) = none := by
  refine ⟨inserted_rowFive, by decide, _, rfl, ?_, ?_, ?_, ?_⟩
  · decide +kernel
  · decide +kernel
  · decide +kernel
  · decide +kernel

end DbEngine.Sql
