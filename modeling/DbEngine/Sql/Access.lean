import DbEngine.Sql.Relational

/-!
# Access paths

A plan reads part of the engine's keys and filters what it finds.  Over contents that
represent a table, every plan of a `WHERE` clause delivers exactly the rows that satisfy
the clause.
-/

namespace DbEngine.Sql

open Lib

/-- What holds of every stored row. -/
structure RowOk (columns : List ColumnDef) (pk : Int64) (row : Row) : Prop where
  inRange : InRange pk
  encodable : Encodable columns row
  first : row.head? = some (.integer pk)

/-- The engine's contents hold exactly the rows of a table under its id. -/
structure Represents (contents : SortedMap KeyType Bytes) (schema : TableSchema)
    (table : Table) : Prop where
  columns : schema.columns = table.columns
  keyed : Keyed table.columns
  rows : ∀ entry ∈ table.rows.entries, RowOk table.columns entry.1 entry.2
  stored : ∀ pk, InRange pk →
    contents.lookup (encodeKey schema.tableId pk) = (table.rows.lookup pk).map payloadOf

section

variable {columns : List ColumnDef} {pk : Int64} {row : Row}

lemma Keyed.cons (keyed : Keyed columns) :
    ∃ primaryKey rest, columns = primaryKey :: rest ∧ primaryKey.type = .integer := by
  cases columns with
  | nil => cases keyed
  | cons primaryKey rest =>
    have isInteger : some primaryKey.type = some .integer := keyed
    exact ⟨primaryKey, rest, rfl, Option.some.inj isInteger⟩

lemma RowOk.cons (ok : RowOk columns pk row) : ∃ rest, row = .integer pk :: rest := by
  cases row with
  | nil => cases ok.first
  | cons head rest =>
    have same : some head = some (.integer pk) := ok.first
    exact ⟨rest, by rw [Option.some.inj same]⟩

lemma RowOk.wellTyped (ok : RowOk columns pk row) (keyed : Keyed columns) :
    WellTyped columns row := by
  obtain ⟨primaryKey, rest, rfl, isInteger⟩ := keyed.cons
  obtain ⟨values, rfl⟩ := ok.cons
  exact List.Forall₂.cons isInteger.symm ok.encodable.2.1

/-- The primary key is the cell of the first column. -/
lemma cell_primaryKey {row : Row} (first : row.head? = some (.integer pk)) :
    cell primaryKey.name (primaryKey :: rest) row = some (.integer pk) := by
  cases row with
  | nil => cases first
  | cons head values => simpa [cell] using first

end

/-! ## The entries of one table -/

section

variable {contents : SortedMap KeyType Bytes} {schema : TableSchema} {table : Table}

/-- The entry the engine holds for a row. -/
def storedEntry (tableId : UInt16) (entry : KeyType × Row) : KeyType × Bytes :=
  (encodeKey tableId entry.1, payloadOf entry.2)

lemma Represents.ascending_stored (rep : Represents contents schema table) :
    Ascending (table.rows.entries.map (storedEntry schema.tableId)) := by
  unfold Ascending
  rw [pairwise_map]
  refine table.rows.ascending.imp_of_mem ?_
  intro left right leftMem rightMem less
  have leftRange := (rep.rows left leftMem).inRange
  have rightRange := (rep.rows right rightMem).inRange
  rw [storedEntry, storedEntry, lt_iff_of_sameTable (by simp),
    decodeRowKey_encodeKey _ leftRange, decodeRowKey_encodeKey _ rightRange]
  exact less

/-- In key order, the entries of a table are its rows in primary-key order. -/
lemma Represents.entries_eq (rep : Represents contents schema table) :
    (contents.entries.filter fun entry => decide (decodeTableId entry.1 = schema.tableId)) =
    table.rows.entries.map (storedEntry schema.tableId) := by
  apply Ascending.ext (contents.ascending.sublist filter_sublist) rep.ascending_stored
  intro key
  rw [lookupEntry_filter_key fun key => decide (decodeTableId key = schema.tableId)]
  by_cases mine : decodeTableId key = schema.tableId
  · rw [if_pos (by simpa using mine)]
    have keyEq : key = encodeKey schema.tableId (decodeRowKey key) := by
      rw [← mine, encodeKey_decode]
    have inRange := inRange_decodeRowKey key
    have injective : ∀ entry ∈ table.rows.entries,
        encodeKey schema.tableId entry.1 = encodeKey schema.tableId (decodeRowKey key) →
        entry.1 = decodeRowKey key := by
      intro entry mem
      exact encodeKey_inj _ (rep.rows entry mem).inRange inRange
    have stored := rep.stored _ inRange
    rw [keyEq]
    exact stored.trans (lookupEntry_map injective).symm
  · rw [if_neg (by simpa using mine)]
    symm
    rw [lookupEntry_eq_none]
    intro entry mem same
    obtain ⟨row, _, rfl⟩ := mem_map.mp mem
    apply mine
    rw [← same]
    exact decodeTableId_encodeKey _ _

end

/-! ## Scans -/

section

variable {contents : SortedMap KeyType Bytes} {schema : TableSchema} {table : Table}

/-- Whether the scan loop goes on at an entry. -/
def scanContinues (tableId : UInt16) (hi : Int64) (entry : KeyType × Bytes) : Bool :=
  decide (decodeTableId entry.1 = tableId) && decide (decodeRowKey entry.1 ≤ hi)

/-- A row with its engine key. -/
def keyedRow (tableId : UInt16) (entry : KeyType × Row) : KeyType × Row :=
  (encodeKey tableId entry.1, entry.2)

/-- The loop decodes what was stored and keeps what satisfies the residual. -/
lemma scanRows_eq {residual : Predicate} {hi : Int64} (keyed : Keyed schema.columns)
    (admissible : residual.all (Comparison.admissible schema.columns) = true)
    {rows : List (KeyType × Row)} (ok : ∀ entry ∈ rows, RowOk schema.columns entry.1 entry.2)
    (read : entries.takeWhile (scanContinues schema.tableId hi) =
      rows.map (storedEntry schema.tableId)) : scanRows schema hi residual entries =
      .ok ((rows.filter fun entry => satisfies schema.columns residual entry.2).map
        (keyedRow schema.tableId)) := by
  induction entries generalizing rows with
  | nil =>
    have empty : rows = [] := List.map_eq_nil_iff.mp read.symm
    subst empty
    rfl
  | cons entry rest ih =>
    obtain ⟨key, payload⟩ := entry
    cases goesOn : scanContinues schema.tableId hi (key, payload) with
    | false =>
      rw [List.takeWhile_cons_of_neg (by simp [goesOn])] at read
      have empty : rows = [] := List.map_eq_nil_iff.mp read.symm
      subst empty
      rw [scanRows]
      by_cases mine : decodeTableId key = schema.tableId
      · have above : hi < decodeRowKey key := by
          simpa [scanContinues, mine] using goesOn
        rw [if_neg (not_not.mpr mine), if_pos above]
        rfl
      · rw [if_pos mine]
        rfl
    | true =>
      rw [List.takeWhile_cons_of_pos goesOn] at read
      cases rows with
      | nil => cases read
      | cons head others =>
        rw [map_cons, List.cons.injEq] at read
        have headOk := ok head mem_cons_self
        have keyEq : key = encodeKey schema.tableId head.1 := (Prod.mk.inj read.1).1
        have payloadEq : payload = payloadOf head.2 := (Prod.mk.inj read.1).2
        have rowKey : decodeRowKey key = head.1 := by
          rw [keyEq, decodeRowKey_encodeKey _ headOk.inRange]
        have both := Bool.and_eq_true_iff.mp goesOn
        have mine : decodeTableId key = schema.tableId := of_decide_eq_true both.1
        have notAbove : ¬ hi < decodeRowKey key := not_lt.mpr (of_decide_eq_true both.2)
        have decoded : decodeRow schema (decodeRowKey key) payload = .ok head.2 := by
          rw [rowKey, payloadEq]
          exact decodeRow_payloadOf headOk.encodable headOk.first
        have tested := matchesPredicate_eq (headOk.wellTyped keyed) admissible
        have later := ih (fun other mem => ok other (mem_cons_of_mem _ mem)) read.2
        rw [scanRows, if_neg (not_not.mpr mine), if_neg notAbove]
        simp only [decoded, tested, later, bind, Except.bind, pure, Except.pure]
        cases passes : satisfies schema.columns residual head.2 <;>
          simp [passes, keyedRow, keyEq]

/-- The loop meets every entry of the table from the start up to the bound. -/
lemma takeWhile_scanContinues (contents : SortedMap KeyType Bytes) (tableId : UInt16)
    (start hi : Int64) :
    (contents.entriesFrom (encodeKey tableId start)).takeWhile (scanContinues tableId hi) =
      contents.entries.filter fun entry =>
        scanContinues tableId hi entry && decide (encodeKey tableId start ≤ entry.1) := by
  rw [(contents.ascending_entriesFrom _).takeWhile_eq_filter, SortedMap.entriesFrom,
    filter_filter]
  intro first firstMem second _ less goesOn
  have above := of_decide_eq_true (mem_filter.mp firstMem).2
  have both := Bool.and_eq_true_iff.mp goesOn
  have secondTable : decodeTableId second.1 = tableId := of_decide_eq_true both.1
  have firstTable : decodeTableId first.1 = decodeTableId second.1 :=
    decodeTableId_of_between above (le_of_lt less) (by rw [secondTable]; simp)
  have ordered := (le_iff_of_sameTable firstTable).mp (le_of_lt less)
  exact Bool.and_eq_true_iff.mpr ⟨decide_eq_true (firstTable.trans secondTable),
    decide_eq_true (le_trans ordered (of_decide_eq_true both.2))⟩

/-- A scan of a table reads its rows between the start and the upper bound. -/
lemma Represents.takeWhile_scan (rep : Represents contents schema table) (start hi : Int64) :
    (contents.entriesFrom (encodeKey schema.tableId start)).takeWhile
        (scanContinues schema.tableId hi) = (table.rows.entries.filter fun entry =>
        decide (encodeKey schema.tableId start ≤ encodeKey schema.tableId entry.1) &&
          decide (entry.1 ≤ hi)).map (storedEntry schema.tableId) := by
  have onRows : ∀ entry ∈ table.rows.entries, decodeRowKey (encodeKey schema.tableId entry.1) =
      entry.1 := fun entry mem => decodeRowKey_encodeKey _ (rep.rows entry mem).inRange
  rw [takeWhile_scanContinues]
  -- Test for the table first, and only then for the range.
  have reorder : (contents.entries.filter fun entry =>
      scanContinues schema.tableId hi entry &&
        decide (encodeKey schema.tableId start ≤ entry.1)) =
      (contents.entries.filter fun entry =>
        decide (decodeTableId entry.1 = schema.tableId)).filter fun entry =>
          decide (encodeKey schema.tableId start ≤ entry.1) &&
            decide (decodeRowKey entry.1 ≤ hi) := by
    rw [filter_filter]
    apply filter_congr
    intro entry _
    rw [scanContinues]
    cases decide (decodeTableId entry.1 = schema.tableId) <;>
      cases decide (encodeKey schema.tableId start ≤ entry.1) <;>
      cases decide (decodeRowKey entry.1 ≤ hi) <;> rfl
  rw [reorder, rep.entries_eq, List.filter_map]
  congr 1
  apply filter_congr
  intro entry mem
  simp only [Function.comp_apply, storedEntry, onRows entry mem]
  rfl

/-- The keys of a table decode to what was packed, are ordered as the primary keys and have no
key of another table between them; so a scan without upper bound meets exactly the entries of
the table from its start on, in the order of their primary keys. -/
theorem tables_contiguous (tableId : UInt16) :
    (∀ pk, InRange pk → decodeTableId (encodeKey tableId pk) = tableId ∧
      decodeRowKey (encodeKey tableId pk) = pk) ∧
    (∀ pk pk', InRange pk → InRange pk' →
      (encodeKey tableId pk < encodeKey tableId pk' ↔ pk < pk')) ∧
    (∀ pk pk' key, encodeKey tableId pk ≤ key → key ≤ encodeKey tableId pk' →
      ∃ between, InRange between ∧ key = encodeKey tableId between) ∧
    ∀ (contents : SortedMap KeyType Bytes) (lo : Int64), InRange lo →
      (contents.entriesFrom (encodeKey tableId lo)).takeWhile
          (scanContinues tableId Int64.maxValue) = (contents.entries.filter fun entry =>
        decide (decodeTableId entry.1 = tableId) && decide (lo ≤ decodeRowKey entry.1)) ∧
      ((contents.entries.filter fun entry =>
        decide (decodeTableId entry.1 = tableId)).map (decodeRowKey ·.1)).Pairwise (· < ·) := by
  refine ⟨?_, ?_, ?_, ?_⟩
  · exact fun pk inRange => ⟨decodeTableId_encodeKey _ _, decodeRowKey_encodeKey _ inRange⟩
  · intro pk pk' inRange inRange'
    rw [lt_iff_of_sameTable (by simp), decodeRowKey_encodeKey _ inRange,
      decodeRowKey_encodeKey _ inRange']
  · intro pk pk' key above below
    have mine := decodeTableId_of_between above below (by simp)
    rw [decodeTableId_encodeKey] at mine
    exact ⟨decodeRowKey key, inRange_decodeRowKey key, by rw [← mine, encodeKey_decode]⟩
  · intro contents lo inRange
    constructor
    · rw [takeWhile_scanContinues]
      apply filter_congr
      intro entry _
      by_cases mine : decodeTableId entry.1 = tableId
      · have same : decodeTableId (encodeKey tableId lo) = decodeTableId entry.1 := by simp [mine]
        simp [scanContinues, mine, le_iff_of_sameTable same, decodeRowKey_encodeKey _ inRange,
          Int64.le_maxValue]
      · simp [scanContinues, mine]
    · rw [pairwise_map]
      apply (contents.ascending.sublist filter_sublist).imp_of_mem
      intro left right leftMem rightMem less
      have leftTable := of_decide_eq_true (mem_filter.mp leftMem).2
      have rightTable := of_decide_eq_true (mem_filter.mp rightMem).2
      exact (lt_iff_of_sameTable (leftTable.trans rightTable.symm)).mp less

end

/-! ## Plans -/

variable {left right : Int64}

lemma le_sub_one_of_lt (less : left < right) : left ≤ right - 1 := by
  have least := left.le_toInt
  have most := right.toInt_lt
  have one : (1 : Int64).toInt = 1 := rfl
  rw [Int64.lt_iff_toInt_lt] at less
  rw [Int64.le_iff_toInt_le, Int64.toInt_sub, one, Int.bmod_eq_of_le (by omega) (by omega)]
  omega

lemma add_one_le_of_lt (less : left < right) : left + 1 ≤ right := by
  have least := left.le_toInt
  have most := right.toInt_lt
  have one : (1 : Int64).toInt = 1 := rfl
  rw [Int64.lt_iff_toInt_lt] at less
  rw [Int64.le_iff_toInt_le, Int64.toInt_add, one, Int.bmod_eq_of_le (by omega) (by omega)]
  omega

section

variable {primaryKey : ColumnDef} {rest : List ColumnDef}
variable {comparison : Comparison} {predicate whereClause : Predicate} {schema : TableSchema}

/-- An admissible comparison with the primary key has an integer literal, and compares
the primary key with it. -/
lemma primaryKey_comparison (isInteger : primaryKey.type = .integer)
    (admissible : comparison.admissible (primaryKey :: rest) = true)
    (onKey : comparison.column = primaryKey.name) :
    ∃ value, comparison.literal = .integer value ∧
      ∀ pk (row : Row), row.head? = some (.integer pk) →
        comparison.holds (primaryKey :: rest) row = comparison.op.test pk value := by
  have found : (primaryKey :: rest).find?
      (fun column => decide (column.name = comparison.column)) = some primaryKey := by
    simp [onKey]
  cases literal : comparison.literal with
  | text text => simp [Comparison.admissible, onKey, isInteger, literal, Value.type] at admissible
  | integer value =>
    refine ⟨value, rfl, ?_⟩
    intro pk row first
    simp only [Comparison.holds, onKey, cell_primaryKey first, literal]
    rfl

/-- Bounds that every row satisfying a comparison respects. -/
lemma Bounds.add_eq (bounds : Bounds) (isInteger : primaryKey.type = .integer)
    (admissible : comparison.admissible (primaryKey :: rest) = true) :
    ∃ after, bounds.add primaryKey.name comparison = .ok after ∧
      ∀ pk row, RowOk (primaryKey :: rest) pk row →
        comparison.holds (primaryKey :: rest) row = true →
        bounds.lo ≤ pk → pk ≤ bounds.hi → after.lo ≤ pk ∧ pk ≤ after.hi := by
  by_cases onKey : comparison.column = primaryKey.name
  · obtain ⟨value, literal, holds⟩ := primaryKey_comparison isInteger admissible onKey
    rw [Bounds.add, if_neg (not_not.mpr onKey), literal]
    cases op : comparison.op with
    | eq => exact ⟨bounds, rfl, fun _ _ _ _ low high => ⟨low, high⟩⟩
    | lt =>
      refine ⟨_, rfl, ?_⟩
      intro pk row ok passes low high
      rw [holds pk row ok.first, op] at passes
      have less : pk < value := of_decide_eq_true passes
      refine ⟨low, le_min high ?_⟩
      split
      · exact le_of_lt less
      · exact le_sub_one_of_lt less
    | le =>
      refine ⟨_, rfl, ?_⟩
      intro pk row ok passes low high
      rw [holds pk row ok.first, op] at passes
      exact ⟨low, le_min high (of_decide_eq_true passes)⟩
    | gt =>
      refine ⟨_, rfl, ?_⟩
      intro pk row ok passes low high
      rw [holds pk row ok.first, op] at passes
      have less : value < pk := of_decide_eq_true passes
      refine ⟨max_le low ?_, high⟩
      split
      · exact le_of_lt less
      · exact add_one_le_of_lt less
    | ge =>
      refine ⟨_, rfl, ?_⟩
      intro pk row ok passes low high
      rw [holds pk row ok.first, op] at passes
      exact ⟨max_le low (of_decide_eq_true passes), high⟩
  · exact ⟨bounds, if_pos onKey, fun _ _ _ _ low high => ⟨low, high⟩⟩

lemma Bounds.addAll_eq (bounds : Bounds) (isInteger : primaryKey.type = .integer)
    (admissible : predicate.all (Comparison.admissible (primaryKey :: rest)) = true) :
    ∃ after, Bounds.addAll primaryKey.name predicate bounds = .ok after ∧
      ∀ pk row, RowOk (primaryKey :: rest) pk row →
        satisfies (primaryKey :: rest) predicate row = true →
        bounds.lo ≤ pk → pk ≤ bounds.hi → after.lo ≤ pk ∧ pk ≤ after.hi := by
  induction predicate generalizing bounds with
  | nil => exact ⟨bounds, rfl, fun _ _ _ _ low high => ⟨low, high⟩⟩
  | cons comparison others ih =>
    rw [all_cons, Bool.and_eq_true] at admissible
    obtain ⟨middle, added, middleBounds⟩ := bounds.add_eq isInteger admissible.1
    obtain ⟨after, addedAll, afterBounds⟩ := ih middle admissible.2
    refine ⟨after, by simp only [Bounds.addAll, added, bind, Except.bind, addedAll], ?_⟩
    intro pk row ok passes low high
    rw [satisfies, all_cons, Bool.and_eq_true] at passes
    obtain ⟨middleLow, middleHigh⟩ := middleBounds pk row ok passes.1 low high
    exact afterBounds pk row ok passes.2 middleLow middleHigh

/-- Equality with the primary key is only tested against keys a row may have. -/
def KeyLiteralsInRange (columns : List ColumnDef) (whereClause : Predicate) : Prop :=
  ∀ comparison ∈ whereClause, comparison.op = .eq →
    columns.head?.map ColumnDef.name = some comparison.column →
    ∀ value, comparison.literal = .integer value → InRange value

/-- The literal of the first equality with the primary key. -/
def keyLiteral (columns : List ColumnDef) (whereClause : Predicate) : Option Value :=
  (whereClause.find? fun comparison =>
    decide (some comparison.column = columns.head?.map ColumnDef.name) &&
      decide (comparison.op = .eq)).map Comparison.literal

/-- A point lookup is for that literal, and leaves the other comparisons to be tested. -/
structure PointFor (columns : List ColumnDef) (whereClause : Predicate) (plan : Plan) : Prop where
  isPoint : plan.accessPath = .pointLookup
  literal : keyLiteral columns whereClause = some (.integer plan.pointKey)
  admissible : plan.residual.all (Comparison.admissible columns) = true
  exact : ∀ pk (row : Row), row.head? = some (.integer pk) → satisfies columns whereClause row =
    (decide (pk = plan.pointKey) && satisfies columns plan.residual row)

/-- What a plan must do to be a plan of a `WHERE` clause. -/
inductive PlanFor (columns : List ColumnDef) (whereClause : Predicate) : Plan → Prop where
  | point {plan : Plan} (point : PointFor columns whereClause plan)
      (inRange : InRange plan.pointKey) : PlanFor columns whereClause plan
  | scan {plan : Plan} (isScan : plan.accessPath ≠ .pointLookup)
      (residual : plan.residual = whereClause)
      (covers : ∀ pk row, RowOk columns pk row →
        satisfies columns whereClause row = true →
        0 ≤ plan.scanRange.1 ∧ plan.scanRange.1 ≤ pk ∧ pk ≤ plan.scanRange.2) :
      PlanFor columns whereClause plan

lemma satisfies_eraseIdx (found : predicate[index]? = some comparison) :
    satisfies columns predicate row = (comparison.holds columns row &&
      satisfies columns (predicate.eraseIdx index) row) := by
  induction predicate generalizing index with
  | nil => simp at found
  | cons head others ih =>
    cases index with
    | zero =>
      simp only [List.getElem?_cons_zero, some.injEq] at found
      subst found
      rfl
    | succ index =>
      simp only [List.getElem?_cons_succ] at found
      have later := ih found
      simp only [satisfies, all_cons, List.eraseIdx_cons_succ] at later ⊢
      rw [later]
      cases head.holds columns row <;> simp

lemma all_eraseIdx (index : Nat) (all : predicate.all test = true) :
    (predicate.eraseIdx index).all test = true := by
  rw [all_eq_true] at all ⊢
  intro comparison mem
  exact all comparison ((List.eraseIdx_sublist _ _).subset mem)

/-- The plan that reads the whole table. -/
lemma planFor_fullScan (columns : List ColumnDef) (whereClause : Predicate) :
    PlanFor columns whereClause { accessPath := .fullScan, residual := whereClause } := by
  refine .scan (by simp) rfl ?_
  intro pk row ok _
  exact ⟨le_rfl, ok.inRange.1, Int64.le_maxValue pk⟩

/-- Every admissible `WHERE` clause gets a plan, a point lookup if it has an equality with the
primary key. -/
lemma planQuery_cases (keyed : Keyed schema.columns)
    (admissible : whereClause.all (Comparison.admissible schema.columns) = true) :
    ∃ plan, planQuery schema whereClause = .ok plan ∧
      (PointFor schema.columns whereClause plan ∨ keyLiteral schema.columns whereClause = none ∧
        plan.accessPath ≠ .pointLookup ∧ PlanFor schema.columns whereClause plan) := by
  obtain ⟨primaryKey, rest, columns, isInteger⟩ := keyed.cons
  have validated : validateAll schema whereClause = .ok () := by
    rcases validateAll_eq schema whereClause with ⟨_, passed⟩ | ⟨refused, _⟩
    · exact passed
    · rw [admissible] at refused
      cases refused
  rw [columns] at admissible ⊢
  have literal : keyLiteral (primaryKey :: rest) whereClause =
      (whereClause.find? (isPointLookup primaryKey.name)).map Comparison.literal := by
    have test : (fun comparison : Comparison =>
        decide (some comparison.column = (primaryKey :: rest).head?.map ColumnDef.name) &&
          decide (comparison.op = .eq)) = isPointLookup primaryKey.name := by
      funext comparison
      simp [isPointLookup]
    rw [keyLiteral, test]
  rw [List.find?_eq_bind_findIdx?_getElem?] at literal
  simp only [planQuery, validated, columns, bind, Except.bind]
  cases found : whereClause.findIdx? (isPointLookup primaryKey.name) with
  | some index =>
    obtain ⟨inBounds, isPoint, _⟩ := List.findIdx?_eq_some_iff_getElem.mp found
    have atIndex : whereClause[index]? = some whereClause[index] := getElem?_eq_getElem inBounds
    have both := Bool.and_eq_true_iff.mp isPoint
    obtain ⟨value, isValue, holds⟩ := primaryKey_comparison isInteger
      (all_eq_true.mp admissible _ (getElem_mem inBounds)) (of_decide_eq_true both.1)
    simp only [atIndex, isValue, Value.getInteger]
    refine ⟨_, rfl, .inl ⟨rfl, ?_, all_eraseIdx index admissible, ?_⟩⟩
    · rw [literal, found]
      simpa [atIndex] using isValue
    · intro pk row first
      rw [satisfies_eraseIdx atIndex, holds pk row first, of_decide_eq_true both.2]
      rfl
  | none =>
    obtain ⟨bounds, added, respects⟩ := Bounds.addAll_eq {} isInteger admissible
    have within : ∀ pk row, RowOk (primaryKey :: rest) pk row →
        satisfies (primaryKey :: rest) whereClause row = true →
        bounds.lo ≤ pk ∧ pk ≤ bounds.hi := by
      intro pk row ok passes
      exact respects pk row ok passes ok.inRange.1 (Int64.le_maxValue pk)
    have missing : keyLiteral (primaryKey :: rest) whereClause = none := by simp [literal, found]
    simp only [added]
    cases bounds.foundBound with
    | true =>
      refine ⟨_, rfl, .inr ⟨missing, by simp, .scan (by simp) rfl ?_⟩⟩
      intro pk row ok passes
      exact ⟨le_max_right _ _, max_le (within pk row ok passes).1 ok.inRange.1,
        (within pk row ok passes).2⟩
    | false => exact ⟨_, rfl, .inr ⟨missing, by simp, planFor_fullScan _ _⟩⟩

/-- The plan is a plan of the clause, if equality is tested against keys in range only. -/
lemma planQuery_eq (keyed : Keyed schema.columns)
    (admissible : whereClause.all (Comparison.admissible schema.columns) = true)
    (literals : KeyLiteralsInRange schema.columns whereClause) :
    ∃ plan, planQuery schema whereClause = .ok plan ∧
      PlanFor schema.columns whereClause plan := by
  obtain ⟨plan, planned, point | ⟨-, -, planFor⟩⟩ := planQuery_cases keyed admissible
  · obtain ⟨comparison, found, isLiteral⟩ := map_eq_some_iff.mp point.literal
    have mem := List.mem_of_find?_eq_some found
    have passes := List.find?_some found
    have both := Bool.and_eq_true_iff.mp passes
    exact ⟨plan, planned, .point point (literals comparison mem (of_decide_eq_true both.2)
      (of_decide_eq_true both.1).symm _ isLiteral)⟩
  · exact ⟨plan, planned, planFor⟩

/-- An inadmissible one is refused. -/
lemma planQuery_error
    (inadmissible : whereClause.all (Comparison.admissible schema.columns) = false) :
    ∃ message, planQuery schema whereClause = .error (.sqlException message) := by
  rcases validateAll_eq schema whereClause with ⟨admissible, _⟩ | ⟨_, message, failed⟩
  · rw [inadmissible] at admissible
    cases admissible
  · exact ⟨message, by simp only [planQuery, failed, bind, Except.bind]⟩

end

/-! ## What a plan fetches -/

section

variable {State : Type} {engine : StorageEngine State} {schema : TableSchema} {table : Table}

/-- The rows of a table that satisfy a `WHERE` clause, under their engine keys. -/
def Table.fetched (table : Table) (tableId : UInt16) (whereClause : Predicate) :
    List (KeyType × Row) :=
  (table.matching whereClause).map (keyedRow tableId)

variable {state : State} {whereClause : Predicate} {plan : Plan}

lemma encodeKey_masked (tableId : UInt16) (value : Int64) :
    encodeKey tableId (decodeRowKey value) = encodeKey tableId value := by
  apply keyBits_inj
  rw [keyBits_encodeKey, keyBits_encodeKey, keyBits_decodeRowKey, Nat.mod_mod]

section

variable (map : engine.OrderedMap) (rep : Represents (map.contents state) schema table)
include map rep

/-- A point lookup finds the row at the masked key and shows it under the literal. -/
lemma fetchEntries_point (point : PointFor table.columns whereClause plan) :
    (fetchEntries engine schema plan state).1 =
        .ok ((((table.rows.lookup (decodeRowKey plan.pointKey)).map fun row : Row =>
          .integer plan.pointKey :: row.tail).filter (satisfies table.columns whereClause)).map
            (Prod.mk (encodeKey schema.tableId plan.pointKey))).toList ∧
      map.contents (fetchEntries engine schema plan state).2 = map.contents state := by
  have got := map.get_eq (encodeKey schema.tableId plan.pointKey) state
  have kept := map.get_contents (encodeKey schema.tableId plan.pointKey) state
  rw [← encodeKey_masked, rep.stored _ (inRange_decodeRowKey _), encodeKey_masked] at got
  cases found : table.rows.lookup (decodeRowKey plan.pointKey) with
  | none =>
    rw [found] at got
    simp only [fetchEntries, point.isPoint, if_true, got, Option.map_none]
    exact ⟨rfl, kept⟩
  | some row =>
    have ok : RowOk table.columns (decodeRowKey plan.pointKey) row :=
      rep.rows _ (SortedMap.lookup_eq_some.mp found)
    obtain ⟨rest, rfl⟩ := ok.cons
    have typed : WellTyped table.columns (.integer plan.pointKey :: rest) := by
      obtain ⟨primaryKey, others, columns, isInteger⟩ := rep.keyed.cons
      rw [columns] at ok ⊢
      exact .cons isInteger.symm ok.encodable.2.1
    have decoded : decodeRow schema plan.pointKey
        (payloadOf (.integer (decodeRowKey plan.pointKey) :: rest)) =
          .ok (.integer plan.pointKey :: rest) := by
      have encodable : Encodable schema.columns (.integer plan.pointKey :: rest) :=
        rep.columns ▸ ok.encodable
      exact decodeRow_payloadOf encodable rfl
    have shown := point.exact plan.pointKey (.integer plan.pointKey :: rest) rfl
    rw [decide_eq_true rfl, Bool.true_and] at shown
    have admissible := point.admissible
    rw [← rep.columns] at typed admissible shown ⊢
    have tested := matchesPredicate_eq typed admissible
    rw [found] at got
    simp only [fetchEntries, point.isPoint, if_true, got, map_some, decoded, tested, ← shown, bind,
      Except.bind, pure, Except.pure, List.tail_cons]
    refine ⟨?_, kept⟩
    cases passes : satisfies schema.columns whereClause (.integer plan.pointKey :: rest) <;>
      simp [Option.filter, passes]

lemma fetchEntries_scan (isScan : plan.accessPath ≠ .pointLookup)
    (residual : plan.residual = whereClause)
    (admissible : whereClause.all (Comparison.admissible table.columns) = true)
    (covers : ∀ pk row, RowOk table.columns pk row → satisfies table.columns whereClause row =
      true → 0 ≤ plan.scanRange.1 ∧ plan.scanRange.1 ≤ pk ∧ pk ≤ plan.scanRange.2) :
    (fetchEntries engine schema plan state).1 = .ok (table.fetched schema.tableId whereClause) := by
  have scanned := map.scan_eq (encodeKey schema.tableId plan.scanRange.1) state
  have read := rep.takeWhile_scan plan.scanRange.1 plan.scanRange.2
  have keyed : Keyed schema.columns := by rw [rep.columns]; exact rep.keyed
  have admissible' : whereClause.all (Comparison.admissible schema.columns) = true := by
    rw [rep.columns]
    exact admissible
  have loop := scanRows_eq keyed admissible' (fun entry mem => by
    rw [rep.columns]
    exact rep.rows entry (List.mem_of_mem_filter mem)) read
  simp only [fetchEntries, isScan, if_false, scanned, residual, loop]
  rw [Table.fetched, Table.matching, filter_filter, rep.columns]
  congr 2
  apply filter_congr
  intro entry mem
  have ok := rep.rows entry mem
  cases passes : satisfies table.columns whereClause entry.2 with
  | false => rfl
  | true =>
    -- A matching row lies in the range, so the range test does not drop it.
    obtain ⟨positive, low, high⟩ := covers entry.1 entry.2 ok passes
    have startRange : InRange plan.scanRange.1 := ⟨positive, le_trans low ok.inRange.2⟩
    have started : encodeKey schema.tableId plan.scanRange.1 ≤
        encodeKey schema.tableId entry.1 := by
      rw [le_iff_of_sameTable (by simp), decodeRowKey_encodeKey _ startRange,
        decodeRowKey_encodeKey _ ok.inRange]
      exact low
    rw [Bool.true_and, decide_eq_true started, decide_eq_true high]
    rfl

/-- Every plan of a `WHERE` clause fetches exactly the matching rows. -/
lemma fetchEntries_eq (admissible : whereClause.all (Comparison.admissible table.columns) = true)
    (planned : PlanFor table.columns whereClause plan) : (fetchEntries engine schema plan state).1 =
        .ok (table.fetched schema.tableId whereClause) ∧
      map.contents (fetchEntries engine schema plan state).2 = map.contents state := by
  cases planned with
  | point point inRange =>
    obtain ⟨fetched, kept⟩ := fetchEntries_point map rep point
    have selected : table.matching whereClause = (((table.rows.lookup plan.pointKey).filter
          (satisfies table.columns plan.residual)).map (Prod.mk plan.pointKey)).toList := by
      refine Eq.trans ?_ (table.rows.ascending.filter_key_eq plan.pointKey
        (satisfies table.columns plan.residual))
      apply filter_congr
      intro entry mem
      exact point.exact entry.1 entry.2 (rep.rows entry mem).first
    have same : decodeRowKey plan.pointKey = plan.pointKey := by
      rw [← decodeRowKey_encodeKey schema.tableId (inRange_decodeRowKey plan.pointKey),
        encodeKey_masked, decodeRowKey_encodeKey _ inRange]
    refine ⟨fetched.trans (congrArg _ ?_), kept⟩
    rw [Table.fetched, selected, same]
    cases found : table.rows.lookup plan.pointKey with
    | none => rfl
    | some row =>
      have ok : RowOk table.columns plan.pointKey row :=
        rep.rows _ (SortedMap.lookup_eq_some.mp found)
      obtain ⟨rest, rfl⟩ := ok.cons
      have shown := point.exact plan.pointKey (.integer plan.pointKey :: rest) rfl
      rw [decide_eq_true rfl, Bool.true_and] at shown
      cases passes : satisfies table.columns plan.residual (.integer plan.pointKey :: rest) <;>
        simp [Option.filter, shown, passes, keyedRow]
  | scan isScan residual covers =>
    refine ⟨fetchEntries_scan map rep isScan residual admissible covers, ?_⟩
    have kept := map.scan_contents (encodeKey schema.tableId plan.scanRange.1) state
    simp only [fetchEntries, isScan, if_false]
    exact kept

end

end

end DbEngine.Sql
