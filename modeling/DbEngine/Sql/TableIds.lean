import DbEngine.Common.Lists
import DbEngine.Sql.Packing

/-!
# The ids a catalog hands out

`Catalog::CreateTable` numbers the tables with a 16-bit counter and compares it, promoted
to `int`, with `kMaxTables`.  The comparison never succeeds, so the ids are those of a
counter that wraps: distinct for the first `kMaxTables` tables, and repeated afterwards.
-/

namespace DbEngine.Sql

/-- The arguments of a call of `CreateTable`. -/
abbrev CreateCall := String × List ColumnDef

/-- The catalog a call of `CreateTable` leaves; an exception leaves it as it was. -/
def Catalog.created (catalog : Catalog) (call : CreateCall) : Catalog :=
  match catalog.createTable call.1 call.2 with
  | .ok catalog' => catalog'
  | .error _ => catalog

/-- The catalog after a sequence of calls on a new one. -/
def createTables (calls : List CreateCall) : Catalog :=
  calls.foldl Catalog.created {}

lemma createTables_append (calls : List CreateCall) (call : CreateCall) :
    createTables (calls ++ [call]) = (createTables calls).created call := by
  simp [createTables]

/-- The counter is below the limit whatever it has counted. -/
lemma Catalog.createTable_fresh (catalog : Catalog) {name : String}
    (fresh : catalog.find name = none) (columns : List ColumnDef) :
    catalog.createTable name columns =
      .ok { tables := catalog.tables ++ [⟨name, catalog.nextTableId, columns⟩]
            nextTableId := catalog.nextTableId + 1 } := by
  have below : ¬ kMaxTables ≤ catalog.nextTableId.toNat := not_le.mpr catalog.nextTableId.toNat_lt
  simp [Catalog.createTable, fresh, below]

/-- A call leaves the catalog alone, or adds a table under the next id. -/
lemma Catalog.created_cases (catalog : Catalog) (call : CreateCall) :
    catalog.created call = catalog ∨
    catalog.created call =
      { tables := catalog.tables ++ [⟨call.1, catalog.nextTableId, call.2⟩]
        nextTableId := catalog.nextTableId + 1 } := by
  cases found : catalog.find call.1 with
  | some schema =>
    left
    simp [Catalog.created, Catalog.createTable, found]
  | none =>
    right
    simp only [Catalog.created, catalog.createTable_fresh found]

/-- Ids in the order of creation, as the counter has wrapped. -/
structure Catalog.Numbered (catalog : Catalog) : Prop where
  ids : (catalog.tables.map fun schema => schema.tableId.toNat) =
    (range catalog.tables.length).map (· % kMaxTables)
  next : catalog.nextTableId.toNat = catalog.tables.length % kMaxTables

lemma Catalog.Numbered.created {catalog : Catalog} (numbered : catalog.Numbered)
    (call : CreateCall) : (catalog.created call).Numbered := by
  rcases catalog.created_cases call with same | added
  · rw [same]
    exact numbered
  · rw [added]
    constructor
    · simp [numbered.ids, numbered.next, range_succ]
    · have plusOne : (catalog.nextTableId + 1).toNat =
          (catalog.nextTableId.toNat + 1) % kMaxTables := UInt16.toNat_add _ _
      rw [plusOne, numbered.next, length_append, Nat.mod_add_mod]
      rfl

lemma createTables_numbered (calls : List CreateCall) : (createTables calls).Numbered := by
  induction calls using reverseRecOn with
  | nil => exact ⟨rfl, rfl⟩
  | append_singleton calls call numbered =>
    rw [createTables_append]
    exact numbered.created call

lemma Catalog.length_created_le (catalog : Catalog) (call : CreateCall) :
    (catalog.created call).tables.length ≤ catalog.tables.length + 1 := by
  rcases catalog.created_cases call with same | added
  · rw [same]
    exact Nat.le_succ _
  · simp [added]

lemma length_createTables_le (calls : List CreateCall) :
    (createTables calls).tables.length ≤ calls.length := by
  induction calls using reverseRecOn with
  | nil => exact le_rfl
  | append_singleton calls call bound =>
    rw [createTables_append, length_append]
    exact le_trans (Catalog.length_created_le _ call) (Nat.succ_le_succ bound)

/-- Up to the limit the ids tell the tables apart. -/
lemma Catalog.Numbered.pairwise {catalog : Catalog} (numbered : catalog.Numbered)
    (few : catalog.tables.length ≤ kMaxTables) :
    catalog.tables.Pairwise fun left right => left.tableId ≠ right.tableId := by
  have small : ∀ id ∈ range catalog.tables.length, id % kMaxTables = id := by
    intro id mem
    exact Nat.mod_eq_of_lt (lt_of_lt_of_le (mem_range.mp mem) few)
  have distinct : (catalog.tables.map fun schema => schema.tableId.toNat).Nodup := by
    rw [numbered.ids, map_congr_left small, List.map_id']
    exact List.nodup_range
  apply (pairwise_map.mp distinct).imp
  intro left right ne same
  exact ne (congrArg UInt16.toNat same)

/-- Keys of different tables differ, whatever the primary keys. -/
lemma encodeKey_ne {left right : UInt16} (ne : left ≠ right) (leftPk rightPk : Int64) :
    encodeKey left leftPk ≠ encodeKey right rightPk := by
  intro same
  apply ne
  rw [← decodeTableId_encodeKey left leftPk, same, decodeTableId_encodeKey]

/-- As long as every call finds fewer than `kMaxTables` tables, any two tables have
different ids, and no key of one is a key of the other. -/
theorem tableIds_distinct (calls : List CreateCall)
    (room : ∀ earlier call later, calls = earlier ++ call :: later →
      (createTables earlier).tables.length < kMaxTables) :
    (createTables calls).tables.Pairwise fun left right =>
      left.tableId ≠ right.tableId ∧
        ∀ leftPk rightPk, encodeKey left.tableId leftPk ≠ encodeKey right.tableId rightPk := by
  have few : (createTables calls).tables.length ≤ kMaxTables := by
    induction calls using reverseRecOn with
    | nil => exact Nat.zero_le _
    | append_singleton calls call _ =>
      rw [createTables_append]
      exact le_trans (Catalog.length_created_le _ call) (room calls call [] rfl)
  apply ((createTables_numbered calls).pairwise few).imp
  intro left right different
  exact ⟨different, encodeKey_ne different⟩

theorem tableIds_distinct_twoTables :
    (createTables [("users", []), ("users", []), ("orders", [])]).tables.Pairwise
      fun left right => left.tableId ≠ right.tableId ∧
        ∀ leftPk rightPk, encodeKey left.tableId leftPk ≠ encodeKey right.tableId rightPk := by
  apply tableIds_distinct
  intro earlier call later split
  have short := length_createTables_le earlier
  have lengths := congrArg List.length split
  simp only [length_cons, length_append, length_nil] at lengths
  have limit : kMaxTables = 65536 := rfl
  omega

/-! ## Past the limit -/

/-- `number` calls under as many names. -/
def manyTables (number : Nat) : List CreateCall :=
  (range number).map fun index => (String.ofList (replicate index 'a'), [])

lemma names_createTables (number : Nat) :
    (createTables (manyTables number)).tables.map TableSchema.name =
      (manyTables number).map Prod.fst := by
  induction number with
  | zero => rfl
  | succ number names =>
    have more : manyTables (number + 1) = manyTables number ++
        [(String.ofList (replicate number 'a'), [])] := by
      simp [manyTables, range_succ]
    have fresh : (createTables (manyTables number)).find
        (String.ofList (replicate number 'a')) = none := by
      apply find?_eq_none.mpr
      intro schema mem
      have listed : schema.name ∈ (manyTables number).map Prod.fst := by
        rw [← names]
        exact mem_map_of_mem mem
      simp only [manyTables, map_map, mem_map, mem_range] at listed
      obtain ⟨index, below, named⟩ := listed
      simp only [Function.comp_apply] at named
      rw [decide_eq_true_iff, ← named, String.ofList_inj]
      intro same
      have lengths := congrArg List.length same
      simp only [List.length_replicate] at lengths
      exact absurd lengths (Nat.ne_of_lt below)
    rw [more, createTables_append, Catalog.created, Catalog.createTable_fresh _ fresh]
    simp [names]

/-- With `kMaxTables` tables in the catalog, a further call is accepted and its table
gets the id of the first one. -/
theorem tableIds_repeat :
    (createTables (manyTables kMaxTables)).tables.length = kMaxTables ∧
    (createTables (manyTables (kMaxTables + 1))).tables.length = kMaxTables + 1 ∧
    ¬ (createTables (manyTables (kMaxTables + 1))).tables.Pairwise fun left right =>
      left.tableId ≠ right.tableId := by
  have count : ∀ number, (createTables (manyTables number)).tables.length = number := by
    intro number
    have lengths := congrArg List.length (names_createTables number)
    simpa [manyTables] using lengths
  refine ⟨count _, count _, ?_⟩
  intro distinct
  have ids : ((createTables (manyTables (kMaxTables + 1))).tables.map
      fun schema => schema.tableId.toNat).Nodup := by
    apply pairwise_map.mpr
    apply distinct.imp
    intro left right different same
    exact different (UInt16.toNat_inj.mp same)
  rw [(createTables_numbered _).ids, count] at ids
  have same := inj_on_of_nodup_map ids (mem_range.mpr (Nat.succ_pos kMaxTables))
    (mem_range.mpr (Nat.lt_succ_self kMaxTables)) (Nat.mod_self kMaxTables).symm
  exact absurd same (by decide)

end DbEngine.Sql
