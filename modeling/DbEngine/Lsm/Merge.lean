import DbEngine.Lsm.MergeIterator

/-!
# Merging tables

The loop of a compaction that reads a merge iterator to its end: it writes one entry for
each key of the tables, the newest one.
-/

namespace DbEngine.Lsm

open Lib

namespace LSMMergeIterator

/-- What an iterator delivers until it is no longer valid, with fuel for that many entries. -/
def collect (list : Entries) : Nat → LSMMergeIterator → List (KeyType × LSMValue)
  | 0, _ => []
  | fuel + 1, iterator =>
    match iterator.current with
    | none => []
    | some entry => entry :: collect list fuel (iterator.advance list)

variable {list : Entries} {iterator : LSMMergeIterator} {left : KeyType → Option LSMValue}

/-- An iterator with nothing left stays invalid. -/
lemma stays_invalid (ok : iterator.Ok list)
    (delivers : Delivers left iterator.current (iterator.find list ·))
    (stopped : iterator.current = none) (step : Nat) :
    ((advance list)^[step] iterator).current = none := by
  induction step generalizing iterator left with
  | zero => exact stopped
  | succ step ih =>
    obtain ⟨ok', delivers'⟩ := ok.advance
    cases moved : (iterator.advance list).current with
    | none => exact ih ok' delivers' moved
    | some entry =>
      rw [stopped] at delivers
      rw [moved, ← delivers.same] at delivers'
      have found := delivers'.least.1
      rw [delivers.nothing] at found
      cases found

lemma collect_spec (ok : iterator.Ok list)
    (delivers : Delivers left iterator.current (iterator.find list ·)) {fuel : Nat}
    (enough : iterator.current ≠ none → iterator.size list < fuel) :
    (∀ step, ((advance list)^[step] iterator).current = (iterator.collect list fuel)[step]?) ∧
      Ascending (iterator.collect list fuel) ∧
      ∀ key, lookupEntry key (iterator.collect list fuel) = left key := by
  -- By induction on the fuel; what is left shrinks with every entry.
  induction fuel generalizing iterator left with
  | zero =>
    have stopped : iterator.current = none :=
      Classical.not_not.mp fun valid => Nat.not_lt_zero _ (enough valid)
    refine ⟨stays_invalid ok delivers stopped, ascending_nil, ?_⟩
    rw [stopped] at delivers
    exact fun key => (delivers.nothing key).symm
  | succ fuel ih =>
    rw [collect]
    obtain ⟨ok', delivers'⟩ := ok.advance
    cases current : iterator.current with
    | none =>
      refine ⟨stays_invalid ok delivers current, ascending_nil, ?_⟩
      rw [current] at delivers
      exact fun key => (delivers.nothing key).symm
    | some entry =>
      have fewer : (iterator.advance list).current ≠ none →
          (iterator.advance list).size list < fuel := by
        intro valid
        have bound := enough (current ▸ some_ne_none entry)
        have less := ok.size_advance valid
        omega
      obtain ⟨steps, ascending, lookups⟩ := ih ok' delivers' fewer
      rw [current] at delivers
      obtain ⟨here, first, rest⟩ := delivers.least
      refine ⟨?_, ?_, ?_⟩
      · intro step
        cases step with
        | zero => exact current
        | succ step => exact steps step
      · refine ascending_cons.mpr ⟨?_, ascending⟩
        intro other mem
        by_contra early
        have found := ascending.lookupEntry_eq_some.mpr mem
        rw [lookups, rest, if_pos (not_lt.mp early)] at found
        cases found
      · intro query
        by_cases same : query = entry.1
        · subst same
          rw [here]
          exact lookupEntry_cons_self
        · rw [lookupEntry_cons_of_ne (Ne.symm same), lookups, rest]
          split
          next early => exact (first query (lt_of_le_of_ne early same)).symm
          · rfl

/-- Whatever sorted runs the cursors read, the iterator stands on the entries of one sorted
list, one after the other, and behind them it is invalid: an entry for each key of some
cursor, with the value of the first cursor that has it. -/
theorem priority_merge {cursors : List LSMCursor} (ok : ∀ cursor ∈ cursors, cursor.Ok list) :
    ∃ produced : List (KeyType × LSMValue),
      (∀ step, ((advance list)^[step] (new list cursors)).current = produced[step]?) ∧
      Ascending produced ∧
      ∀ key, lookupEntry key produced = cursors.findSome? (LSMCursor.find list key) :=
  have started := new_ok ok
  ⟨_, collect_spec started.1 started.2 fun _ => Nat.lt_succ_self _⟩

/-- Two runs with a key in common. -/
def overlapping : List LSMCursor :=
  [.ssTable [(1, { number := 3, deleted := true }), (4, { number := 2 })],
    .ssTable [(1, { number := 0 }), (2, { number := 1 })]]

theorem priority_merge_overlapping :
    (∀ cursor ∈ overlapping, cursor.Ok .empty) ∧
      ∃ produced : List (KeyType × LSMValue),
        (∀ step, ((advance .empty)^[step] (new .empty overlapping)).current = produced[step]?) ∧
        Ascending produced ∧
        ∀ key, lookupEntry key produced = overlapping.findSome? (LSMCursor.find .empty key) := by
  have ok : ∀ cursor ∈ overlapping, cursor.Ok .empty := by
    intro cursor member
    fin_cases member <;> simp [LSMCursor.Ok, Ascending]
  exact ⟨ok, priority_merge ok⟩

end LSMMergeIterator

/-- What the merge iterator delivers over tables, the newest table first. -/
def mergeTables (tables : List SSTable) : List (KeyType × LSMValue) :=
  let merge := LSMMergeIterator.new .empty
    (tables.map fun table => .ssTable (table.newIterator INVALID_KEY))
  merge.collect .empty (merge.size .empty + 1)

lemma mergeTables_spec (tables : List SSTable) : Ascending (mergeTables tables) ∧
      ∀ key, lookupEntry key (mergeTables tables) = resolve (tables.map SSTable.entries) key := by
  let cursors := tables.map fun table => LSMCursor.ssTable (table.newIterator INVALID_KEY)
  have whole (table : SSTable) : table.newIterator INVALID_KEY = table.entries.entries := by
    rw [SSTable.newIterator_eq]
    apply filter_eq_self.mpr
    intro entry _
    exact decide_eq_true (INVALID_KEY_le entry.1)
  have ok : ∀ cursor ∈ cursors, cursor.Ok .empty := by
    intro cursor mem
    obtain ⟨table, -, rfl⟩ := mem_map.mp mem
    rw [whole]
    exact table.entries.ascending
  obtain ⟨newOk, delivers⟩ := LSMMergeIterator.new_ok ok
  obtain ⟨-, ascending, lookups⟩ :=
    LSMMergeIterator.collect_spec newOk delivers fun _ => Nat.lt_succ_self _
  refine ⟨ascending, ?_⟩
  intro key
  refine (lookups key).trans ?_
  rw [findSome?_map, resolve, findSome?_map]
  apply LSMMergeIterator.findSome?_congr
  intro table _
  simp only [Function.comp_apply, LSMCursor.find, whole]
  rfl

/-- What a compaction writes: tombstones are left out of the bottommost tier. -/
def compacted (tables : List SSTable) (bottommost : Bool) : Entries where
  entries := (mergeTables tables).filter fun entry => !(entry.2.deleted && bottommost)
  ascending := (mergeTables_spec tables).1.sublist filter_sublist

lemma lookup_compacted (tables : List SSTable) (bottommost : Bool) (key : KeyType) :
    (compacted tables bottommost).lookup key =
      (resolve (tables.map SSTable.entries) key).filter fun value =>
        !(value.deleted && bottommost) := by
  rw [← (mergeTables_spec tables).2 key]
  exact (mergeTables_spec tables).1.lookupEntry_filter _

end DbEngine.Lsm
