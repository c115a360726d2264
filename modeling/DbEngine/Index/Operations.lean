import DbEngine.Index.Insert
import DbEngine.Index.Remove
import DbEngine.Index.Scan

/-!
# The tree as an ordered map

A run of tree operations over any page store answers as an ordered map does.
-/

namespace DbEngine.Index

open Lib BPlusTree Tree

/-- A call on the tree.  A scan is `Begin()` or `Begin(key)` and an iteration to the end. -/
inductive TreeOp where
  | insert (key : KeyType) (value : Bytes)
  | remove (key : KeyType)
  | getValue (key : KeyType)
  | scan (start : Option KeyType)
  deriving Repr, DecidableEq

/-- What a call returns. -/
inductive TreeOutcome where
  | inserted (isNew : Bool)
  | removed (wasThere : Bool)
  | found (value : Option Bytes)
  | shown (entries : List (KeyType × Bytes))
  deriving Repr, DecidableEq

namespace TreeOp

/-- A call, and the root afterwards. -/
def perform (config : TreeConfig) (fuel : Nat) (root : Option PageId) :
    TreeOp → TreeProg (TreeOutcome × Option PageId)
  | .insert key value => do
    let (isNew, root) ← BPlusTree.insert config fuel root key value
    return (.inserted isNew, root)
  | .remove key => do
    let (wasThere, root) ← BPlusTree.remove config fuel root key
    return (.removed wasThere, root)
  | .getValue key => do
    let value ← BPlusTree.getValue fuel root key
    return (.found value, root)
  | .scan none => do
    let entries ← beginFirst fuel root >>= collect fuel
    return (.shown entries, root)
  | .scan (some start) => do
    let entries ← beginAt fuel root start >>= collect fuel
    return (.shown entries, root)

/-- Calls in a row. -/
def performAll (config : TreeConfig) (fuel : Nat) (root : Option PageId) :
    List TreeOp → TreeProg (List TreeOutcome × Option PageId)
  | [] => return ([], root)
  | op :: rest => do
    let (outcome, root) ← op.perform config fuel root
    let (outcomes, root) ← performAll config fuel root rest
    return (outcome :: outcomes, root)

/-- What an ordered map answers, and the map afterwards. -/
def answer (map : SortedMap KeyType Bytes) : TreeOp → TreeOutcome × SortedMap KeyType Bytes
  | .insert key value => (.inserted (map.lookup key).isNone, map.insert key value)
  | .remove key => (.removed (map.lookup key).isSome, map.erase key)
  | .getValue key => (.found (map.lookup key), map)
  | .scan none => (.shown map.entries, map)
  | .scan (some start) => (.shown (map.entriesFrom start), map)

def answerAll (map : SortedMap KeyType Bytes) :
    List TreeOp → List TreeOutcome × SortedMap KeyType Bytes
  | [] => ([], map)
  | op :: rest =>
    let (outcome, map) := op.answer map
    let (outcomes, map) := answerAll map rest
    (outcome :: outcomes, map)

/-- Values the tree accepts. -/
def Small : TreeOp → Prop
  | .insert _ value => value.length ≤ MAX_VALUE_SIZE
  | _ => True

instance (op : TreeOp) : Decidable op.Small :=
  match op with
  | .insert _ value => inferInstanceAs (Decidable (value.length ≤ MAX_VALUE_SIZE))
  | .remove _ => .isTrue trivial
  | .getValue _ => .isTrue trivial
  | .scan _ => .isTrue trivial

end TreeOp

/-! ## One call -/

section

variable {config : TreeConfig} {fuel levels : Nat} {root : Option PageId}
  {heap : PageHeap Page} {entries : List (KeyType × Bytes)} {budget : Budget}

section

variable (stored : Stored config root heap entries levels) (deep : levels ≤ fuel)
  (room : budget.Room budget.others (levels + 3))
include stored deep room

lemma Stored.meets_insert (key : KeyType) (small : value.length ≤ MAX_VALUE_SIZE) :
    TreeMeets budget heap budget.others (insert config fuel root key value)
      fun result heap' pins' => pins' = budget.others ∧
        result.1 = (lookupEntry key entries).isNone ∧ ∃ levels',
        Stored config result.2 heap' (insertEntry key value entries) levels' := by
  cases stored with
  | empty =>
    refine (meets_insertFirst small (room.mono (by decide))).mono ?_
    rintro result heap pins ⟨pid, rfl, rfl, rfl⟩
    exact ⟨rfl, rfl, 1, .tree (valid_leaf config pid key value)⟩
  | tree valid =>
    refine (Index.meets_insert valid deep room key small).mono ?_
    rintro result heap pins ⟨whole, valid', rfl, rfl, rfl, listed, _⟩
    refine ⟨rfl, ?_, whole.height + 1, listed ▸ .tree valid'⟩
    rw [Bool.eq_iff_iff, decide_eq_true_eq, Option.isNone_iff_eq_none]

lemma Stored.meets_remove (key : KeyType) :
    TreeMeets budget heap budget.others (remove config fuel root key)
      fun result heap' pins' => pins' = budget.others ∧
        result.1 = (lookupEntry key entries).isSome ∧ ∃ levels',
        Stored config result.2 heap' (eraseEntry key entries) levels' := by
  cases stored with
  | empty => exact meets_pure ⟨rfl, rfl, 0, .empty⟩
  | tree valid =>
    refine (Index.meets_remove valid deep (room.mono (by omega)) key).mono ?_
    rintro result heap pins ⟨unpinned, answer, levels', _, stored'⟩
    exact ⟨unpinned, answer, levels', stored'⟩

lemma Stored.meets_getValue (key : KeyType) :
    TreeMeets budget heap budget.others (getValue fuel root key) fun result heap' pins' =>
      heap' = heap ∧ pins' = budget.others ∧ result = lookupEntry key entries := by
  cases stored with
  | empty => exact meets_pure ⟨rfl, rfl, rfl⟩
  | tree valid => exact Index.meets_getValue valid deep (room.mono (by omega)) key

lemma Stored.meets_scanFirst (many : entries.length ≤ fuel) :
    TreeMeets budget heap budget.others (beginFirst fuel root >>= collect fuel)
      fun result heap' pins' => heap' = heap ∧ pins' = budget.others ∧ result = entries := by
  cases stored with
  | empty =>
    rw [beginFirst, pure_bind, collect_none]
    exact meets_pure ⟨rfl, rfl, rfl⟩
  | tree valid => exact Index.meets_scanFirst valid deep (room.mono (by omega)) many

lemma Stored.meets_scanFrom (many : entries.length ≤ fuel) (start : KeyType) :
    TreeMeets budget heap budget.others (beginAt fuel root start >>= collect fuel)
      fun result heap' pins' => heap' = heap ∧ pins' = budget.others ∧
      result = entries.filter fun entry => decide (start ≤ entry.1) := by
  cases stored with
  | empty =>
    rw [beginAt, pure_bind, collect_none]
    exact meets_pure ⟨rfl, rfl, rfl⟩
  | tree valid => exact Index.meets_scanFrom valid deep (room.mono (by omega)) many start

end

/-- A call answers as the map does, and leaves the tree with the map's entries. -/
lemma Stored.meets_perform (stored : Stored config root heap map.entries levels)
    (deep : levels ≤ fuel) (room : budget.Room budget.others (levels + 3))
    (many : map.entries.length ≤ fuel) {op : TreeOp} (small : op.Small) :
    TreeMeets budget heap budget.others (op.perform config fuel root)
      fun result heap' pins' => pins' = budget.others ∧ result.1 = (op.answer map).1 ∧
        ∃ levels', Stored config result.2 heap' (op.answer map).2.entries levels' := by
  cases op with
  | insert key value =>
    refine meets_bind (stored.meets_insert deep room key small) ?_
    rintro ⟨isNew, root'⟩ heap' pins' ⟨rfl, rfl, levels', stored'⟩
    exact meets_pure ⟨rfl, rfl, levels', stored'⟩
  | remove key =>
    refine meets_bind (stored.meets_remove deep room key) ?_
    rintro ⟨wasThere, root'⟩ heap' pins' ⟨rfl, rfl, levels', stored'⟩
    exact meets_pure ⟨rfl, rfl, levels', stored'⟩
  | getValue key =>
    refine meets_bind (stored.meets_getValue deep room key) ?_
    rintro value heap' pins' ⟨rfl, rfl, rfl⟩
    exact meets_pure ⟨rfl, rfl, levels, stored⟩
  | scan start =>
    cases start with
    | none =>
      refine meets_bind (stored.meets_scanFirst deep room many) ?_
      rintro shown heap' pins' ⟨rfl, rfl, rfl⟩
      exact meets_pure ⟨rfl, rfl, levels, stored⟩
    | some start =>
      refine meets_bind (stored.meets_scanFrom deep room many start) ?_
      rintro shown heap' pins' ⟨rfl, rfl, rfl⟩
      exact meets_pure ⟨rfl, rfl, levels, stored⟩

end

/-! ## Height -/

/-- The least number of entries or children of a node below the root. -/
def TreeConfig.fanout (config : TreeConfig) : Nat := min (config.minAt 0) (config.minAt 1)

section

variable {config : TreeConfig} {height levels : Nat} {entries : List (KeyType × Bytes)}

lemma TreeConfig.two_le_fanout (config : TreeConfig) : 2 ≤ config.fanout :=
  le_min (config.two_le_minAt 0) (config.two_le_minAt 1)

lemma length_mul_le_rowEntries {children : List (KeyType × Tree height)} {least : Nat}
    (each : ∀ child ∈ children, least ≤ child.2.toList.length) :
    children.length * least ≤ (rowEntries children).length := by
  induction children with
  | nil => simp
  | cons child rest ih =>
    have first := each child mem_cons_self
    have others := ih fun other mem => each other (mem_cons_of_mem _ mem)
    simp only [rowEntries, List.flatMap_cons, length_cons, length_append, add_mul, one_mul]
      at others ⊢
    omega

lemma Tree.Fits.pow_le {tree : Tree height} (fits : tree.Fits config) :
    config.fanout ^ (height + 1) ≤ tree.toList.length := by
  induction height, tree using Tree.inductOn with
  | leaf pid entries =>
    rw [zero_add, pow_one]
    exact le_trans (min_le_left _ _) (fits_leaf_iff.mp fits).1
  | node pid children ih =>
    obtain ⟨many, _, below⟩ := fits_node_iff.mp fits
    rw [pow_succ', toList_node]
    exact le_trans (Nat.mul_le_mul_right _ (le_trans (min_le_right _ _) many))
      (length_mul_le_rowEntries fun child mem => ih child mem (below child mem))

lemma AnyTree.Valid.pow_le {whole : AnyTree} (valid : whole.Valid config) :
    config.fanout ^ whole.height ≤ whole.tree.toList.length := by
  obtain ⟨height, tree⟩ := whole
  cases height with
  | zero => exact valid.size.1
  | succ height =>
    -- The root has two children, each as full as a node must be.
    obtain ⟨pid, children⟩ := tree
    have many : 1 ≤ children.length := le_trans one_le_two valid.size.1
    refine le_trans ?_ (length_mul_le_rowEntries fun child mem => Fits.pow_le (valid.sized child mem))
    exact Nat.le_mul_of_pos_left _ many

lemma Stored.le_log (stored : Stored config root heap entries levels) :
    levels ≤ Nat.log config.fanout entries.length + 1 := by
  cases stored with
  | empty => exact Nat.zero_le _
  | tree valid =>
    exact Nat.succ_le_succ (Nat.le_log_of_pow_le config.two_le_fanout valid.pow_le)

lemma Stored.levels_le (stored : Stored config root heap entries levels) :
    levels ≤ entries.length := by
  cases stored with
  | empty => exact Nat.le_refl 0
  | tree valid =>
    exact lt_of_lt_of_le (Nat.lt_pow_self config.two_le_fanout) valid.pow_le

/-- Every key is there at most once. -/
lemma Ascending.length_le (ascending : Ascending entries) : entries.length ≤ 2 ^ 64 := by
  have distinct : (entries.map fun entry => entry.1.toUInt64.toNat).Nodup := by
    refine pairwise_map.mpr (ascending.imp fun less same => ?_)
    exact ne_of_lt less (congrArg Int64.ofUInt64 (UInt64.toNat_inj.mp same))
  have inside : entries.map (fun entry => entry.1.toUInt64.toNat) ⊆ range (2 ^ 64) := by
    intro number mem
    obtain ⟨entry, _, rfl⟩ := mem_map.mp mem
    exact mem_range.mpr entry.1.toUInt64.toNat_lt
  have few := (distinct.subperm inside).length_le
  rwa [length_map, List.length_range] at few

lemma Stored.levels_le_keys {map : SortedMap KeyType Bytes}
    (stored : Stored config root heap map.entries levels) : levels ≤ 65 := by
  refine le_trans stored.le_log (Nat.succ_le_succ ?_)
  calc Nat.log config.fanout map.entries.length
      ≤ Nat.log 2 map.entries.length := Nat.log_anti_left one_lt_two config.two_le_fanout
    _ ≤ Nat.log 2 (2 ^ 64) := Nat.log_mono_right (Ascending.length_le map.ascending)
    _ = 64 := Nat.log_pow one_lt_two 64

end

/-! ## Runs -/

section

variable {config : TreeConfig} {fuel : Nat} {budget : Budget}

lemma length_answer (map : SortedMap KeyType Bytes) (op : TreeOp) :
    (op.answer map).2.entries.length ≤ map.entries.length + 1 := by
  cases op with
  | insert key value =>
    have length := map.ascending.length_insertEntry key value
    simp only [TreeOp.answer, SortedMap.insert, length]
    split <;> omega
  | remove key => exact Nat.le_succ_of_le (List.length_filter_le _ _)
  | getValue key => exact Nat.le_succ _
  | scan start => cases start <;> exact Nat.le_succ _

/-- Calls in a row answer as the map does.  Every call adds at most one entry, so the fuel
lasts; the frames last for any run. -/
lemma Stored.meets_performAll {ops : List TreeOp} {heap : PageHeap Page}
    (stored : Stored config root heap map.entries levels) (room : budget.Room budget.others 68)
    (many : map.entries.length + ops.length ≤ fuel) (small : ∀ op ∈ ops, op.Small) :
    TreeMeets budget heap budget.others (TreeOp.performAll config fuel root ops)
      fun result heap' pins' => pins' = budget.others ∧
        result.1 = (TreeOp.answerAll map ops).1 ∧ ∃ levels',
        Stored config result.2 heap' (TreeOp.answerAll map ops).2.entries levels' := by
  induction ops generalizing root heap map levels with
  | nil => exact meets_pure ⟨rfl, rfl, levels, stored⟩
  | cons op rest ih =>
    rw [length_cons] at many
    have grown := length_answer map op
    have low := stored.levels_le_keys
    have deep : levels ≤ fuel := le_trans stored.levels_le (by omega)
    refine meets_bind (stored.meets_perform deep (room.mono (by omega)) (by omega)
      (small op mem_cons_self)) ?_
    rintro ⟨outcome, root'⟩ heap' pins' ⟨rfl, rfl, levels', stored'⟩
    refine meets_bind (ih stored' (by omega) fun other mem =>
      small other (mem_cons_of_mem _ mem)) ?_
    rintro ⟨outcomes, root''⟩ heap'' pins'' ⟨rfl, rfl, levels'', stored''⟩
    exact meets_pure ⟨rfl, rfl, levels'', stored''⟩

/-- A store in which nothing is pinned. -/
def Unpinned (store : PageStore Page) : Prop := ∀ pid, store.pins pid = 0

lemma Unpinned.holds (unpinned : Unpinned store) : store.Holds 0 0 where
  nodup := Multiset.nodup_zero
  stored entry mem := absurd mem (Multiset.notMem_zero entry)
  pinned pid := unpinned pid
  bounded pid mem := absurd mem (Multiset.notMem_zero pid)

/-- A run from the empty tree ends, answers as the map does and stores the map's entries. -/
lemma meets_run (config : TreeConfig) (ops : List TreeOp) (small : ∀ op ∈ ops, op.Small)
    (store : PageStore Page) (unpinned : Unpinned store) (fuel : Nat) (enough : ops.length ≤ fuel) :
    ∃ outcomes root after heap levels,
      (TreeOp.performAll config fuel none ops).run .blank Page.fits store =
        .ok ((outcomes, root), after) ∧ outcomes = (TreeOp.answerAll .empty ops).1 ∧
      after.Holds heap 0 ∧
      Stored config root heap (TreeOp.answerAll .empty ops).2.entries levels := by
  have room : (Budget.mk 68 0).Room 0 68 := le_refl 68
  have none : Stored config none 0 (SortedMap.empty : SortedMap KeyType Bytes).entries 0 := .empty
  obtain ⟨⟨outcomes, root⟩, after, heap, pins, ran, holds, rfl, answered, levels, stored⟩ :=
    (none.meets_performAll room (le_of_eq_of_le (zero_add _) enough) small).run unpinned.holds
  exact ⟨outcomes, root, after, heap, levels, ran, answered, holds, stored⟩

/-- From the empty tree, over any store, every run of calls returns what an ordered map
returns. -/
theorem run_answers_as_map (config : TreeConfig) (ops : List TreeOp)
    (small : ∀ op ∈ ops, op.Small) (store : PageStore Page) (unpinned : Unpinned store)
    (fuel : Nat) (enough : ops.length ≤ fuel) :
    ∃ root after, (TreeOp.performAll config fuel none ops).run .blank Page.fits store =
      .ok (((TreeOp.answerAll .empty ops).1, root), after) := by
  rcases meets_run config ops small store unpinned fuel enough with
    ⟨outcomes, root, after, heap, levels, ran, rfl, _⟩
  exact ⟨root, after, ran⟩

/-- The smallest nodes the constructor accepts. -/
def smallConfig : TreeConfig where
  leafMaxSize := 3
  internalMaxSize := 3
  leafBounds := by decide
  internalBounds := by decide

def emptyStore : PageStore Page where
  pages := fun _ => none
  pins := fun _ => 0
  next := 1

/-- A leaf splits, and the two halves become one again. -/
def sampleOps : List TreeOp :=
  [.insert 1 [1], .insert 2 [2], .insert 3 [3], .insert 4 [4], .getValue 3, .scan (some 2),
    .remove 1, .remove 2, .scan none]

theorem run_answers_as_map_sampleOps : ∃ root after,
    (TreeOp.performAll smallConfig 9 none sampleOps).run .blank Page.fits emptyStore =
      .ok (((TreeOp.answerAll .empty sampleOps).1, root), after) :=
  run_answers_as_map smallConfig sampleOps (by decide) emptyStore (fun _ => rfl) 9 (by decide)

end

end DbEngine.Index
