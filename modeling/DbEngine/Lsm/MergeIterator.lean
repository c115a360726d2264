import DbEngine.Lsm.Tables

/-!
# The merge iterator

`lsm/lsm_cursor.h` and `lsm/merge_iterator.cpp`.  A cursor over a memtable stands on a node
of a list that may grow while it is read, so everything here takes the list as it is at the
moment; a cursor over an SSTable has the entries still to come.  The priority queue is a
list of items, of which the least is taken.
-/

namespace DbEngine.Lsm

open Lib SortedMap

/-- `MemTableCursor` and `SSTableCursor`. -/
inductive LSMCursor where
  | memTable (node : Option KeyType)
  | ssTable (remaining : List (KeyType × LSMValue))

/-- The first key of a list that is at least the given one: `SkipList::LowerBound`. -/
def lowerBound (list : Entries) (key : KeyType) : Option KeyType :=
  list.firstKey fun other => decide (key ≤ other)

/-- The key of the node after the one of the given key. -/
def nextNode (list : Entries) (key : KeyType) : Option KeyType :=
  list.firstKey fun other => decide (key < other)

namespace LSMCursor

/-- `Key`, if the cursor is `Valid`. -/
def key : LSMCursor → Option KeyType
  | .memTable node => node
  | .ssTable remaining => remaining.head?.map Prod.fst

/-- `Value`. -/
def value (list : Entries) : LSMCursor → Option LSMValue
  | .memTable node => node.bind list.lookup
  | .ssTable remaining => remaining.head?.map Prod.snd

/-- `Next`. -/
def next (list : Entries) : LSMCursor → LSMCursor
  | .memTable node => .memTable (node.bind (nextNode list))
  | .ssTable remaining => .ssTable remaining.tail

/-- What the cursor has still to deliver for a key. -/
def find (list : Entries) (key : KeyType) : LSMCursor → Option LSMValue
  | .memTable node => if node.any (fun here => decide (here ≤ key)) then list.lookup key else none
  | .ssTable remaining => lookupEntry key remaining

/-- How many entries the cursor has still to deliver. -/
def size (list : Entries) : LSMCursor → Nat
  | .memTable none => 0
  | .memTable (some here) => (list.entriesFrom here).length
  | .ssTable remaining => remaining.length

/-- The cursor stands on a node of the list, or reads a sorted run. -/
def Ok (list : Entries) : LSMCursor → Prop
  | .memTable node => ∀ here ∈ node, (list.lookup here).isSome
  | .ssTable remaining => Ascending remaining

end LSMCursor

/-- `LSMMergeIterator::HeapItem`. -/
structure HeapItem where
  key : KeyType
  priority : Nat
  deriving Repr, DecidableEq

/-- The order of the queue: `Compare` the other way round. -/
def HeapItem.before (left right : HeapItem) : Bool :=
  if left.key ≠ right.key then decide (left.key < right.key)
  else decide (left.priority < right.priority)

/-- `heap_.top()`. -/
def heapTop : List HeapItem → Option HeapItem
  | [] => none
  | item :: rest =>
    match heapTop rest with
    | none => some item
    | some best => if best.before item then some best else some item

/-- `LSMMergeIterator`; it is valid while it has a current entry. -/
structure LSMMergeIterator where
  cursors : List LSMCursor
  heap : List HeapItem
  current : Option (KeyType × LSMValue) := none

namespace LSMMergeIterator

/-- Push a cursor that has a key. -/
def push (cursor : LSMCursor) (priority : Nat) (heap : List HeapItem) : List HeapItem :=
  match cursor.key with
  | some key => { key, priority } :: heap
  | none => heap

/-- Take an item off the queue and move its cursor on. -/
def popAndNext (list : Entries) (item : HeapItem) (iterator : LSMMergeIterator) :
    LSMMergeIterator :=
  match iterator.cursors[item.priority]? with
  | none => iterator
  | some cursor =>
    { iterator with
      cursors := iterator.cursors.set item.priority (cursor.next list)
      heap := push (cursor.next list) item.priority (iterator.heap.erase item) }

/-- The loop that discards what the winner hides, with as much fuel as there are items. -/
def skipShadowed (list : Entries) (currentKey : KeyType) :
    Nat → LSMMergeIterator → LSMMergeIterator
  | 0, iterator => iterator
  | fuel + 1, iterator =>
    match heapTop iterator.heap with
    | none => iterator
    | some shadowed =>
      if shadowed.key = currentKey then
        skipShadowed list currentKey fuel (iterator.popAndNext list shadowed)
      else iterator

/-- `LSMMergeIterator::Advance`. -/
def advance (list : Entries) (iterator : LSMMergeIterator) : LSMMergeIterator :=
  match heapTop iterator.heap with
  | none => { iterator with current := none }
  | some winner =>
    let value := (iterator.cursors[winner.priority]?.bind (LSMCursor.value list)).getD
      { number := 0 }
    let popped := iterator.popAndNext list winner
    { popped.skipShadowed list winner.key popped.heap.length with
      current := some (winner.key, value) }

/-- The loop of the constructor, over cursors from a priority on. -/
def initialHeap : Nat → List LSMCursor → List HeapItem
  | _, [] => []
  | priority, cursor :: rest => push cursor priority (initialHeap (priority + 1) rest)

/-- The constructor. -/
def new (list : Entries) (cursors : List LSMCursor) : LSMMergeIterator :=
  advance list { cursors, heap := initialHeap 0 cursors }

/-- What the cursors have still to deliver for a key, once what is hidden is left out. -/
def find (list : Entries) (key : KeyType) (iterator : LSMMergeIterator) : Option LSMValue :=
  iterator.cursors.findSome? (LSMCursor.find list key)

end LSMMergeIterator

/-! ## Cursors -/

namespace LSMCursor

variable {list : Entries} {cursor : LSMCursor} {key query : KeyType}

lemma find_of_invalid (invalid : cursor.key = none) : cursor.find list query = none := by
  cases cursor with
  | memTable node =>
    cases node with
    | none => rfl
    | some here => cases invalid
  | ssTable remaining =>
    cases remaining with
    | nil => rfl
    | cons first rest => cases invalid

section

variable (ok : cursor.Ok list)
include ok

lemma find_eq_none_of_lt (here : cursor.key = some key) (less : query < key) :
    cursor.find list query = none := by
  cases cursor with
  | memTable node =>
    cases here
    exact if_neg (by simpa using less)
  | ssTable remaining =>
    cases remaining with
    | nil => cases here
    | cons first rest =>
      cases here
      apply lookupEntry_eq_none.mpr
      intro entry mem
      rcases mem_cons.mp mem with rfl | mem
      · exact less.ne'
      · exact (less.trans ((ascending_cons.mp ok).1 entry mem)).ne'

/-- A cursor on a key delivers its value next. -/
lemma find_key (here : cursor.key = some key) :
    ∃ value, cursor.value list = some value ∧ cursor.find list key = some value := by
  cases cursor with
  | memTable node =>
    cases here
    obtain ⟨value, found⟩ := isSome_iff_exists.mp (ok key rfl)
    exact ⟨value, found, by simp [find, found]⟩
  | ssTable remaining =>
    cases remaining with
    | nil => cases here
    | cons first rest =>
      cases here
      exact ⟨first.2, rfl, lookupEntry_cons_self⟩

/-- Moving on leaves exactly the later keys. -/
lemma find_next (here : cursor.key = some key) : (cursor.next list).find list query =
      if query ≤ key then none else cursor.find list query := by
  cases cursor with
  | memTable node =>
    cases here
    simp only [next, bind_some, find, any_some]
    by_cases early : query ≤ key
    · rw [if_pos early]
      apply if_neg
      cases moved : nextNode list key with
      | none => exact Bool.false_ne_true
      | some after =>
        have less := of_decide_eq_true (firstKey_eq_some moved).1
        simpa using early.trans_lt less
    · have later := not_le.mp early
      rw [if_neg early, if_pos (decide_eq_true later.le)]
      cases found : list.lookup query with
      | none => exact ite_self _
      | some value =>
        apply if_pos
        cases moved : nextNode list key with
        | none =>
          rw [firstKey_eq_none moved (decide_eq_true later)] at found
          cases found
        | some after =>
          have least := (firstKey_eq_some moved).2.2 (decide_eq_true later) found
          exact decide_eq_true least
  | ssTable remaining =>
    cases remaining with
    | nil => cases here
    | cons first rest =>
      cases here
      have after := (ascending_cons.mp ok).1
      simp only [next, List.tail_cons, find]
      split
      next early =>
        apply lookupEntry_eq_none.mpr
        exact fun entry mem => (early.trans_lt (after entry mem)).ne'
      next later => exact (lookupEntry_cons_of_ne (not_le.mp later).ne).symm

lemma Ok.next : (cursor.next list).Ok list := by
  cases cursor with
  | memTable node =>
    intro after moved
    obtain ⟨here, -, moved⟩ := bind_eq_some_iff.mp moved
    obtain ⟨-, ⟨value, found⟩, -⟩ := firstKey_eq_some moved
    rw [found]
    rfl
  | ssTable remaining => exact Ascending.sublist ok (List.tail_sublist remaining)

lemma lt_next_key (here : cursor.key = some key) (moved : (cursor.next list).key = some after) :
    key < after := by
  cases cursor with
  | memTable node =>
    cases here
    have moved : nextNode list key = some after := moved
    exact of_decide_eq_true (firstKey_eq_some moved).1
  | ssTable remaining =>
    cases remaining with
    | nil => cases here
    | cons first rest =>
      cases here
      cases rest with
      | nil => cases moved
      | cons second rest =>
        cases moved
        exact (ascending_cons.mp ok).1 second mem_cons_self

/-- Moving on leaves fewer entries. -/
lemma size_next_lt (here : cursor.key = some key) :
    (cursor.next list).size list < cursor.size list := by
  cases cursor with
  | memTable node =>
    cases here
    obtain ⟨value, found⟩ := isSome_iff_exists.mp (ok key rfl)
    have first : (key, value) ∈ list.entriesFrom key :=
      mem_filter.mpr ⟨lookup_eq_some.mp found, decide_eq_true le_rfl⟩
    cases moved : nextNode list key with
    | none =>
      simp only [next, bind_some, moved, size]
      exact List.length_pos_of_mem first
    | some after =>
      have less := of_decide_eq_true (firstKey_eq_some moved).1
      simp only [next, bind_some, moved, size]
      rw [entriesFrom_of_le less.le]
      apply List.length_filter_lt_length_iff_exists.mpr
      exact ⟨(key, value), first, by simpa using less⟩
  | ssTable remaining =>
    cases remaining with
    | nil => cases here
    | cons first rest => exact Nat.lt_succ_self _

end

end LSMCursor

/-! ## The queue -/

variable {heap : List HeapItem} {left right : HeapItem}

lemma heapTop_eq_none (none : heapTop heap = none) : heap = [] := by
  cases heap with
  | nil => rfl
  | cons item rest =>
    rw [heapTop] at none
    cases top : heapTop rest with
    | none =>
      rw [top] at none
      cases none
    | some best =>
      rw [top] at none
      simp only at none
      split at none <;> cases none

lemma HeapItem.le_of_before (first : left.before right = true) :
    left.key ≤ right.key ∧ (right.key = left.key → left.priority ≤ right.priority) := by
  rw [HeapItem.before] at first
  split at first
  next ne =>
    have less := of_decide_eq_true first
    exact ⟨less.le, fun same => absurd same.symm ne⟩
  next same =>
    have less := of_decide_eq_true first
    exact ⟨(not_not.mp same).le, fun _ => le_of_lt less⟩

lemma HeapItem.le_of_not_before (last : ¬ left.before right = true) :
    right.key ≤ left.key ∧ (left.key = right.key → right.priority ≤ left.priority) := by
  rw [HeapItem.before] at last
  split at last
  next ne =>
    have notLess := fun less => last (decide_eq_true less)
    exact ⟨not_lt.mp notLess, fun same => absurd same ne⟩
  next same =>
    have notLess := fun less => last (decide_eq_true less)
    exact ⟨(not_not.mp same).ge, fun _ => not_lt.mp notLess⟩

/-- The top of the queue has the least key, and of those with that key the first cursor. -/
lemma heapTop_eq_some (top : heapTop heap = some best) :
    best ∈ heap ∧ ∀ item ∈ heap, best.key ≤ item.key ∧
      (item.key = best.key → best.priority ≤ item.priority) := by
  induction heap generalizing best with
  | nil => cases top
  | cons item rest ih =>
    rw [heapTop] at top
    cases restTop : heapTop rest with
    | none =>
      rw [restTop] at top
      cases top
      rw [heapTop_eq_none restTop]
      simp
    | some least =>
      obtain ⟨inRest, isLeast⟩ := ih restTop
      rw [restTop] at top
      simp only at top
      split at top
      next first =>
        cases top
        refine ⟨mem_cons_of_mem _ inRest, ?_⟩
        intro other mem
        rcases mem_cons.mp mem with rfl | mem
        · exact HeapItem.le_of_before first
        · exact isLeast other mem
      next last =>
        cases top
        refine ⟨mem_cons_self, ?_⟩
        intro other mem
        rcases mem_cons.mp mem with rfl | mem
        · exact ⟨le_rfl, fun _ => le_rfl⟩
        · obtain ⟨key_le, priority_le⟩ := HeapItem.le_of_not_before last
          obtain ⟨key_le', priority_le'⟩ := isLeast other mem
          refine ⟨key_le.trans key_le', ?_⟩
          intro same
          have same' : least.key = item.key := le_antisymm (key_le'.trans same.le) key_le
          exact le_trans (priority_le same') (priority_le' (same.trans same'.symm))

namespace LSMMergeIterator

variable {list : Entries} {iterator : LSMMergeIterator} {item : HeapItem} {key query : KeyType}

/-- The queue has exactly the keys on which the cursors stand. -/
structure Ok (list : Entries) (iterator : LSMMergeIterator) : Prop where
  cursors : ∀ cursor ∈ iterator.cursors, cursor.Ok list
  nodup : iterator.heap.Nodup
  heap : ∀ {item}, item ∈ iterator.heap ↔
    ∃ cursor, iterator.cursors[item.priority]? = some cursor ∧ cursor.key = some item.key

/-- A cursor after every cursor on the key has moved on. -/
def stepAt (list : Entries) (key : KeyType) (cursor : LSMCursor) : LSMCursor :=
  if cursor.key = some key then cursor.next list else cursor

variable {cursor : LSMCursor} {priority : Nat} {left left' : KeyType → Option LSMValue}
  {cursors : List LSMCursor}

lemma stepAt_next (ok : cursor.Ok list) (here : cursor.key = some key) :
    stepAt list key (cursor.next list) = cursor.next list := by
  apply if_neg
  intro again
  exact lt_irrefl key (cursor.lt_next_key ok here again)

/-- How many items have the key. -/
def count (key : KeyType) (iterator : LSMMergeIterator) : Nat :=
  iterator.heap.countP fun item => decide (item.key = key)

lemma mem_push {heap : List HeapItem} : item ∈ push cursor priority heap ↔
      (cursor.key = some item.key ∧ item.priority = priority) ∨ item ∈ heap := by
  rw [push]
  cases cursor.key with
  | none => simp
  | some key =>
    rw [mem_cons]
    apply or_congr_left
    constructor
    · rintro rfl
      exact ⟨rfl, rfl⟩
    · rintro ⟨same, rfl⟩
      cases same
      rfl

section

variable {cursor : LSMCursor}

lemma popAndNext_eq (found : iterator.cursors[item.priority]? = some cursor) :
    iterator.popAndNext list item =
      { iterator with
        cursors := iterator.cursors.set item.priority (cursor.next list)
        heap := push (cursor.next list) item.priority (iterator.heap.erase item) } := by
  rw [popAndNext, found]

section

variable (ok : iterator.Ok list) (mem : item ∈ iterator.heap)
include ok mem

/-- Taking an item off and moving its cursor on keeps the queue. -/
lemma Ok.popAndNext : (iterator.popAndNext list item).Ok list := by
  obtain ⟨cursor, found, here⟩ := ok.heap.mp mem
  have inside := (getElem?_eq_some_iff.mp found).1
  have cursorOk := ok.cursors cursor (mem_of_getElem? found)
  have only {other : HeapItem} (inHeap : other ∈ iterator.heap) (ne : other ≠ item) :
      other.priority ≠ item.priority := by
    intro same
    obtain ⟨cursor', found', here'⟩ := ok.heap.mp inHeap
    rw [same, found] at found'
    cases found'
    rw [here] at here'
    cases other
    cases item
    cases here'
    cases same
    exact ne rfl
  rw [popAndNext_eq found]
  constructor
  · intro other mem'
    rcases List.mem_or_eq_of_mem_set mem' with mem' | rfl
    · exact ok.cursors other mem'
    · exact cursorOk.next
  · have rest := ok.nodup.erase item
    simp only [push]
    cases moved : (cursor.next list).key with
    | none => exact rest
    | some after =>
      refine nodup_cons.mpr ⟨?_, rest⟩
      intro again
      obtain ⟨ne, inHeap⟩ := ok.nodup.mem_erase_iff.mp again
      exact only inHeap ne rfl
  · intro other
    simp only [mem_push, ok.nodup.mem_erase_iff, List.getElem?_set]
    by_cases same : item.priority = other.priority
    · rw [if_pos same, if_pos (same ▸ inside)]
      constructor
      · rintro (⟨key, -⟩ | ⟨ne, inHeap⟩)
        · exact ⟨_, rfl, key⟩
        · exact absurd same.symm (only inHeap ne)
      · rintro ⟨moved, there, key⟩
        cases there
        exact .inl ⟨key, same.symm⟩
    · rw [if_neg same]
      constructor
      · rintro (⟨-, same'⟩ | ⟨-, inHeap⟩)
        · exact absurd same'.symm same
        · exact ok.heap.mp inHeap
      · intro there
        exact .inr ⟨fun eq => same (eq ▸ rfl), ok.heap.mpr there⟩

/-- The cursors that have moved on are the ones that move on in any case. -/
lemma Ok.popAndNext_cursors : (iterator.popAndNext list item).cursors.map (stepAt list item.key) =
      iterator.cursors.map (stepAt list item.key) := by
  obtain ⟨cursor, found, here⟩ := ok.heap.mp mem
  have cursorOk := ok.cursors cursor (mem_of_getElem? found)
  have already : (iterator.cursors.map (stepAt list item.key))[item.priority]? =
      some (cursor.next list) := by
    rw [getElem?_map, found]
    exact congrArg some (if_pos here)
  obtain ⟨inside, there⟩ := getElem?_eq_some_iff.mp already
  rw [popAndNext_eq found, List.map_set, stepAt_next cursorOk here, ← there]
  exact List.set_getElem_self inside

lemma Ok.popAndNext_count :
    (iterator.popAndNext list item).count item.key + 1 = iterator.count item.key := by
  obtain ⟨cursor, found, here⟩ := ok.heap.mp mem
  have cursorOk := ok.cursors cursor (mem_of_getElem? found)
  rw [popAndNext_eq found, count, count, (List.perm_cons_erase mem).countP_eq]
  simp only [push]
  cases moved : (cursor.next list).key with
  | none => simp
  | some after => simp [(cursor.lt_next_key cursorOk here moved).ne']

/-- No item is put before the one that was taken off. -/
lemma Ok.popAndNext_le (least : ∀ other ∈ iterator.heap, item.key ≤ other.key) :
    ∀ other ∈ (iterator.popAndNext list item).heap, item.key ≤ other.key := by
  obtain ⟨cursor, found, here⟩ := ok.heap.mp mem
  have cursorOk := ok.cursors cursor (mem_of_getElem? found)
  rw [popAndNext_eq found]
  intro other mem'
  rcases mem_push.mp mem' with ⟨moved, -⟩ | mem'
  · exact (cursor.lt_next_key cursorOk here moved).le
  · exact least other (List.mem_of_mem_erase mem')

end

end

/-- When no item has the key, no cursor stands on it. -/
lemma Ok.map_stepAt (ok : iterator.Ok list) (none : ∀ item ∈ iterator.heap, item.key ≠ key) :
    iterator.cursors.map (stepAt list key) = iterator.cursors := by
  rw [map_congr_left (g := id), map_id]
  intro cursor mem
  apply if_neg
  intro here
  obtain ⟨priority, found⟩ := getElem?_of_mem mem
  exact none ⟨key, priority⟩ (ok.heap.mpr ⟨cursor, found, here⟩) rfl

/-- The loop moves on every cursor that stands on the key. -/
lemma Ok.skipShadowed (ok : iterator.Ok list) (least : ∀ item ∈ iterator.heap, key ≤ item.key)
    (enough : iterator.count key ≤ fuel) : (iterator.skipShadowed list key fuel).Ok list ∧
      (iterator.skipShadowed list key fuel).cursors = iterator.cursors.map (stepAt list key) := by
  induction fuel generalizing iterator with
  | zero =>
    refine ⟨ok, (ok.map_stepAt ?_).symm⟩
    intro item mem same
    have counted := List.countP_eq_zero.mp (Nat.le_zero.mp enough) item mem
    simp [same] at counted
  | succ fuel ih =>
    rw [LSMMergeIterator.skipShadowed]
    cases top : heapTop iterator.heap with
    | none =>
      refine ⟨ok, (ok.map_stepAt ?_).symm⟩
      rw [heapTop_eq_none top]
      exact nofun
    | some shadowed =>
      obtain ⟨mem, isLeast⟩ := heapTop_eq_some top
      simp only
      split
      next here =>
        subst here
        have fewer := ok.popAndNext_count mem
        obtain ⟨ok', cursors⟩ := ih (ok.popAndNext mem) (ok.popAndNext_le mem least) (by omega)
        exact ⟨ok', cursors.trans (ok.popAndNext_cursors mem)⟩
      next elsewhere =>
        refine ⟨ok, (ok.map_stepAt ?_).symm⟩
        intro item inHeap same
        apply elsewhere
        exact le_antisymm ((isLeast item inHeap).1.trans same.le) (least shadowed mem)

/-! ## What an iterator delivers -/

/-- Of the entries that are left, the one with the least key comes next. -/
inductive Delivers (left : KeyType → Option LSMValue) :
    Option (KeyType × LSMValue) → (KeyType → Option LSMValue) → Prop where
  | done (nothing : ∀ query, left query = none) : Delivers left none left
  | entry {key : KeyType} {value : LSMValue} {left' : KeyType → Option LSMValue}
      (here : left key = some value) (first : ∀ query < key, left query = none)
      (rest : ∀ query, left' query = if query ≤ key then none else left query) :
      Delivers left (some (key, value)) left'

lemma Delivers.nothing (delivers : Delivers left none left') (query : KeyType) :
    left query = none := by
  cases delivers with
  | done nothing => exact nothing query

lemma Delivers.same (delivers : Delivers left none left') : left = left' := by
  cases delivers with
  | done => rfl

lemma Delivers.least {entry : KeyType × LSMValue} (delivers : Delivers left (some entry) left') :
    left entry.1 = some entry.2 ∧ (∀ query < entry.1, left query = none) ∧
      ∀ query, left' query = if query ≤ entry.1 then none else left query := by
  cases delivers with
  | entry here first rest => exact ⟨here, first, rest⟩

/-- How many entries the cursors have still to deliver, hidden ones included. -/
def size (list : Entries) (iterator : LSMMergeIterator) : Nat :=
  (iterator.cursors.map (LSMCursor.size list)).sum

lemma findSome?_congr {α β : Type} {f g : α → Option β} {values : List α}
    (same : ∀ value ∈ values, f value = g value) : values.findSome? f = values.findSome? g := by
  induction values with
  | nil => rfl
  | cons value rest ih =>
    rw [findSome?_cons, findSome?_cons, same value mem_cons_self,
      ih fun other mem => same other (mem_cons_of_mem _ mem)]

/-- The cursors no longer have the keys up to the one they were on. -/
lemma find_map_stepAt (ok : ∀ cursor ∈ cursors, cursor.Ok list)
    (least : ∀ cursor ∈ cursors, ∀ {here}, cursor.key = some here → key ≤ here) :
    (cursors.map (stepAt list key)).findSome? (LSMCursor.find list query) =
      if query ≤ key then none else cursors.findSome? (LSMCursor.find list query) := by
  have each : ∀ cursor ∈ cursors, (stepAt list key cursor).find list query =
      if query ≤ key then none else cursor.find list query := by
    intro cursor mem
    rw [stepAt]
    split
    next here => exact cursor.find_next (ok cursor mem) here
    next elsewhere =>
      split
      next early =>
        cases here : cursor.key with
        | none => exact LSMCursor.find_of_invalid here
        | some other =>
          have ne : key ≠ other := fun same => elsewhere (same ▸ here)
          have less := lt_of_le_of_ne (least cursor mem here) ne
          exact cursor.find_eq_none_of_lt (ok cursor mem) here (early.trans_lt less)
      · rfl
  rw [findSome?_map]
  by_cases early : query ≤ key
  · rw [if_pos early, List.findSome?_eq_none_iff]
    intro cursor mem
    exact (each cursor mem).trans (if_pos early)
  · rw [if_neg early]
    apply findSome?_congr
    intro cursor mem
    exact (each cursor mem).trans (if_neg early)

section

variable {winner : HeapItem}

section

variable (ok : iterator.Ok list) (top : heapTop iterator.heap = some winner)
include ok top

/-- Every cursor stands at or after the top of the queue. -/
lemma Ok.le_key (mem : cursor ∈ iterator.cursors) (stands : cursor.key = some here) :
    winner.key ≤ here := by
  obtain ⟨priority, found⟩ := getElem?_of_mem mem
  exact ((heapTop_eq_some top).2 ⟨here, priority⟩ (ok.heap.mpr ⟨cursor, found, stands⟩)).1

/-- The winner delivers its value, and nothing comes before. -/
lemma Ok.find_winner :
    ∃ value, iterator.cursors[winner.priority]?.bind (LSMCursor.value list) = some value ∧
      iterator.find list winner.key = some value := by
  obtain ⟨mem, isLeast⟩ := heapTop_eq_some top
  obtain ⟨cursor, found, here⟩ := ok.heap.mp mem
  obtain ⟨inside, there⟩ := getElem?_eq_some_iff.mp found
  obtain ⟨value, reads, finds⟩ := cursor.find_key (ok.cursors cursor (mem_of_getElem? found)) here
  refine ⟨value, by rw [found]; exact reads, ?_⟩
  apply List.findSome?_eq_some_iff.mpr
  refine ⟨iterator.cursors.take winner.priority, cursor,
    iterator.cursors.drop (winner.priority + 1), ?_, finds, ?_⟩
  · rw [← there, List.getElem_cons_drop, take_append_drop]
  · -- A cursor with a higher priority stands on a later key.
    intro other mem'
    obtain ⟨priority, found'⟩ := getElem?_of_mem mem'
    have earlier := (getElem?_eq_some_iff.mp found').1
    rw [length_take] at earlier
    rw [List.getElem?_take_of_lt (by omega)] at found'
    have inCursors := mem_of_getElem? found'
    cases stands : other.key with
    | none => exact LSMCursor.find_of_invalid stands
    | some key =>
      have inHeap : (⟨key, priority⟩ : HeapItem) ∈ iterator.heap :=
        ok.heap.mpr ⟨other, found', stands⟩
      have least := isLeast _ inHeap
      apply other.find_eq_none_of_lt (ok.cursors other inCursors) stands
      apply lt_of_le_of_ne least.1
      intro same
      have bound := least.2 same.symm
      simp only at bound
      omega

lemma Ok.advance_of_top : (iterator.advance list).Ok list ∧
      (iterator.advance list).cursors = iterator.cursors.map (stepAt list winner.key) := by
  obtain ⟨mem, isLeast⟩ := heapTop_eq_some top
  have least : ∀ other ∈ iterator.heap, winner.key ≤ other.key :=
    fun other mem' => (isLeast other mem').1
  rcases (ok.popAndNext mem).skipShadowed (ok.popAndNext_le mem least)
    List.countP_le_length with ⟨ok', cursors⟩
  rw [advance, top]
  exact ⟨⟨ok'.cursors, ok'.nodup, ok'.heap⟩, cursors.trans (ok.popAndNext_cursors mem)⟩

end

/-- `Advance` delivers the next entry. -/
lemma Ok.advance (ok : iterator.Ok list) : (iterator.advance list).Ok list ∧
      Delivers (iterator.find list ·) (iterator.advance list).current
        ((iterator.advance list).find list ·) := by
  cases top : heapTop iterator.heap with
  | none =>
    have stopped : iterator.advance list = { iterator with current := none } := by
      rw [LSMMergeIterator.advance, top]
    rw [stopped]
    refine ⟨⟨ok.cursors, ok.nodup, ok.heap⟩, .done ?_⟩
    intro query
    apply List.findSome?_eq_none_iff.mpr
    intro cursor mem
    cases stands : cursor.key with
    | none => exact LSMCursor.find_of_invalid stands
    | some key =>
      obtain ⟨priority, found⟩ := getElem?_of_mem mem
      have inHeap : (⟨key, priority⟩ : HeapItem) ∈ iterator.heap :=
        ok.heap.mpr ⟨cursor, found, stands⟩
      rw [heapTop_eq_none top] at inHeap
      cases inHeap
  | some winner =>
    obtain ⟨ok', cursors⟩ := ok.advance_of_top top
    obtain ⟨value, reads, finds⟩ := ok.find_winner top
    have current : (iterator.advance list).current = some (winner.key, value) := by
      rw [LSMMergeIterator.advance, top]
      simp only [reads, getD_some]
    rw [current]
    refine ⟨ok', .entry finds ?_ ?_⟩
    · intro query less
      apply List.findSome?_eq_none_iff.mpr
      intro cursor mem
      cases stands : cursor.key with
      | none => exact LSMCursor.find_of_invalid stands
      | some key =>
        exact cursor.find_eq_none_of_lt (ok.cursors cursor mem) stands
          (less.trans_le (ok.le_key top mem stands))
    · intro query
      rw [find, cursors]
      exact find_map_stepAt ok.cursors fun cursor mem => ok.le_key top mem

/-- An iterator that delivers an entry has fewer left. -/
lemma Ok.size_advance (ok : iterator.Ok list) (valid : (iterator.advance list).current ≠ none) :
    (iterator.advance list).size list < iterator.size list := by
  cases top : heapTop iterator.heap with
  | none =>
    rw [LSMMergeIterator.advance, top] at valid
    exact absurd rfl valid
  | some winner =>
    obtain ⟨cursor, found, here⟩ := ok.heap.mp (heapTop_eq_some top).1
    rw [size, (ok.advance_of_top top).2, map_map, size]
    apply List.sum_lt_sum
    · intro other mem
      simp only [Function.comp_apply, stepAt]
      split
      next stands => exact (other.size_next_lt (ok.cursors other mem) stands).le
      · exact le_rfl
    · have mem := mem_of_getElem? found
      refine ⟨cursor, mem, ?_⟩
      simp only [Function.comp_apply, stepAt, if_pos here]
      exact cursor.size_next_lt (ok.cursors cursor mem) here

end

lemma mem_initialHeap :
    item ∈ initialHeap priority cursors ↔ ∃ index cursor, item.priority = priority + index ∧
      cursors[index]? = some cursor ∧ cursor.key = some item.key := by
  induction cursors generalizing priority with
  | nil => simp [initialHeap]
  | cons cursor rest ih =>
    rw [initialHeap, mem_push, ih]
    constructor
    · rintro (⟨stands, here⟩ | ⟨index, other, there, found, stands⟩)
      · exact ⟨0, cursor, here, rfl, stands⟩
      · exact ⟨index + 1, other, by omega, found, stands⟩
    · rintro ⟨index, other, there, found, stands⟩
      cases index with
      | zero =>
        cases found
        exact .inl ⟨stands, there⟩
      | succ index => exact .inr ⟨index, other, by omega, found, stands⟩

lemma nodup_initialHeap (priority : Nat) (cursors : List LSMCursor) :
    (initialHeap priority cursors).Nodup := by
  induction cursors generalizing priority with
  | nil => exact nodup_nil
  | cons cursor rest ih =>
    rw [initialHeap, push]
    cases cursor.key with
    | none => exact ih _
    | some key =>
      refine nodup_cons.mpr ⟨?_, ih _⟩
      intro mem
      obtain ⟨index, other, there, -⟩ := mem_initialHeap.mp mem
      simp only at there
      omega

/-- The constructor delivers the first entry. -/
lemma new_ok (ok : ∀ cursor ∈ cursors, cursor.Ok list) : (new list cursors).Ok list ∧
      Delivers (fun query => cursors.findSome? (LSMCursor.find list query))
        (new list cursors).current ((new list cursors).find list ·) := by
  let started : LSMMergeIterator := { cursors, heap := initialHeap 0 cursors }
  suffices startedOk : started.Ok list from startedOk.advance
  refine ⟨ok, nodup_initialHeap 0 cursors, ?_⟩
  intro item
  rw [mem_initialHeap]
  constructor
  · rintro ⟨index, cursor, there, found, stands⟩
    rw [zero_add] at there
    exact ⟨cursor, there ▸ found, stands⟩
  · rintro ⟨cursor, found, stands⟩
    exact ⟨item.priority, cursor, (zero_add _).symm, found, stands⟩

end LSMMergeIterator

end DbEngine.Lsm
