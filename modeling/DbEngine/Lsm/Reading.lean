import DbEngine.Lsm.Recency

/-!
# Reading a snapshot

A reader takes a snapshot and then reads without the lock, from tables that never change
and from a memtable that may grow.  For keys that nobody writes in the meantime it reads
what was there when it took the snapshot, provided that no memtable was between being
retired and being put into a tier.
-/

namespace DbEngine.Lsm

open Lib Function SortedMap LSMTreeEngine

/-- What the engine holds. -/
def LSMTreeEngine.contents (engine : LSMTreeEngine) (key : KeyType) : Option Bytes :=
  LSMValue.shown (resolve engine.layers key)

/-- A quiet step leaves what the engine holds. -/
lemma Quiet.shown {layers layers' : List Entries} (quiet : Quiet layers layers') (key : KeyType) :
    LSMValue.shown (resolve layers' key) = LSMValue.shown (resolve layers key) :=
  congrArg (Option.map LSMValue.value) (quiet.current key)

lemma search_eq (list : Entries) (tiers : List (List SSTable)) (key : KeyType) :
    search list tiers key = resolve (list :: tiers.flatten.map SSTable.entries) key := by
  have tables : (tiers.flatten.findSome? fun table => table.get key) =
      resolve (tiers.flatten.map SSTable.entries) key := by
    rw [resolve, findSome?_map]
    apply LSMMergeIterator.findSome?_congr
    intro table _
    exact table.get_eq key
  rw [search, resolve_cons, tables]
  cases list.lookup key <;> rfl

variable {config : Config} {engine after : LSMTreeEngine} {label : Label}
  {undisturbed : KeyType → Prop} {value : KeyType → Option Bytes}

/-- With no memtable on its way to a tier, a snapshot has everything. -/
lemma read_snapshot (settled : engine.retired = []) (key : KeyType) :
    engine.read engine.snapshot key = engine.contents key := by
  rw [LSMTreeEngine.read, search_eq, LSMTreeEngine.contents, LSMTreeEngine.layers, settled]
  rfl

/-! ## What a scan delivers -/

/-- The entries of a scan have what is there for the undisturbed keys. -/
structure Delivered (undisturbed : KeyType → Prop) (value : KeyType → Option Bytes)
    (start : KeyType) (entries : List (KeyType × Bytes)) : Prop where
  ascending : Ascending entries
  reached : ∀ entry ∈ entries, start ≤ entry.1
  lookup : ∀ key, undisturbed key → start ≤ key → lookupEntry key entries = value key

/-- A scan under way: for an undisturbed key, what is there has been delivered or is left. -/
structure Scanning (undisturbed : KeyType → Prop) (value : KeyType → Option Bytes)
    (list : Entries) (start : KeyType) (merge : LSMMergeIterator)
    (delivered : List (KeyType × Bytes)) : Prop where
  ok : merge.Ok list
  ascending : Ascending delivered
  reached : ∀ entry ∈ delivered, start ≤ entry.1
  left : ∃ left, LSMMergeIterator.Delivers left merge.current (merge.find list ·) ∧
    (∀ key, undisturbed key → start ≤ key →
      (lookupEntry key delivered).or (LSMValue.shown (left key)) = value key) ∧
    ∀ {key entry}, left key = some entry → start ≤ key ∧ ∀ other ∈ delivered, other.1 < key

/-- A memtable grows, and stays as it is for the undisturbed keys. -/
structure Grows (undisturbed : KeyType → Prop) (list list' : Entries) : Prop where
  same : ∀ {key}, undisturbed key → list'.lookup key = list.lookup key
  kept : ∀ {key}, (list.lookup key).isSome → (list'.lookup key).isSome

lemma Grows.refl (list : Entries) : Grows undisturbed list list := ⟨fun _ => rfl, id⟩

variable {key : KeyType} {memTables : Nat → MemTable} {active client : Nat}

lemma Grows.insert (list : Entries) (disturbed : ¬ undisturbed key) (entry : LSMValue) :
    Grows undisturbed list (list.insert key entry) := by
  constructor
  · intro query undisturbed
    apply lookup_insert_of_ne
    rintro rfl
    exact disturbed undisturbed
  · intro query there
    by_cases same : query = key
    · rw [same, lookup_insert_self]
      rfl
    · rw [lookup_insert_of_ne same]
      exact there

section

variable {list list' : Entries} {start : KeyType} {merge : LSMMergeIterator}
  {delivered : List (KeyType × Bytes)}

lemma find_lowerBound (list : Entries) (start key : KeyType) :
    (LSMCursor.memTable (lowerBound list start)).find list key =
      if start ≤ key then list.lookup key else none := by
  rw [LSMCursor.find]
  cases first : lowerBound list start with
  | none =>
    symm
    apply (ite_eq_right_iff).mpr
    intro above
    exact firstKey_eq_none first (decide_eq_true above)
  | some here =>
    obtain ⟨above, -, least⟩ := firstKey_eq_some first
    have above := of_decide_eq_true above
    simp only [any_some, decide_eq_true_eq]
    by_cases later : start ≤ key
    · rw [if_pos later]
      cases found : list.lookup key with
      | none => exact ite_self _
      | some entry => exact if_pos (least (decide_eq_true later) found)
    · rw [if_neg later]
      apply if_neg
      intro reached
      exact later (above.trans reached)

lemma find_newIterator (table : SSTable) (list : Entries) (start key : KeyType) :
    (LSMCursor.ssTable (table.newIterator start)).find list key =
      if start ≤ key then table.entries.lookup key else none := by
  rw [LSMCursor.find, SSTable.newIterator_eq]
  exact lookup_entriesFrom ..

/-- A table that ends before the start has nothing from there on. -/
lemma lookup_of_maxKey_lt {table : SSTable}
    (ended : table.maxKey.any (fun greatest => decide (greatest < start)) = true)
    (reached : start ≤ key) : table.entries.lookup key = none := by
  cases found : table.entries.lookup key with
  | none => rfl
  | some entry =>
    obtain ⟨greatest, isMax, above⟩ := SSTable.le_maxKey (lookup_eq_some.mp found)
    rw [isMax] at ended
    exact absurd (of_decide_eq_true ended) (not_lt.mpr (reached.trans above))

lemma find_tableCursors (tables : List SSTable) (start key : KeyType) :
    ((tables.filter fun table => !table.maxKey.any fun greatest => decide (greatest < start)).map
      fun table => LSMCursor.ssTable (table.newIterator start)).findSome?
        (LSMCursor.find list key) =
      if start ≤ key then resolve (tables.map SSTable.entries) key else none := by
  induction tables with
  | nil => exact (ite_self _).symm
  | cons table rest ih =>
    rw [map_cons, resolve_cons]
    by_cases ended : table.maxKey.any (fun greatest => decide (greatest < start)) = true
    · rw [filter_cons_of_neg (by simp [ended]), ih]
      split
      next reached =>
        rw [lookup_of_maxKey_lt ended reached]
        rfl
      · rfl
    · rw [List.filter_cons_of_pos (by simpa using ended), map_cons,
        findSome?_cons, find_newIterator, ih]
      by_cases reached : start ≤ key
      · simp only [if_pos reached]
        cases table.entries.lookup key <;> rfl
      · simp only [if_neg reached]

/-- The cursors of a scan have everything from its start on. -/
lemma find_scanCursors (list : Entries) (tiers : List (List SSTable)) (start key : KeyType) :
    (scanCursors list tiers start).findSome? (LSMCursor.find list key) =
      if start ≤ key then search list tiers key else none := by
  rw [scanCursors, findSome?_cons, find_lowerBound, find_tableCursors, search_eq, resolve_cons]
  by_cases reached : start ≤ key
  · simp only [if_pos reached]
    cases list.lookup key <;> rfl
  · simp only [if_neg reached]

lemma scanCursors_ok (list : Entries) (tiers : List (List SSTable)) (start : KeyType) :
    ∀ cursor ∈ scanCursors list tiers start, cursor.Ok list := by
  intro cursor mem
  rcases mem_cons.mp mem with rfl | mem
  · intro here first
    obtain ⟨-, ⟨entry, found⟩, -⟩ := firstKey_eq_some first
    rw [found]
    rfl
  · obtain ⟨table, -, rfl⟩ := mem_map.mp mem
    rw [SSTable.newIterator_eq]
    exact table.entries.ascending_entriesFrom start

lemma Scanning.opened {tiers : List (List SSTable)}
    (there : ∀ key, undisturbed key → LSMValue.shown (search list tiers key) = value key) :
    Scanning undisturbed value list start (.new list (scanCursors list tiers start)) [] := by
  obtain ⟨ok, delivers⟩ := LSMMergeIterator.new_ok (scanCursors_ok list tiers start)
  refine ⟨ok, ascending_nil, nofun, _, delivers, ?_, ?_⟩
  · intro key undisturbed reached
    rw [find_scanCursors, if_pos reached]
    exact there key undisturbed
  · intro key entry found
    rw [find_scanCursors] at found
    split at found
    next reached => exact ⟨reached, nofun⟩
    · cases found

/-- What `Scan` shows of one entry. -/
lemma lookupEntry_shown (key query : KeyType) (entry : LSMValue) :
    lookupEntry query (if entry.deleted then [] else [(key, entry.value)]) =
      if query = key then LSMValue.shown (some entry) else none := by
  cases gone : entry.deleted with
  | true => simp [LSMValue.shown, Option.filter, LSMValue.live, gone]
  | false =>
    by_cases same : query = key
    · simp [LSMValue.shown, Option.filter, LSMValue.live, gone, same, lookupEntry]
    · simp [lookupEntry, same, Ne.symm same]

lemma Scanning.next (scanning : Scanning undisturbed value list start merge delivered)
    {key : KeyType} (valid : merge.current = some (key, entry)) :
    Scanning undisturbed value list start (merge.advance list)
      (delivered ++ if entry.deleted then [] else [(key, entry.value)]) := by
  obtain ⟨left, delivers, there, later⟩ := scanning.left
  rw [valid] at delivers
  obtain ⟨here, first, rest⟩ := delivers.least
  obtain ⟨ok, delivers'⟩ := scanning.ok.advance
  obtain ⟨reached, above⟩ := later here
  have shown : ∀ other ∈ (if entry.deleted then [] else [(key, entry.value)]), other.1 = key := by
    intro other mem
    split at mem
    · cases mem
    · cases mem_singleton.mp mem
      rfl
  constructor
  · exact ok
  · apply ascending_append.mpr
    refine ⟨scanning.ascending, ?_, ?_⟩
    · split
      · exact ascending_nil
      · exact pairwise_singleton ..
    · intro other mem other' mem'
      rw [shown other' mem']
      exact above other mem
  · intro other mem
    rcases mem_append.mp mem with mem | mem
    · exact scanning.reached other mem
    · rw [shown other mem]
      exact reached
  · refine ⟨_, delivers', ?_, ?_⟩
    · intro query undisturbed start_le
      rw [← there query undisturbed start_le, lookupEntry_append, lookupEntry_shown, rest]
      rcases lt_trichotomy query key with less | rfl | greater
      · rw [if_neg less.ne, if_pos less.le, first query less]
        cases lookupEntry query delivered <;> rfl
      · have fresh : lookupEntry query delivered = none :=
          lookupEntry_eq_none.mpr fun other mem => (above other mem).ne
        rw [if_pos rfl, if_pos le_rfl, here, fresh]
        cases LSMValue.shown (some entry) <;> rfl
      · rw [if_neg greater.ne', if_neg (not_le.mpr greater)]
        cases lookupEntry query delivered <;> rfl
    · intro query found isLeft
      rw [rest] at isLeft
      split at isLeft
      · cases isLeft
      next beyond =>
        obtain ⟨start_le, above'⟩ := later isLeft
        refine ⟨start_le, ?_⟩
        intro other mem
        rcases mem_append.mp mem with mem | mem
        · exact above' other mem
        · rw [shown other mem]
          exact not_le.mp beyond

lemma Scanning.ended (scanning : Scanning undisturbed value list start merge delivered)
    (ended : merge.current = none) : Delivered undisturbed value start delivered := by
  obtain ⟨left, delivers, there, -⟩ := scanning.left
  rw [ended] at delivers
  refine ⟨scanning.ascending, scanning.reached, ?_⟩
  intro key undisturbed reached
  rw [← there key undisturbed reached, delivers.nothing]
  exact (or_none ..).symm

/-- Cursors that have passed a key have nothing for it later either. -/
lemma find_of_passed (ok : merge.Ok list) (ok' : merge.Ok list')
    (passed : ∀ query ≤ key, merge.find list query = none) : merge.find list' key = none := by
  apply List.findSome?_eq_none_iff.mpr
  intro cursor mem
  cases stands : cursor.key with
  | none => exact LSMCursor.find_of_invalid stands
  | some here =>
    apply cursor.find_eq_none_of_lt (ok'.cursors cursor mem) stands
    by_contra early
    obtain ⟨entry, -, found⟩ := cursor.find_key (ok.cursors cursor mem) stands
    have none := List.findSome?_eq_none_iff.mp (passed here (not_lt.mp early)) cursor mem
    rw [found] at none
    cases none

lemma Scanning.grows (scanning : Scanning undisturbed value list start merge delivered)
    (grows : Grows undisturbed list list') :
    Scanning undisturbed value list' start merge delivered := by
  have ok : merge.Ok list' := by
    refine ⟨?_, scanning.ok.nodup, scanning.ok.heap⟩
    intro cursor mem
    have ok := scanning.ok.cursors cursor mem
    cases cursor with
    | memTable node => exact fun here stands => grows.kept (ok here stands)
    | ssTable remaining => exact ok
  have same {key : KeyType} (still : undisturbed key) :
      merge.find list' key = merge.find list key := by
    apply LSMMergeIterator.findSome?_congr
    intro cursor _
    cases cursor with
    | memTable node => simp only [LSMCursor.find, grows.same still]
    | ssTable remaining => rfl
  obtain ⟨left, delivers, there, later⟩ := scanning.left
  refine ⟨ok, scanning.ascending, scanning.reached, ?_⟩
  cases current : merge.current with
  | none =>
    rw [current] at delivers
    have nothing (key : KeyType) : merge.find list' key = none := by
      apply find_of_passed scanning.ok ok
      intro query _
      rw [← congrFun delivers.same query]
      exact delivers.nothing query
    refine ⟨_, .done nothing, ?_, ?_⟩
    · intro key still reached
      rw [nothing, ← there key still reached, delivers.nothing]
    · intro key entry found
      rw [nothing] at found
      cases found
  | some entry =>
    rw [current] at delivers
    obtain ⟨here, first, rest⟩ := delivers.least
    obtain ⟨start_le, above⟩ := later here
    refine ⟨fun key => if key ≤ entry.1 then left key else merge.find list' key,
      .entry ?_ ?_ ?_, ?_, ?_⟩
    · rw [if_pos le_rfl, here]
    · intro query less
      rw [if_pos less.le, first query less]
    · intro query
      split
      next passed =>
        apply find_of_passed scanning.ok ok
        intro other le
        rw [rest, if_pos (le.trans passed)]
      · rfl
    · intro key still reached
      rw [← there key still reached]
      beta_reduce
      split
      · rfl
      next beyond => rw [same still, rest, if_neg beyond]
    · intro key found isLeft
      beta_reduce at isLeft
      split at isLeft
      · exact later isLeft
      next beyond =>
        have greater := not_le.mp beyond
        exact ⟨start_le.trans greater.le, fun other mem => (above other mem).trans greater⟩

end

/-! ## What a client has read -/

/-- The call is a `Put` or a `Delete`, or it closes the engine; such a call may flush. -/
def Call.Writes : Call → Prop
  | .put .. | .delete .. | .close => True
  | .get .. | .scan .. => False

/-- What a client has read so far, and what it is about to read, is what was there for the
undisturbed keys. -/
def Reads (undisturbed : KeyType → Prop) (value : KeyType → Option Bytes)
    (memTables : Nat → MemTable) (active : Nat) : Client → Prop
  | .getting key snapshot | .deleting key snapshot =>
    snapshot.memTable ≤ active ∧ (undisturbed key →
      LSMValue.shown (search (memTables snapshot.memTable).list snapshot.tiers key) = value key)
  | .opening _ snapshot =>
    snapshot.memTable ≤ active ∧ ∀ key, undisturbed key →
      LSMValue.shown (search (memTables snapshot.memTable).list snapshot.tiers key) = value key
  | .scanning start memTable merge delivered =>
    memTable ≤ active ∧
      Scanning undisturbed value (memTables memTable).list start merge delivered
  | .lookedUp key existed => undisturbed key → existed = (value key).isSome
  | .flushing call _ _ | .helping call _ => call.Writes
  | .returning (.get key) answer => undisturbed key → answer = .found (value key)
  | .returning (.scan start) answer =>
    ∃ entries, answer = .entries entries ∧ Delivered undisturbed value start entries
  | .idle | .called _ | .returning (.put ..) _ | .returning (.delete ..) _ | .returning .close _ =>
    True

lemma search_grows {list list' : Entries} (grows : Grows undisturbed list list')
    (still : undisturbed key) (tiers : List (List SSTable)) :
    search list' tiers key = search list tiers key := by
  rw [search, search, grows.same still]

lemma Reads.grows {memTables' : Nat → MemTable} {client : Client}
    (reads : Reads undisturbed value memTables active client) (later : active ≤ active')
    (grows : ∀ memTable ≤ active, Grows undisturbed (memTables memTable).list (memTables'
      memTable).list) : Reads undisturbed value memTables' active' client := by
  cases client with
  | returning call answer => cases call <;> exact reads
  | getting key snapshot | deleting key snapshot =>
    refine ⟨reads.1.trans later, ?_⟩
    intro still
    rw [search_grows (grows _ reads.1) still]
    exact reads.2 still
  | opening start snapshot =>
    refine ⟨reads.1.trans later, ?_⟩
    intro key still
    rw [search_grows (grows _ reads.1) still]
    exact reads.2 key still
  | scanning start memTable merge delivered =>
    exact ⟨reads.1.trans later, reads.2.grows (grows _ reads.1)⟩
  | _ => exact reads

lemma reads_returning (writes : call.Writes) (answer : Answer) :
    Reads undisturbed value memTables active (.returning call answer) := by
  cases call with
  | get | scan => exact writes.elim
  | _ => trivial

/-- What a step does to the memtables, if it writes no undisturbed key. -/
lemma Step.grows (step : Step config engine label after)
    (disturbs : ∀ client key, label = .write client key → ¬ undisturbed key) :
    engine.active ≤ after.active ∧ ∀ memTable ≤ engine.active,
      Grows undisturbed (engine.memTables memTable).list (after.memTables memTable).list := by
  have written (key : KeyType) (op : Wal.LogOp) (disturbed : ¬ undisturbed key) (memTable : Nat) :
      Grows undisturbed (engine.memTables memTable).list
        ((engine.write config key op).memTables memTable).list := by
    by_cases isActive : memTable = engine.active
    · subst isActive
      simp only [write, update_self]
      exact .insert _ disturbed _
    · simp only [write, update_of_ne isActive]
      exact .refl _
  have ended (runner : Option Nat) (thrown : Option String) (engine : LSMTreeEngine) :
      (engine.endPass runner thrown).active = engine.active ∧
        (engine.endPass runner thrown).memTables = engine.memTables := by
    rw [endPass_only]
    exact ⟨rfl, rfl⟩
  cases step with
  | putWrite | deleteWrite =>
    exact ⟨le_rfl, fun memTable _ => written _ _ (disturbs _ _ rfl) memTable⟩
  | swap =>
    rw [swapMemTable_eq]
    refine ⟨Nat.le_succ _, ?_⟩
    intro memTable old
    have ne := Nat.ne_of_lt (Nat.lt_succ_of_le old)
    have same := update_of_ne ne ({} : MemTable) engine.memTables
    exact same.symm ▸ Grows.refl _
  | flushNothing =>
    rw [retire_eq]
    exact ⟨le_rfl, fun memTable _ => .refl _⟩
  | nothingToDo | compact | compactThrows =>
    rw [(ended ..).1, (ended ..).2]
    exact ⟨le_rfl, fun memTable _ => .refl _⟩
  | _ =>
    exact ⟨le_rfl, fun memTable _ => .refl _⟩

lemma reads_update {clients : Nat → Client}
    (others : Reads undisturbed value memTables active (clients client))
    (own : mover = client → Reads undisturbed value memTables active state) :
    Reads undisturbed value memTables active (update clients mover state client) := by
  by_cases same : client = mover
  · rw [same, update_self]
    exact own same.symm
  · rw [update_of_ne same]
    exact others

lemma reads_endPass (engine : LSMTreeEngine)
    (reads : Reads undisturbed value memTables active (engine.clients client))
    (runner : Option Nat) (thrown : Option String) : Reads undisturbed value memTables active
      ((engine.endPass runner thrown).clients client) := by
  cases runner with
  | none => exact reads
  | some helper =>
    simp only [endPass]
    split
    next call answer helps =>
      apply reads_update reads
      rintro rfl
      rw [helps] at reads
      exact reads_returning reads _
    · exact reads

/-- Every step keeps what a client has read, if its snapshots have the values of the
undisturbed keys and none of these is written. -/
lemma Step.reads (step : Step config engine label after)
    (reads : Reads undisturbed value engine.memTables engine.active (engine.clients client))
    (disturbs : ∀ writer key, label = .write writer key → ¬ undisturbed key)
    (taken : label = .snapshot client → ∀ key, undisturbed key → engine.read engine.snapshot key =
      value key) : Reads undisturbed value after.memTables after.active (after.clients client) := by
  have kept := reads.grows (step.grows disturbs).1 (step.grows disturbs).2
  have stood {state : Client} (stands : engine.clients client = state) :
      Reads undisturbed value engine.memTables engine.active state := stands ▸ reads
  cases step with
  | start | finish | putReject | closeNothing
  | closeFlush => exact reads_update kept fun _ => trivial
  | getSnapshot stands | deleteSnapshot stands =>
    apply reads_update kept
    rintro rfl
    exact ⟨le_rfl, taken rfl _⟩
  | scanSnapshot stands =>
    apply reads_update kept
    rintro rfl
    exact ⟨le_rfl, taken rfl⟩
  | getRead stands =>
    apply reads_update kept
    rintro rfl
    exact fun still => congrArg Answer.found ((stood stands).2 still)
  | deleteRead stands =>
    apply reads_update kept
    rintro rfl
    exact fun still => congrArg Option.isSome ((stood stands).2 still)
  | scanOpen stands =>
    apply reads_update kept
    rintro rfl
    exact ⟨(stood stands).1, .opened (stood stands).2⟩
  | scanNext stands valid =>
    apply reads_update kept
    rintro rfl
    exact ⟨(stood stands).1, (stood stands).2.next valid⟩
  | scanEnd stands ended =>
    apply reads_update kept
    rintro rfl
    exact ⟨_, rfl, (stood stands).2.ended ended⟩
  | putWrite | deleteWrite =>
    apply reads_update kept
    intro _
    rw [afterWrite]
    split <;> trivial
  | swap stands =>
    rw [swapMemTable_eq] at kept ⊢
    apply reads_update kept
    rintro rfl
    have writes := stood stands
    exact writes
  | buildStart stands | buildEnd stands | walRemove stands | help stands =>
    apply reads_update kept
    rintro rfl
    have writes := stood stands
    exact writes
  | flushNothing stands =>
    rw [retire_eq] at kept ⊢
    apply reads_update kept
    rintro rfl
    exact reads_returning (stood stands) _
  | installThrows stands | helpNot stands =>
    apply reads_update kept
    rintro rfl
    exact reads_returning (stood stands) _
  | install stands =>
    apply reads_update kept
    rintro rfl
    have writes := stood stands
    rw [afterFlush]
    split
    · exact writes
    · exact reads_returning (stood stands) _
  | nothingToDo | compact | compactThrows =>
    apply reads_endPass
    exact kept
  | _ => exact kept

end DbEngine.Lsm
