import DbEngine.Lsm.MemWalRecovery
import DbEngine.Lsm.OneWriter

/-!
# Memtables and their WALs

With one writer there are at most two memtables that are not in a table: the active one and
one that is being flushed.  The log of the active one is always there, and the log of the
other until its table is complete.
-/

namespace DbEngine.Lsm

open Lib SortedMap
open Function (update update_self update_of_ne)
open Wal (LogOp)
open LSMTreeEngine

/-- The write that an entry comes from. -/
def LSMValue.op (entry : LSMValue) : LogOp :=
  if entry.deleted then .delete else .put entry.value

/-- The records have the last write to every key of a memtable. -/
def Logs (records : List (KeyType × LogOp)) (memTable : MemTable) : Prop :=
  ∀ key, (memTable.list.lookup key).map LSMValue.op = lastOp some records key

lemma LSMValue.op_entryOf (op : LogOp) (number : Nat) : (entryOf op number).op = op := by
  cases op <;> rfl

lemma LSMValue.shown_some (entry : LSMValue) : LSMValue.shown (some entry) = entry.op.value := by
  obtain ⟨value, deleted, number⟩ := entry
  cases deleted <;> rfl

namespace Logs

variable {records : List (KeyType × LogOp)} {memTable : MemTable}

lemma empty : Logs [] {} := fun _ => rfl

lemma write (logs : Logs records memTable) (key : KeyType) (op : LogOp) (number : Nat) :
    Logs (records ++ [(key, op)]) (memTable.write key (entryOf op number)) := by
  intro query
  rw [MemTable.write, lastOp_concat, lookup_insert, opOn, bind_some]
  by_cases same : query = key
  · rw [if_pos same, if_pos same.symm, map_some, LSMValue.op_entryOf]
    rfl
  · rw [if_neg same, if_neg (Ne.symm same), logs query]
    rfl

end Logs

/-- The WALs of the active memtable, of the current generation, and of a retired one with its
generation. -/
def WalsOf (memTables : Nat → MemTable) (active current : Nat)
    (memWals : SortedMap Nat (List (KeyType × LogOp))) (old : Option (Nat × Nat)) : Prop :=
  ∃ records, Logs records (memTables active) ∧
    match old with
    | none => memWals = SortedMap.empty.insert current records
    | some (memTable, generation) => generation < current ∧
        ∃ older, Logs older (memTables memTable) ∧
          memWals = (SortedMap.empty.insert generation older).insert current records

namespace WalsOf

variable {memTables : Nat → MemTable} {active current : Nat}
  {memWals : SortedMap Nat (List (KeyType × LogOp))} {old : Option (Nat × Nat)}

lemma insert_insert {map : SortedMap Nat (List (KeyType × LogOp))} {key : Nat}
    (first second : List (KeyType × LogOp)) :
    (map.insert key first).insert key second = map.insert key second := by
  apply ext_lookup
  intro query
  rw [lookup_insert, lookup_insert, lookup_insert]
  split <;> rfl

/-- A write is logged and goes into the memtable. -/
lemma write (wals : WalsOf memTables active current memWals old)
    (other : ∀ memTable generation, old = some (memTable, generation) → memTable ≠ active)
    (key : KeyType) (op : LogOp) (number : Nat) :
    WalsOf (update memTables active ((memTables active).write key (entryOf op number)))
      active current
      (memWals.insert current ((memWals.lookup current).getD [] ++ [(key, op)])) old := by
  obtain ⟨records, logs, wals⟩ := wals
  refine ⟨records ++ [(key, op)], ?_, ?_⟩
  · rw [update_self]
    exact logs.write key op number
  · cases old with
    | none =>
      change memWals = _ at wals
      change memWals.insert _ _ = _
      rw [wals, lookup_insert_self, insert_insert]
      rfl
    | some wal =>
      obtain ⟨before, older, logsOlder, is⟩ := wals
      refine ⟨before, older, ?_, ?_⟩
      · rw [update_of_ne (other _ _ rfl)]
        exact logsOlder
      · rw [is, lookup_insert_self, insert_insert]
        rfl

/-- A new memtable with a new WAL. -/
lemma swap (wals : WalsOf memTables active current memWals none) :
    WalsOf (update memTables (active + 1) {}) (active + 1) (current + 1)
      (memWals.insert (current + 1) []) (some (active, current)) := by
  obtain ⟨records, logs, is⟩ := wals
  refine ⟨[], ?_, Nat.lt_succ_self _, records, ?_, ?_⟩
  · rw [update_self]
    exact .empty
  · rw [update_of_ne (ne_of_lt (Nat.lt_succ_self _))]
    exact logs
  · rw [is]

/-- The old WAL is removed. -/
lemma remove (wals : WalsOf memTables active current memWals (some (memTable, generation))) :
    WalsOf memTables active current (memWals.erase generation) none := by
  obtain ⟨records, logs, before, older, -, is⟩ := wals
  refine ⟨records, logs, ?_⟩
  change memWals.erase generation = _
  apply ext_lookup
  intro query
  rw [is, lookup_erase, lookup_insert, lookup_insert, lookup_insert]
  by_cases removed : query = generation
  · rw [if_pos removed, if_neg (ne_of_lt (removed ▸ before))]
    rfl
  · rw [if_neg removed]
    split <;> rfl

/-- What the WALs say of a key. -/
lemma lastOp_walRecords (wals : WalsOf memTables active current memWals old) (key : KeyType) :
    lastOp some (walRecords memWals) key = (((memTables active).list.lookup key).or
        (old.bind fun wal => (memTables wal.1).list.lookup key)).map LSMValue.op := by
  have single (generation : Nat) (records : List (KeyType × LogOp)) :
      walRecords (SortedMap.empty.insert generation records) = records := by
    rw [walRecords_insert_last fun wal mem => absurd mem not_mem_nil]
    rfl
  obtain ⟨records, logs, wals⟩ := wals
  cases old with
  | none =>
    have is : memWals = SortedMap.empty.insert current records := wals
    rw [is, single, ← logs key, bind_none, or_none]
  | some wal =>
    obtain ⟨before, older, logsOlder, is⟩ := wals
    have last : ∀ entry ∈ (SortedMap.empty.insert wal.2 older).entries, entry.1 < current := by
      intro entry mem
      rw [mem_singleton.mp mem]
      exact before
    rw [is, walRecords_insert_last last, single, lastOp_append, ← logs key, ← logsOlder key,
      bind_some]
    cases (memTables active).list.lookup key <;> rfl

end WalsOf

/-! ## Running -/

/-- The memtable that a client flushes and its WAL, while that is there. -/
def Client.oldWal : Client → Option (Nat × Nat)
  | .flushing _ _ (.retired memTable (some generation))
  | .flushing _ _ (.building memTable (some generation) _ _)
  | .flushing _ _ (.built memTable (some generation) _) => some (memTable, generation)
  | _ => none

/-- A client that flushes a memtable whose table is not complete, without a WAL. -/
def Client.Unlogged : Client → Prop
  | .flushing _ _ (.retired _ none) | .flushing _ _ (.building _ none _ _) => True
  | _ => False

/-- The writer's memtables are in their WALs. -/
structure Logged (writer : Nat) (engine : LSMTreeEngine) : Prop where
  taken : ¬ (engine.clients writer).Unlogged
  wals : ∃ current, engine.nextWalGeneration = current + 1 ∧
    WalsOf engine.memTables engine.active current engine.disk.memWals
      (engine.clients writer).oldWal

variable {config : Config} {engine after : LSMTreeEngine} {label : Label} {writer client : Nat}
  {state : Client}

lemma Client.flushed_of_oldWal (old : state.oldWal = some (memTable, generation)) :
    ∃ table, state.flushed = some (memTable, table) := by
  cases state with
  | flushing call answer flush =>
    cases flush with
    | retired _ wal | building _ wal | built _ wal =>
      cases wal with
      | none => cases old
      | some generation =>
        cases old
        exact ⟨_, rfl⟩
    | due | backlogged => cases old
  | _ => cases old

namespace Logged

/-- Memtables and WALs stay, and so does what the writer flushes. -/
lemma keep (logged : Logged writer engine)
    (taken : (after.clients writer).Unlogged → (engine.clients writer).Unlogged)
    (old : (after.clients writer).oldWal = (engine.clients writer).oldWal)
    (memTables : after.memTables = engine.memTables) (active : after.active = engine.active)
    (generation : after.nextWalGeneration = engine.nextWalGeneration)
    (memWals : after.disk.memWals = engine.disk.memWals) : Logged writer after := by
  refine ⟨fun unlogged => logged.taken (taken unlogged), ?_⟩
  rw [memTables, active, generation, memWals, old]
  exact logged.wals

/-- A client goes on with the WAL it has. -/
lemma move (logged : Logged writer engine) (stands : engine.clients client = before)
    (taken : state.Unlogged → before.Unlogged) (old : state.oldWal = before.oldWal) :
    Logged writer (engine.setClient client state) := by
  have moved : ((engine.setClient client state).clients writer).Unlogged →
      (engine.clients writer).Unlogged := by
    by_cases same : writer = client
    · subst same
      simp only [setClient, update_self, stands]
      exact taken
    · simp only [setClient, update_of_ne same]
      exact id
  refine logged.keep moved ?_ rfl rfl rfl rfl
  by_cases same : writer = client
  · subst same
    simp only [setClient, update_self, stands]
    exact old
  · simp only [setClient, update_of_ne same]

/-- The writer has written. -/
lemma write (logged : Logged writer engine) (sound : Sound engine)
    (on : config.walEnabled = true) (key : KeyType) (op : LogOp) :
    Logged writer (engine.write config key op) := by
  obtain ⟨current, generation, wals⟩ := logged.wals
  refine ⟨logged.taken, current, generation, ?_⟩
  have other : ∀ memTable generation, (engine.clients writer).oldWal = some (memTable, generation) →
      memTable ≠ engine.active := by
    intro memTable generation old
    obtain ⟨table, flushed⟩ := Client.flushed_of_oldWal old
    exact ne_of_lt (sound.flushes.below memTable (sound.flushes.mem flushed))
  have wrote := wals.write other key op engine.writes
  have logs : (engine.write config key op).disk.memWals = engine.disk.memWals.insert current
        ((engine.disk.memWals.lookup current).getD [] ++ [(key, op)]) := by
    simp only [LSMTreeEngine.write, if_pos on, Disk.log, generation, Nat.add_sub_cancel]
  rw [logs]
  exact wrote

lemma afterWrite (call : Call) (answer : Answer) :
    ¬ (engine.afterWrite config call answer).Unlogged ∧
      (engine.afterWrite config call answer).oldWal = none := by
  rw [LSMTreeEngine.afterWrite]
  split <;> exact ⟨id, rfl⟩

lemma endPass (logged : Logged writer engine) (runner : Option Nat) (thrown : Option String) :
    Logged writer (engine.endPass runner thrown) := by
  have ended : Logged writer { engine with compaction := none } :=
    logged.keep id rfl rfl rfl rfl rfl
  rcases endPass_cases runner thrown engine with eq | ⟨client, call, answer, helps, eq⟩
  · rw [eq]
    exact ended
  · rw [eq]
    exact ended.move helps id rfl

/-- The writer removes the WAL of the memtable it flushes. -/
lemma removeWal (logged : Logged writer engine)
    (old : (engine.clients writer).oldWal = some (memTable, generation))
    (taken : ¬ state.Unlogged) (none : state.oldWal = none) :
    Logged writer ((engine.removeWal (some generation)).setClient writer state) := by
  obtain ⟨current, next, wals⟩ := logged.wals
  rw [old] at wals
  constructor
  · simp only [setClient, update_self]
    exact taken
  · refine ⟨current, next, ?_⟩
    simp only [setClient, update_self, none]
    exact wals.remove

/-- Every step of one writer keeps the WALs up to date. -/
lemma step (logged : Logged writer engine) (sound : Sound engine)
    (solo : Solo writer engine.clients engine.retired) (on : config.walEnabled = true)
    (step : Step config engine label after) : Logged writer after := by
  cases step with
  | start _ stands | finish stands | getSnapshot stands | getRead stands | scanSnapshot stands
  | scanOpen stands | scanNext stands | scanEnd stands | putReject stands | deleteSnapshot stands
  | deleteRead stands | closeNothing stands | closeFlush stands | helpNot stands =>
    exact logged.move stands id rfl
  | putWrite stands | deleteWrite stands =>
    refine move (logged.write sound on _ _) stands ?_ ?_
    · exact fun unlogged => absurd unlogged (afterWrite ..).1
    · exact (afterWrite ..).2
  | @swap client call answer stands =>
    have own := solo.mover_eq stands id
    subst own
    obtain ⟨current, next, wals⟩ := logged.wals
    rw [stands] at wals
    have swapped : Logged client ({ engine with
        memTables := update engine.memTables (engine.active + 1) {}
        active := engine.active + 1
        retired := engine.active :: engine.retired
        nextWalGeneration := engine.nextWalGeneration + 1
        disk := { engine.disk with
          memWals := engine.disk.memWals.insert engine.nextWalGeneration [] } }.setClient client
            (.flushing call answer (.retired engine.active (some current)))) := by
      constructor
      · simp only [setClient, update_self]
        exact id
      · refine ⟨current + 1, congrArg Nat.succ next, ?_⟩
        simp only [setClient, update_self, next]
        exact wals.swap
    rw [swapMemTable, if_pos on, currentWal, if_pos on, next, Nat.add_sub_cancel]
    rw [next] at swapped
    exact swapped
  | @flushNothing client call answer memTable oldWal stands empty =>
    have own := solo.mover_eq stands id
    subst own
    have dropped : Logged client { engine with retired := engine.retired.erase memTable } :=
      logged.keep id rfl rfl rfl rfl rfl
    cases oldWal with
    | none => exact dropped.move stands (fun unlogged => unlogged.elim) rfl
    | some generation => exact dropped.removeWal (congrArg Client.oldWal stands) id rfl
  | @buildStart _ _ _ _ oldWal stands =>
    refine move ?_ stands ?_ ?_
    · exact logged.keep id rfl rfl rfl rfl rfl
    · cases oldWal <;> exact id
    · cases oldWal <;> rfl
  | @buildEnd _ _ _ _ oldWal _ _ _ stands =>
    refine move ?_ stands ?_ ?_
    · exact logged.keep id rfl rfl rfl rfl rfl
    · cases oldWal <;> exact fun unlogged => unlogged.elim
    · cases oldWal <;> rfl
  | walRemove stands =>
    have own := solo.mover_eq stands id
    subst own
    exact logged.removeWal (congrArg Client.oldWal stands) id rfl
  | @install _ call answer memTable table _ stands =>
    refine move ?_ stands ?_ ?_
    · exact logged.keep id rfl rfl rfl rfl rfl
    · rw [afterFlush]
      split <;> exact id
    · rw [afterFlush]
      split <;> rfl
  | installThrows stands | help stands =>
    refine move ?_ stands id rfl
    exact logged.keep id rfl rfl rfl rfl rfl
  | nothingToDo | compact | compactThrows =>
    apply endPass
    exact logged.keep id rfl rfl rfl rfl rfl
  | _ => exact logged.keep id rfl rfl rfl rfl rfl

end Logged

end DbEngine.Lsm
