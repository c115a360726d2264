import DbEngine.Lib.RedoLog
import DbEngine.Lsm.Engine

/-!
# Recovery of the memtable WALs

`RecoverMemWALOnStartup`: the records of all generations are replayed into the memtable and
logged again in a new generation, and then the old files are removed.  A recovery that is
killed leaves the old generations and a part of the new one, which the next recovery replays
last.

The records are of any type that says which write a record is, if it is one.
-/

namespace DbEngine.Lsm

open Lib
open Wal (LogOp)
open LSMTreeEngine (entryOf)

variable {ρ : Type}

/-- All records, by ascending generation. -/
def walRecords (memWals : SortedMap Nat (List ρ)) : List ρ :=
  (memWals.entries.map Prod.snd).flatten

/-- `new_generation`. -/
def newGeneration (memWals : SortedMap Nat (List ρ)) : Nat :=
  (memWals.entries.getLast?.map fun wal => wal.1 + 1).getD 0

/-- `RecoverMemWALOnStartup` under way. -/
structure Recovery (ρ : Type) where
  /-- The old WALs that have not been removed. -/
  old : SortedMap Nat (List ρ)
  generation : Nat
  /-- What has been logged again. -/
  copied : List ρ
  /-- What is still to be replayed. -/
  left : List ρ
  memTable : MemTable

namespace Recovery

/-- The new WAL has been created. -/
def begun (memWals : SortedMap Nat (List ρ)) : Recovery ρ where
  old := memWals
  generation := newGeneration memWals
  copied := []
  left := walRecords memWals
  memTable := {}

/-- The WALs that are there. -/
def memWals (recovery : Recovery ρ) : SortedMap Nat (List ρ) :=
  recovery.old.insert recovery.generation recovery.copied

/-- All records have been replayed, and the old files are gone. -/
structure Done (recovery : Recovery ρ) : Prop where
  left : recovery.left = []
  old : recovery.old.entries = []

section

variable (effect : ρ → Option (KeyType × LogOp))

/-- The memtable takes a record that is a write.  The entries of a recovered memtable come
before all that are written from then on. -/
def replay (memTable : MemTable) (record : ρ) : MemTable :=
  match effect record with
  | some (key, op) => memTable.write key (entryOf op 0)
  | none => memTable

/-- The steps between which a recovery can be killed. -/
inductive Step (recovery : Recovery ρ) : Recovery ρ → Prop where
  | relog (next : recovery.left = record :: rest) :
      Step recovery { recovery with
        copied := recovery.copied ++ [record]
        left := rest
        memTable := replay effect recovery.memTable record }
  | remove {generation : Nat} (copied : recovery.left = [])
      (first : recovery.old.entries = (generation, records) :: rest) :
      Step recovery { recovery with old := recovery.old.erase generation }

/-- Where a recovery of some WALs can get. -/
def Reaches (memWals : SortedMap Nat (List ρ)) : Recovery ρ → Prop :=
  Relation.ReflTransGen (Step effect) (begun memWals)

/-- A recovery that is killed at an allowed point leaves other WALs. -/
def Leaves (allowed : Recovery ρ → Prop) (before after : SortedMap Nat (List ρ)) : Prop :=
  ∃ recovery, Reaches effect before recovery ∧ allowed recovery ∧ recovery.memWals = after

end

end Recovery

/-! ## Files -/

variable {memWals : SortedMap Nat (List ρ)}

lemma lt_newGeneration (mem : wal ∈ memWals.entries) : wal.1 < newGeneration memWals := by
  rcases eq_nil_or_concat memWals.entries with none | ⟨before, last, split⟩
  · rw [none] at mem
    cases mem
  · have ascending := memWals.ascending
    rw [split, concat_eq_append] at mem ascending
    rw [newGeneration, split, concat_eq_append, List.getLast?_concat]
    rcases mem_append.mp mem with earlier | isLast
    · have below := (ascending_append.mp ascending).2.2 wal earlier last mem_cons_self
      exact Nat.lt_succ_of_lt below
    · rw [mem_singleton.mp isLast]
      exact Nat.lt_succ_self _

lemma walRecords_insert_last {generation : Nat}
    (last : ∀ wal ∈ memWals.entries, wal.1 < generation) (records : List ρ) :
    walRecords (memWals.insert generation records) = walRecords memWals ++ records := by
  rw [walRecords, SortedMap.entries_insert_last last]
  simp [walRecords]

/-! ## What a recovery has done -/

variable {effect : ρ → Option (KeyType × LogOp)} {memWals : SortedMap Nat (List ρ)}
  {recovery : Recovery ρ}

/-- The records are copied in order, and files are removed only after that. -/
structure Recovering (effect : ρ → Option (KeyType × LogOp)) (memWals : SortedMap Nat (List ρ))
    (recovery : Recovery ρ) : Prop where
  generation : recovery.generation = newGeneration memWals
  records : walRecords memWals = recovery.copied ++ recovery.left
  old : ∃ removed, memWals.entries = removed ++ recovery.old.entries ∧
    (recovery.left ≠ [] → removed = [])
  memTable : recovery.memTable = recovery.copied.foldl (Recovery.replay effect) {}

lemma Recovering.step (recovering : Recovering effect memWals recovery)
    (step : Recovery.Step effect recovery after) : Recovering effect memWals after := by
  cases step with
  | @relog record rest next =>
    have records := recovering.records
    obtain ⟨removed, split, whole⟩ := recovering.old
    refine ⟨recovering.generation, ?_, ⟨removed, split, ?_⟩, ?_⟩
    · rw [records, next]
      simp
    · exact fun _ => whole (by rw [next]; exact cons_ne_nil _ _)
    · rw [foldl_append, ← recovering.memTable]
      rfl
  | @remove records rest generation copied first =>
    obtain ⟨removed, split, -⟩ := recovering.old
    refine ⟨recovering.generation, recovering.records,
      ⟨removed ++ [(generation, records)], ?_, fun some => absurd copied some⟩, recovering.memTable⟩
    rw [split, first, SortedMap.entries_erase_first first]
    simp

lemma Recovery.Reaches.recovering (reaches : Recovery.Reaches effect memWals recovery) :
    Recovering effect memWals recovery := by
  induction reaches with
  | refl => exact ⟨rfl, rfl, ⟨[], rfl, fun _ => rfl⟩, rfl⟩
  | tail _ step ih => exact ih.step step

/-- The WALs that are left are the old ones that were not removed and the copy. -/
lemma Recovering.walRecords (recovering : Recovering effect memWals recovery) :
    walRecords recovery.memWals = Lsm.walRecords recovery.old ++ recovery.copied := by
  obtain ⟨removed, split, -⟩ := recovering.old
  apply walRecords_insert_last
  intro wal mem
  rw [recovering.generation]
  apply lt_newGeneration
  rw [split]
  exact mem_append_right _ mem

/-- A kill does no harm where no key that has been copied is still to come. -/
lemma Recovering.lastOp (recovering : Recovering effect memWals recovery)
    (settled : Settled effect recovery.copied recovery.left) (key : KeyType) :
    lastOp effect (Lsm.walRecords recovery.memWals) key =
      lastOp effect (Lsm.walRecords memWals) key := by
  rw [recovering.walRecords]
  obtain ⟨removed, split, whole⟩ := recovering.old
  by_cases copied : recovery.left = []
  · have records := recovering.records
    rw [copied, append_nil] at records
    rw [← records]
    apply lastOp_append_of_subset
    rw [Lsm.walRecords, Lsm.walRecords, split, map_append, flatten_append]
    exact List.subset_append_right _ _
  · have same : Lsm.walRecords recovery.old = recovery.copied ++ recovery.left := by
      rw [← recovering.records, Lsm.walRecords, Lsm.walRecords, split, whole copied]
      rfl
    rw [same, recovering.records]
    exact settled.lastOp_append key

/-! ## The memtable -/

lemma lookup_replay (memTable : MemTable) (record : ρ) (key : KeyType) :
    (Recovery.replay effect memTable record).list.lookup key =
      ((opOn effect key record).map (entryOf · 0)).or (memTable.list.lookup key) := by
  rw [Recovery.replay, opOn]
  cases effect record with
  | none => rfl
  | some write =>
    obtain ⟨written, op⟩ := write
    simp only [MemTable.write, bind_some, SortedMap.lookup_insert, eq_comm]
    split <;> rfl

lemma lookup_foldl_replay (records : List ρ) (key : KeyType) :
    (records.foldl (Recovery.replay effect) {}).list.lookup key =
      (lastOp effect records key).map (entryOf · 0) := by
  induction records using reverseRecOn with
  | nil => rfl
  | append_singleton records record ih =>
    rw [foldl_append, foldl_cons, List.foldl_nil, lookup_replay, ih, lastOp_concat]
    cases opOn effect key record <;> rfl

/-- A complete recovery leaves each key as its last operation does. -/
lemma Recovering.lookup (recovering : Recovering effect memWals recovery)
    (done : recovery.Done) (key : KeyType) : recovery.memTable.list.lookup key =
      (Lib.lastOp effect (Lsm.walRecords memWals) key).map (entryOf · 0) := by
  have records := recovering.records
  rw [done.left, append_nil] at records
  rw [recovering.memTable, lookup_foldl_replay, records]

/-- A recovery can be completed from wherever it is. -/
lemma exists_done (effect : ρ → Option (KeyType × LogOp)) (recovery : Recovery ρ) :
    ∃ after, Relation.ReflTransGen (Recovery.Step effect) recovery after ∧ after.Done := by
  -- First all records are copied, then all files are removed.
  have removes (recovery : Recovery ρ) (copied : recovery.left = []) :
      ∃ after, Relation.ReflTransGen (Recovery.Step effect) recovery after ∧ after.Done := by
    induction rest : recovery.old.entries generalizing recovery with
    | nil => exact ⟨recovery, .refl, copied, rest⟩
    | cons wal others ih =>
      have step := @Recovery.Step.remove _ effect recovery _ _ _ copied rest
      rcases ih { recovery with old := recovery.old.erase wal.1 } copied
        (SortedMap.entries_erase_first rest) with ⟨after, steps, done⟩
      exact ⟨after, .head step steps, done⟩
  induction rest : recovery.left generalizing recovery with
  | nil => exact removes recovery rest
  | cons record others ih =>
    have step := @Recovery.Step.relog _ effect recovery _ _ rest
    rcases ih { recovery with
      copied := recovery.copied ++ [record]
      left := others
      memTable := Recovery.replay effect recovery.memTable record } rfl with ⟨after, steps, done⟩
    exact ⟨after, .head step steps, done⟩

/-! ## Kills -/

lemma lastOp_of_leaves (kills : Relation.ReflTransGen (Recovery.Leaves effect fun recovery =>
      Settled effect recovery.copied recovery.left) memWals killed) (key : KeyType) :
    lastOp effect (walRecords killed) key = lastOp effect (walRecords memWals) key := by
  induction kills with
  | refl => rfl
  | tail _ kill ih =>
    obtain ⟨recovery, reaches, settled, rfl⟩ := kill
    rw [← ih]
    exact reaches.recovering.lastOp settled key

/-- Recovery is restartable: after any number of kills, each at a point where no key that has
been copied is still to come, a recovery can be completed and leaves the memtable as one that
was not interrupted, with the last operation on every key. -/
theorem recovery_restartable {killed : SortedMap Nat (List ρ)}
    (kills : Relation.ReflTransGen (Recovery.Leaves effect fun recovery =>
      Settled effect recovery.copied recovery.left) memWals killed) :
    (∃ recovery, Recovery.Reaches effect killed recovery ∧ recovery.Done) ∧
      ∀ recovery, Recovery.Reaches effect killed recovery → recovery.Done →
        (∀ key, recovery.memTable.list.lookup key =
          (lastOp effect (walRecords memWals) key).map (entryOf · 0)) ∧
        ∀ uninterrupted, Recovery.Reaches effect memWals uninterrupted → uninterrupted.Done →
          recovery.memTable.list = uninterrupted.memTable.list := by
  refine ⟨exists_done effect _, ?_⟩
  intro recovery reaches done
  have lookup (key : KeyType) : recovery.memTable.list.lookup key =
      (lastOp effect (walRecords memWals) key).map (entryOf · 0) := by
    rw [reaches.recovering.lookup done, lastOp_of_leaves kills]
  refine ⟨lookup, ?_⟩
  intro uninterrupted reaches' done'
  apply SortedMap.ext_lookup
  intro key
  rw [lookup, reaches'.recovering.lookup done']

/-- Two writes of different keys. -/
def twoKeys : SortedMap Nat (List (KeyType × LogOp)) :=
  SortedMap.empty.insert 0 [(7, .put [1]), (8, .delete)]

/-- A kill after the first record was logged again. -/
theorem recovery_restartable_twoKeys :
    ∃ killed, killed.entries = [(0, [(7, .put [1]), (8, .delete)]), (1, [(7, .put [1])])] ∧
      Recovery.Leaves some (fun recovery => Settled some recovery.copied recovery.left)
        twoKeys killed ∧
      ∃ recovery, Recovery.Reaches some killed recovery ∧ recovery.Done ∧
        recovery.memTable.list.lookup 7 = some { value := [1], number := 0 } := by
  have reaches : Recovery.Reaches some twoKeys _ :=
    .single (@Recovery.Step.relog _ some (.begun twoKeys) _ _ rfl)
  have settled : Settled some [((7 : KeyType), LogOp.put [1])] [((8 : KeyType), LogOp.delete)] := by
    intro key copied
    by_cases same : key = 7
    · subst same
      decide
    · exact absurd (by simp [lastOp, opOn, Ne.symm same]) copied
  have leaves : Recovery.Leaves some (fun recovery => Settled some recovery.copied recovery.left)
      twoKeys _ := ⟨_, reaches, settled, rfl⟩
  rcases recovery_restartable (.single leaves) with ⟨⟨recovery, completes, done⟩, restores⟩
  refine ⟨_, by decide +kernel, leaves, recovery, completes, done, ?_⟩
  rw [(restores recovery completes done).1]
  decide +kernel

/-- Two writes of one key. -/
def oneKeyTwice : SortedMap Nat (List (KeyType × LogOp)) :=
  SortedMap.empty.insert 0 [(7, .put [1]), (7, .put [2])]

/-- Killed after the first of the two records was logged again, the next recovery brings back
the first value; without the kill it is the second. -/
theorem killed_recovery_restores_old_value :
    ∃ killed, Recovery.Leaves some (fun _ => True) oneKeyTwice killed ∧
      (∃ recovery, Recovery.Reaches some killed recovery ∧ recovery.Done ∧
        recovery.memTable.list.lookup 7 = some { value := [1], number := 0 }) ∧
      ∃ uninterrupted, Recovery.Reaches some oneKeyTwice uninterrupted ∧ uninterrupted.Done ∧
        uninterrupted.memTable.list.lookup 7 = some { value := [2], number := 0 } := by
  have reaches : Recovery.Reaches some oneKeyTwice _ :=
    .single (@Recovery.Step.relog _ some (.begun oneKeyTwice) _ _ rfl)
  refine ⟨_, ⟨_, reaches, trivial, rfl⟩, ?_, ?_⟩
  · rcases exists_done some (.begun _) with ⟨recovery, completes, done⟩
    refine ⟨recovery, completes, done, ?_⟩
    rw [Recovering.lookup (Recovery.Reaches.recovering completes) done]
    decide +kernel
  · rcases exists_done some (.begun _) with ⟨recovery, completes, done⟩
    refine ⟨recovery, completes, done, ?_⟩
    rw [Recovering.lookup (Recovery.Reaches.recovering completes) done]
    decide +kernel

end DbEngine.Lsm
