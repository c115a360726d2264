import DbEngine.Lsm.MemWalRecovery
import DbEngine.Lsm.Recency

/-!
# Sessions

A database outlives the processes that use it.  An engine is constructed on the files that
are there, works, and is destroyed or killed; the next one finds what is left on disk.
-/

namespace DbEngine.Lsm

open Lib
open Wal (LogOp)
open LSMTreeEngine

/-! ## Opening -/

/-- `SSTable::Open` creates a file that is not there. -/
def Disk.touch (disk : Disk) (id : Nat) : Disk := disk.setTable id (disk.tableFile id)

/-- `LoadManifestOrInitialize`, and an empty memtable.  Empty tiers at the end are left out. -/
def LSMTreeEngine.loaded (config : Config) (disk : Disk) : LSMTreeEngine where
  tiers := (disk.manifest.tiers.rdropWhile List.isEmpty).map
    (List.map fun id => .build config.sizing id (disk.tableFile id).entries)
  nextSstableId := disk.manifest.nextSstableId
  disk := disk.manifest.tiers.flatten.foldl Disk.touch disk

/-- The engine after `RecoverMemWALOnStartup`. -/
def LSMTreeEngine.recovered (recovery : Recovery (KeyType × LogOp)) (engine : LSMTreeEngine) :
    LSMTreeEngine :=
  { engine with
    memTables := Function.update engine.memTables engine.active recovery.memTable
    nextWalGeneration := recovery.generation + 1
    disk := { engine.disk with memWals := recovery.memWals } }

/-! ## Sessions -/

/-- A database and the process that uses it, if there is one. -/
inductive Database where
  | down (disk : Disk)
  /-- In `RecoverMemWALOnStartup`. -/
  | recovering (engine : LSMTreeEngine) (recovery : Recovery (KeyType × LogOp))
  | up (engine : LSMTreeEngine)
  /-- In the destructor, before the background thread has been joined. -/
  | stopping (engine : LSMTreeEngine)
  /-- In the destructor after that. -/
  | closing (engine : LSMTreeEngine)

namespace Database

/-- The engine, once it is constructed. -/
def engine : Database → Option LSMTreeEngine
  | .up engine | .stopping engine | .closing engine => some engine
  | .down _ | .recovering .. => none

/-- What a kill leaves. -/
def disk : Database → Disk
  | .down disk => disk
  | .recovering engine recovery => { engine.disk with memWals := recovery.memWals }
  | .up engine | .stopping engine | .closing engine => engine.disk

/-- What can be seen of a step. -/
inductive Event where
  /-- The engine makes a step. -/
  | engine (label : Label)
  /-- The destructor has returned. -/
  | closed
  | killed
  | inner
  deriving Repr, DecidableEq

/-- The steps of a database. -/
inductive Step (config : Config) : Database → Event → Database → Prop where
  | load {disk : Disk} (off : config.walEnabled = false) :
      Step config (.down disk) .inner (.up (loaded config disk))
  | loadWal {disk : Disk} (on : config.walEnabled = true) :
      Step config (.down disk) .inner
        (.recovering (loaded config disk) (.begun disk.memWals))
  | recover {engine : LSMTreeEngine} (step : Recovery.Step some recovery after) :
      Step config (.recovering engine recovery) .inner (.recovering engine after)
  | recovered {engine : LSMTreeEngine} (done : recovery.Done) :
      Step config (.recovering engine recovery) .inner (.up (engine.recovered recovery))
  /-- The destructor is not among the calls of clients. -/
  | work {engine after : LSMTreeEngine} (step : Lsm.Step config engine label after)
      (called : ∀ client, label ≠ .start client .close) :
      Step config (.up engine) (.engine label) (.up after)
  | stop {engine : LSMTreeEngine} (idle : ∀ client, engine.clients client = .idle) :
      Step config (.up engine) .inner (.stopping engine)
  /-- The background thread goes on until it finds `stop_` set. -/
  | join {engine after : LSMTreeEngine} (step : Lsm.Step config engine label after)
      (stopped : ∀ client call, label ≠ .start client call) :
      Step config (.stopping engine) (.engine label) (.stopping after)
  | joined {engine : LSMTreeEngine} (idle : engine.clients client = .idle)
      (ended : engine.compaction = none) :
      Step config (.stopping engine) (.engine (.start client .close))
        (.closing (engine.setClient client (.called .close)))
  /-- The final flush, with a compaction of its own if need be.  An exception would end the
  process. -/
  | finish {engine after : LSMTreeEngine} (step : Lsm.Step config engine label after)
      (joined : after.compaction ≠ some ⟨none, .claimed⟩)
      (stopped : ∀ client call, label ≠ .start client call)
      (returns : ∀ client what, label ≠ .finish client .close (.runtimeError what)) :
      Step config (.closing engine) (.engine label) (.closing after)
  | close {engine : LSMTreeEngine} (idle : ∀ client, engine.clients client = .idle)
      (ended : engine.compaction = none) (removed : engine.obsolete = []) :
      Step config (.closing engine) .closed (.down engine.disk)
  | kill (database : Database) : Step config database .killed (.down database.disk)

/-- The runs from a path where nothing is, all of whose steps are allowed. -/
inductive Run (config : Config) (allowed : Database → Event → Database → Prop) :
    List Event → Database → Prop where
  | created : Run config allowed [] (.down {})
  | step (before : Run config allowed events database) (may : allowed database event after)
      (step : Step config database event after) : Run config allowed (events ++ [event]) after

end Database

/-! ## Manifests -/

/-- The manifest names different tables, with ids that were drawn. -/
structure ManifestOk (manifest : ManifestPage) : Prop where
  nodup : manifest.tiers.flatten.Nodup
  below : ∀ id ∈ manifest.tiers.flatten, id < manifest.nextSstableId

/-- There is no file with an id that the manifest has not recorded as drawn. -/
def Recorded (disk : Disk) : Prop :=
  ∀ id, disk.manifest.nextSstableId ≤ id → disk.tables.lookup id = none

variable {config : Config} {engine after : LSMTreeEngine} {label : Label} {disk : Disk}
variable {manifest : ManifestPage} {database : Database} {event : Database.Event}
  {events : List Database.Event} {allowed : Database → Database.Event → Database → Prop}

lemma persistManifest_eq (persists : engine.persistManifest = .ok manifest) :
    manifest = { nextSstableId := engine.nextSstableId,
                 tiers := engine.tiers.map (List.map SSTable.id) } := by
  rw [persistManifest] at persists
  split at persists
  · cases persists
  · split at persists
    · cases persists
    · cases persists
      rfl

/-- A manifest is written from tables with different ids. -/
lemma ManifestOk.of_persists {pending : Option Nat → Option Nat}
    (ids : TableIds engine.tiers.flatten engine.nextSstableId pending)
    (persists : engine.persistManifest = .ok manifest) : ManifestOk manifest := by
  have named : (engine.tiers.map (List.map SSTable.id)).flatten =
      engine.tiers.flatten.map SSTable.id := map_flatten.symm
  rw [persistManifest_eq persists]
  constructor
  · rw [named]
    exact ids.nodup
  · rw [named]
    intro id mem
    obtain ⟨table, inTiers, rfl⟩ := mem_map.mp mem
    exact ids.below table inTiers

lemma ManifestOk.step (ok : ManifestOk engine.disk.manifest) (sound : Sound engine)
    (step : Step config engine label after) : ManifestOk after.disk.manifest := by
  have ended (runner : Option Nat) (thrown : Option String) (engine : LSMTreeEngine) :
      (engine.endPass runner thrown).disk = engine.disk := by
    rw [endPass_only]
  have wrote (key : KeyType) (op : LogOp) : (engine.write config key op).disk.manifest =
      engine.disk.manifest := by
    rw [write]
    split <;> rfl
  cases step with
  | putWrite | deleteWrite => exact (wrote ..).symm ▸ ok
  | swap =>
    rw [swapMemTable_eq]
    exact ok
  | flushNothing =>
    rw [retire_eq]
    exact ok
  | install stands persists =>
    have installed := sound.install (congrArg Client.flushed stands)
      (congrArg Client.tableId stands) (rfl : Client.idle.flushed = none) rfl
    exact .of_persists installed.ids persists
  | nothingToDo | compactThrows =>
    rw [ended]
    exact ok
  | compact stands persists =>
    rw [ended]
    have ids := sound.compact stands
    exact .of_persists ids persists
  | _ => exact ok

/-! ## Opening an engine -/

lemma lookup_touch {id : Nat} {ids : List Nat} (other : id ∉ ids) (disk : Disk) :
    (ids.foldl Disk.touch disk).tables.lookup id = disk.tables.lookup id := by
  induction ids generalizing disk with
  | nil => rfl
  | cons first rest ih =>
    rw [mem_cons, not_or] at other
    rw [foldl_cons, ih other.2]
    exact SortedMap.lookup_insert_of_ne other.1

lemma manifest_touch (ids : List Nat) (disk : Disk) :
    (ids.foldl Disk.touch disk).manifest = disk.manifest := by
  induction ids generalizing disk with
  | nil => rfl
  | cons first rest ih =>
    rw [foldl_cons, ih]
    rfl

/-- Empty tiers at the end hold nothing. -/
lemma flatten_rdropWhile {α : Type} (tiers : List (List α)) :
    (tiers.rdropWhile List.isEmpty).flatten = tiers.flatten := by
  induction tiers using reverseRecOn with
  | nil => rfl
  | append_singleton tiers last ih =>
    rw [List.rdropWhile_concat]
    split
    next empty => rw [ih, flatten_append, List.isEmpty_iff.mp empty]; simp
    · rfl

/-- The tables of a reopened engine are those of the manifest. -/
lemma ids_loaded (config : Config) (disk : Disk) :
    (loaded config disk).tiers.flatten.map SSTable.id = disk.manifest.tiers.flatten := by
  have named : (List.map SSTable.id ∘ List.map fun id =>
      SSTable.build config.sizing id (disk.tableFile id).entries) = id := by
    funext tier
    simp [Function.comp_def, SSTable.build]
  rw [loaded, map_flatten, map_map, named, map_id, flatten_rdropWhile]

lemma atRest_loaded (config : Config) (ok : ManifestOk disk.manifest) (recorded : Recorded disk) :
    AtRest (loaded config disk) where
  clients := fun _ => rfl
  retired := rfl
  compaction := rfl
  nodup := by
    rw [ids_loaded]
    exact ok.nodup
  below := by
    intro table mem
    apply ok.below
    rw [← ids_loaded config]
    exact mem_map_of_mem mem
  absent := by
    intro id above
    have notNamed : id ∉ disk.manifest.tiers.flatten := fun mem =>
      absurd (ok.below id mem) (Nat.not_lt.mpr above)
    exact (lookup_touch notNamed disk).trans (recorded id above)

lemma manifest_loaded (config : Config) (disk : Disk) :
    (loaded config disk).disk.manifest = disk.manifest := manifest_touch _ _

/-! ## All sessions -/

/-- What holds of a database if files with ids that are not recorded do not outlive their
process. -/
def Database.Ok : Database → Prop
  | .down disk => ManifestOk disk.manifest ∧ Recorded disk
  | .recovering engine _ => AtRest engine ∧ ManifestOk engine.disk.manifest
  | .up engine | .stopping engine | .closing engine =>
    Sound engine ∧ ManifestOk engine.disk.manifest

/-- Whenever a process ends, every table file has an id that the manifest has recorded. -/
def Database.EndsRecorded (database : Database) (event : Database.Event) (_ : Database) : Prop :=
  event = .closed ∨ event = .killed → Recorded database.disk

lemma Database.Ok.step {after : Database} (ok : database.Ok)
    (ends : database.EndsRecorded event after) (step : Database.Step config database event after)
    : after.Ok := by
  cases step with
  | load =>
    have rest := atRest_loaded config ok.1 ok.2
    exact ⟨rest.sound, (manifest_loaded config _).symm ▸ ok.1⟩
  | loadWal =>
    have rest := atRest_loaded config ok.1 ok.2
    exact ⟨rest, (manifest_loaded config _).symm ▸ ok.1⟩
  | recover | stop => exact ok
  | recovered =>
    have rest : AtRest _ := ok.1
    exact ⟨AtRest.sound ⟨rest.clients, rest.retired, rest.compaction, rest.nodup, rest.below,
      rest.absent⟩, ok.2⟩
  | work step | join step | finish step => exact ⟨ok.1.step step, ok.2.step ok.1 step⟩
  | joined => exact ⟨ok.1.move rfl rfl, ok.2⟩
  | close => exact ⟨ok.2, ends (.inl rfl)⟩
  | kill =>
    refine ⟨?_, ends (.inr rfl)⟩
    cases database with
    | down => exact ok.1
    | _ => exact ok.2

lemma Database.Run.ok (run : Database.Run config Database.EndsRecorded events database) :
    database.Ok := by
  induction run with
  | created => exact ⟨⟨nodup_nil, nofun⟩, fun _ _ => rfl⟩
  | step _ ends step ih => exact ih.step ends step

/-- Ids are never used over leftover files, if no file with an id that the manifest has not
recorded outlives its process: the file for the next table does not exist, and the tables that
have been built hold what was passed to `Build`. -/
theorem ids_never_reused {database : Database} {events : List Database.Event}
    (run : Database.Run config Database.EndsRecorded events database)
    (running : database.engine = some engine) :
    engine.disk.tables.lookup engine.nextSstableId = none ∧
      (∀ client call answer memTable oldWal table,
        engine.clients client = .flushing call answer (.built memTable oldWal table) →
        table.entries = (engine.memTables memTable).list) ∧
      ∀ runner tier toCompact table,
        engine.compaction = some ⟨runner, .built tier toCompact (some table)⟩ →
        ∃ bottommost, table.entries = compacted toCompact bottommost := by
  have sound : Sound engine := by
    have ok := run.ok
    cases database with
    | down | recovering => cases running
    | up | stopping | closing =>
      cases running
      exact ok.1
  refine ⟨sound.files.absent _ le_rfl, ?_, ?_⟩
  · intro client call answer memTable oldWal table stands
    exact sound.flushes.built (congrArg Client.flushed stands)
  · intro runner tier toCompact table stands
    rcases sound.pass _ stands with ⟨-, bottommost, is, -⟩
    refine ⟨bottommost, SortedMap.ext_lookup fun key => ?_⟩
    have same := is key
    rwa [toList_some, map_cons, map_nil, resolve_cons, resolve_nil,
      or_none] at same

lemma Database.Run.next {after : Database} (run : Database.Run config allowed events database)
    (step : Database.Step config database event after)
    (may : allowed database event after := by trivial) :
    Database.Run config allowed (events ++ [event]) after := .step run may step

/-- A call of a client in a session. -/
lemma Database.Run.work (run : Database.Run config allowed events (.up engine))
    (step : Lsm.Step config engine label after)
    (may : allowed (.up engine) (.engine label) (.up after) := by trivial)
    (called : ∀ client, label ≠ .start client .close := by nofun) :
    Database.Run config allowed (events ++ [.engine label]) (.up after) :=
  run.next (.work step called) may

/-- A step of the engine does not end the process. -/
lemma endsRecorded_engine (database : Database) (label : Label) (after : Database) :
    database.EndsRecorded (.engine label) after := by
  rintro (closed | killed)
  · cases closed
  · cases killed

/-- A process is killed once its table is in the manifest, and the next one builds another. -/
theorem ids_never_reused_flushEach :
    ∃ (events : List Database.Event) (engine : LSMTreeEngine) (table : SSTable),
      Database.Run flushEach Database.EndsRecorded events (.up engine) ∧
      .killed ∈ events ∧ engine.tiers.flatten.map SSTable.id = [0] ∧ table.id = 1 ∧
      engine.clients 0 = .flushing (.put 8 [2]) .done (.built 0 none table) ∧
      table.entries = (engine.memTables 0).list ∧
      engine.disk.tables.lookup engine.nextSstableId = none := by
  have run : Database.Run flushEach Database.EndsRecorded [] _ := .created
  have run := run.next (.load rfl) (by rintro (same | same) <;> cases same)
  have run := run.work (@Step.start _ _ 0 (.put 7 [1]) rfl) (endsRecorded_engine _ _ _)
  have run := run.work (@Step.putWrite _ _ 0 7 [1] rfl (by decide)) (endsRecorded_engine _ _ _)
  have run := run.work (@Step.swap _ _ 0 _ _ rfl) (endsRecorded_engine _ _ _)
  have run := run.work (@Step.buildStart _ _ 0 _ _ _ _ rfl (by decide)) (endsRecorded_engine _ _ _)
  have run := run.work (@Step.buildEnd _ _ 0 _ _ _ _ _ _ _ rfl rfl) (endsRecorded_engine _ _ _)
  have run := run.work (@Step.install _ _ 0 _ _ _ _ _ rfl rfl) (endsRecorded_engine _ _ _)
  have run := run.next (.kill _) (by
    rintro _ (_ | id) above
    · cases above
    · rfl)
  have run := run.next (.load rfl) (by rintro (same | same) <;> cases same)
  have run := run.work (@Step.start _ _ 0 (.put 8 [2]) rfl) (endsRecorded_engine _ _ _)
  have run := run.work (@Step.putWrite _ _ 0 8 [2] rfl (by decide)) (endsRecorded_engine _ _ _)
  have run := run.work (@Step.swap _ _ 0 _ _ rfl) (endsRecorded_engine _ _ _)
  have run := run.work (@Step.buildStart _ _ 0 _ _ _ _ rfl (by decide)) (endsRecorded_engine _ _ _)
  have run := run.work (@Step.buildEnd _ _ 0 _ _ _ _ _ _ _ rfl rfl) (endsRecorded_engine _ _ _)
  rcases ids_never_reused run rfl with ⟨absent, built, -⟩
  exact ⟨_, _, _, run, by simp, rfl, rfl, rfl, built 0 _ _ _ _ _ rfl, absent⟩

/-- A process is killed after it has built a table and before the manifest is written.  The
next one draws the id again and builds over the leftover file, and the table it opens has the
entries of the first. -/
theorem leftover_file_is_reused :
    ∃ (events : List Database.Event) (engine : LSMTreeEngine) (table : SSTable),
      Database.Run flushEach (fun _ _ _ => True) events (.up engine) ∧
      engine.clients 0 = .flushing (.put 8 [2]) .done (.built 0 none table) ∧
      (engine.memTables 0).list.lookup 8 = some { value := [2], number := 0 } ∧
      table.entries.lookup 8 = none ∧
      table.entries.lookup 7 = some { value := [1], number := 0 } := by
  have run : Database.Run flushEach (fun _ _ _ => True) [] _ := .created
  have run := run.next (.load rfl)
  have run := run.work (@Step.start _ _ 0 (.put 7 [1]) rfl)
  have run := run.work (@Step.putWrite _ _ 0 7 [1] rfl (by decide))
  have run := run.work (@Step.swap _ _ 0 _ _ rfl)
  have run := run.work (@Step.buildStart _ _ 0 _ _ _ _ rfl (by decide))
  have run := run.work (@Step.buildEnd _ _ 0 _ _ _ _ _ _ _ rfl rfl)
  have run := run.next (.kill _)
  have run := run.next (.load rfl)
  have run := run.work (@Step.start _ _ 0 (.put 8 [2]) rfl)
  have run := run.work (@Step.putWrite _ _ 0 8 [2] rfl (by decide))
  have run := run.work (@Step.swap _ _ 0 _ _ rfl)
  have run := run.work (@Step.buildStart _ _ 0 _ _ _ _ rfl (by decide))
  have run := run.work (@Step.buildEnd _ _ 0 _ _ _ _ _ _ _ rfl rfl)
  refine ⟨_, _, _, run, rfl, ?_, ?_, ?_⟩
  · decide +kernel
  · decide +kernel
  · decide +kernel

end DbEngine.Lsm
