import DbEngine.Lsm.FiniteMap
import DbEngine.Lsm.MemWal
import DbEngine.Lsm.OnDisk

/-!
# What a session leaves on disk

While one client writes and nothing is thrown, the manifest, the table files and the WALs
together have what the engine holds.  An engine that is opened on them has the same, and goes
on from there.
-/

namespace DbEngine.Lsm

open LSMValue (shown)
open Lib
open Wal (LogOp)
open LSMTreeEngine

variable {config : Config} {engine after : LSMTreeEngine} {label : Label} {writer client : Nat}
  {state : Client} {disk : Disk} {map : SortedMap KeyType Bytes}

/-! ## Running -/

/-- One client works on an ordered map, and the files keep up. -/
structure Session (config : Config) (writer : Nat) (map : SortedMap KeyType Bytes)
    (engine : LSMTreeEngine) : Prop where
  follows : Follows writer map engine
  helps : Helps engine.clients engine.compaction
  runs : Runs engine
  stored : Stored config engine
  manifest : ManifestOk engine.disk.manifest
  persisted : Persisted engine
  logged : config.walEnabled = true → Logged writer engine

lemma Session.step (session : Session config writer map engine) (one : OneWriter writer label)
    (step : Step config engine label after) (noneThrown : NoneThrown after) :
    Session config writer (label.apply writer map) after where
  follows := session.follows.step one step
  helps := step.helps session.helps
  runs := session.runs.step step
  stored := session.stored.step session.follows.sound step
  manifest := session.manifest.step session.follows.sound step
  persisted := session.persisted.step session.runs step noneThrown
  logged := fun on => (session.logged on).step session.follows.sound session.follows.solo on step

/-! ## Opening -/

/-- What the WALs have for a key. -/
def loggedEntry (config : Config) (disk : Disk) (key : KeyType) : Option LSMValue :=
  if config.walEnabled then (lastOp some (walRecords disk.memWals) key).map (entryOf · 0) else none

/-- The files have the contents of a map. -/
structure Keeps (config : Config) (disk : Disk) (contents : KeyType → Option Bytes) : Prop where
  manifest : ManifestOk disk.manifest
  fits : disk.manifest.Fits
  files : ∀ id ∈ disk.manifest.tiers.flatten, (disk.tables.lookup id).isSome
  shown : ∀ key, shown ((loggedEntry config disk key).or
    (resolve ((loaded config disk).tiers.flatten.map SSTable.entries) key)) = contents key

lemma tableFile_touch (disk : Disk) (id other : Nat) :
    (disk.touch other).tableFile id = disk.tableFile id := by
  rw [Disk.tableFile, Disk.touch, Disk.setTable, SortedMap.lookup_insert]
  split
  next same =>
    subst same
    rfl
  · rfl

lemma lookup_touch_mem {id : Nat} {ids : List Nat} (mem : id ∈ ids) (disk : Disk) :
    (ids.foldl Disk.touch disk).tables.lookup id = some (disk.tableFile id) := by
  induction ids generalizing disk with
  | nil => cases mem
  | cons first rest ih =>
    rw [foldl_cons]
    by_cases again : id ∈ rest
    · rw [ih again, tableFile_touch]
    · rcases mem_cons.mp mem with rfl | mem
      · rw [lookup_touch again]
        exact SortedMap.lookup_insert_self ..
      · exact absurd mem again

lemma stored_loaded (config : Config) (disk : Disk) : Stored config (loaded config disk) := by
  constructor
  · intro table live
    have mem : table.id ∈ disk.manifest.tiers.flatten := by
      rw [← ids_loaded config]
      exact mem_map_of_mem live
    refine ⟨disk.tableFile table.id, lookup_touch_mem mem disk, ?_⟩
    obtain ⟨tier, inTiers, inTier⟩ := mem_flatten.mp live
    obtain ⟨ids, -, rfl⟩ := mem_map.mp inTiers
    obtain ⟨id, -, rfl⟩ := mem_map.mp inTier
    rfl
  · intro owner table built
    cases owner <;> cases built
  · exact nofun

lemma persisted_loaded (config : Config) (fits : disk.manifest.Fits) :
    Persisted (loaded config disk) := by
  have named : (loaded config disk).tiers.map (List.map SSTable.id) =
      disk.manifest.tiers.rdropWhile List.isEmpty := by
    rw [loaded, map_map]
    refine (map_congr_left fun tier _ => ?_).trans (map_id _)
    rw [Function.comp_apply, map_map]
    exact map_id _
  have manifest := manifest_loaded config disk
  constructor
  · rw [manifest]
    exact fits
  · rw [manifest, named, List.rdropWhile_idempotent]
  · rw [manifest]
    exact le_rfl
  · rw [manifest]
    exact fun id unrecorded below => absurd below (Nat.not_lt.mpr unrecorded)

/-- An engine that has just been opened holds what the files have. -/
lemma Keeps.contents {contents : KeyType → Option Bytes} (keeps : Keeps config disk contents)
    (retired : engine.retired = []) (tiers : engine.tiers = (loaded config disk).tiers)
    (memTable : ∀ key, (engine.memTables engine.active).list.lookup key =
      loggedEntry config disk key) (key : KeyType) : engine.contents key = contents key := by
  rw [LSMTreeEngine.contents, LSMTreeEngine.layers, retired, map_nil, cons_append,
    nil_append, resolve_cons, memTable, tiers]
  exact keeps.shown key

/-- An engine that has just been opened goes on with the map. -/
lemma Session.opened (keeps : Keeps config disk map.lookup) (rest : AtRest engine)
    (manifest : engine.disk.manifest = disk.manifest)
    (tiers : engine.tiers = (loaded config disk).tiers) (stored : Stored config engine)
    (persisted : Persisted engine)
    (memTable : ∀ key, (engine.memTables engine.active).list.lookup key =
      loggedEntry config disk key) (logged : config.walEnabled = true → Logged writer engine) :
    Session config writer map engine := by
  refine ⟨.atRest rest (keeps.contents rest.retired tiers memTable), ?_, .ended rest.compaction,
    stored, ?_, persisted, logged⟩
  · intro client call answer helping
    rw [rest.clients] at helping
    cases helping
  · rw [manifest]
    exact keeps.manifest

/-- The constructor without a WAL. -/
lemma Keeps.session (keeps : Keeps config disk map.lookup) (recorded : Recorded disk)
    (off : config.walEnabled = false) : Session config writer map (loaded config disk) := by
  refine .opened keeps (atRest_loaded config keeps.manifest recorded) (manifest_loaded config disk)
    rfl (stored_loaded config disk) (persisted_loaded config keeps.fits) ?_ ?_
  · intro key
    rw [loggedEntry, off]
    rfl
  · rw [off]
    exact nofun

lemma memTable_recovered (recovery : Recovery (KeyType × LogOp)) (engine : LSMTreeEngine) :
    (engine.recovered recovery).memTables (engine.recovered recovery).active =
      recovery.memTable := Function.update_self ..

variable {recovery : Recovery (KeyType × LogOp)}

lemma lookup_recovered (on : config.walEnabled = true)
    (recovering : Recovering some disk.memWals recovery) (done : recovery.Done)
    (engine : LSMTreeEngine) (key : KeyType) :
    ((engine.recovered recovery).memTables (engine.recovered recovery).active).list.lookup key =
      loggedEntry config disk key := by
  rw [loggedEntry, if_pos on, ← recovering.lookup done, memTable_recovered]

lemma logged_recovered (recovering : Recovering some disk.memWals recovery)
    (done : recovery.Done) (idle : engine.clients writer = .idle) :
    Logged writer (engine.recovered recovery) := by
  have idle : (engine.recovered recovery).clients writer = .idle := idle
  have only : recovery.old = .empty := SortedMap.ext done.old
  constructor
  · rw [idle]
    exact id
  · refine ⟨recovery.generation, rfl, recovery.copied, ?_, ?_⟩
    · intro key
      rw [memTable_recovered, recovering.memTable, lookup_foldl_replay, Option.map_map]
      have same : LSMValue.op ∘ (entryOf · 0) = id := funext (LSMValue.op_entryOf · 0)
      rw [same, Option.map_id_fun, id]
    · rw [idle]
      exact congrArg (SortedMap.insert · recovery.generation recovery.copied) only

/-- The constructor with a WAL. -/
lemma Keeps.session_recovered (keeps : Keeps config disk map.lookup) (recorded : Recorded disk)
    (on : config.walEnabled = true) (recovering : Recovering some disk.memWals recovery)
    (done : recovery.Done) :
    Session config writer map ((loaded config disk).recovered recovery) := by
  have rest := atRest_loaded config keeps.manifest recorded
  have stored := stored_loaded config disk
  have persisted := persisted_loaded config keeps.fits
  refine .opened keeps ⟨rest.clients, rest.retired, rest.compaction, rest.nodup, rest.below,
    rest.absent⟩ (manifest_loaded config disk) rfl (stored.same rfl rfl rfl rfl rfl rfl)
    (persisted.keep rfl rfl rfl id) (lookup_recovered on recovering done _) ?_
  intro _
  exact logged_recovered recovering done (rest.clients writer)

/-! ## Closing and kills -/

/-- A client that has a memtable to flush still has its WAL, unless its table waits for the
manifest. -/
lemma Client.oldWal_of_flushed (taken : ¬ state.Unlogged) (waits : ∀ call answer memTable table,
      state ≠ .flushing call answer (.built memTable none table))
    (flushed : state.flushed = some (memTable, table)) :
    ∃ generation, state.oldWal = some (memTable, generation) := by
  cases state with
  | flushing call answer flush =>
    cases flush with
    | retired _ wal | building _ wal =>
      cases wal with
      | none => exact absurd trivial taken
      | some generation =>
        cases flushed
        exact ⟨generation, rfl⟩
    | built _ wal =>
      cases wal with
      | none => exact absurd rfl (waits _ _ _ _)
      | some generation =>
        cases flushed
        exact ⟨generation, rfl⟩
    | due | backlogged => cases flushed
  | _ => cases flushed

/-- Entries that come from the log are as good as those in the memtable. -/
lemma shown_relogged (entry below : Option LSMValue) :
    shown (((entry.map LSMValue.op).map (entryOf · 0)).or below) = shown (entry.or below) := by
  cases entry with
  | none => rfl
  | some entry =>
    rw [map_some, map_some, some_or, some_or, LSMValue.shown_some,
      LSMValue.shown_some, LSMValue.op_entryOf]

namespace Session

section

variable (session : Session config writer map engine)
include session

/-- The tables that the manifest names are those of the tiers. -/
lemma named : engine.disk.manifest.tiers.flatten = engine.tiers.flatten.map SSTable.id := by
  rw [← flatten_rdropWhile, session.persisted.tiers, flatten_rdropWhile]
  exact map_flatten.symm

/-- The files keep what they say together. -/
lemma keeps {contents : KeyType → Option Bytes}
    (shown : ∀ key, shown ((loggedEntry config engine.disk key).or (resolve
      (engine.tiers.flatten.map SSTable.entries) key)) = contents key) :
    Keeps config engine.disk contents := by
  refine ⟨session.manifest, session.persisted.fits, ?_, ?_⟩
  · intro id mem
    rw [session.named] at mem
    obtain ⟨table, live, rfl⟩ := mem_map.mp mem
    obtain ⟨file, found, -⟩ := session.stored.live table live
    rw [found]
    rfl
  · intro key
    rw [tiers_loaded session.persisted session.stored, flatten_rdropWhile]
    exact shown key

/-- The memtables of an engine, newest first. -/
lemma contents_eq (key : KeyType) : engine.contents key =
      shown ((((engine.memTables engine.active).list.lookup key).or
        ((engine.clients writer).flushed.bind fun flushed =>
          (engine.memTables flushed.1).list.lookup key)).or
        (resolve (engine.tiers.flatten.map SSTable.entries) key)) := by
  rw [LSMTreeEngine.contents, LSMTreeEngine.layers, session.follows.solo.retired, resolve_append,
    resolve_cons]
  cases (engine.clients writer).flushed with
  | none => rfl
  | some flushed => simp [resolve_cons]

/-- With a WAL, a kill leaves everything, unless a table waits for the manifest whose WAL has
been removed. -/
lemma keeps_logged (on : config.walEnabled = true)
    (waits : ∀ call answer memTable table, engine.clients writer ≠ .flushing call answer (.built
      memTable none table)) : Keeps config engine.disk engine.contents := by
  apply session.keeps
  intro key
  have logged := session.logged on
  obtain ⟨current, -, wals⟩ := logged.wals
  have old : ((engine.clients writer).oldWal.bind fun wal =>
        (engine.memTables wal.1).list.lookup key) =
      (engine.clients writer).flushed.bind fun flushed =>
        (engine.memTables flushed.1).list.lookup key := by
    cases flushed : (engine.clients writer).flushed with
    | none =>
      cases old : (engine.clients writer).oldWal with
      | none => rfl
      | some wal =>
        obtain ⟨table, has⟩ := Client.flushed_of_oldWal old
        rw [flushed] at has
        cases has
    | some found =>
      obtain ⟨generation, old⟩ := Client.oldWal_of_flushed logged.taken waits flushed
      rw [old]
      rfl
  rw [session.contents_eq, loggedEntry, if_pos on, wals.lastOp_walRecords, old, shown_relogged]

/-- An engine that has flushed everything leaves everything. -/
lemma keeps_flushed (idle : engine.clients writer = .idle)
    (flushed : (engine.memTables engine.active).list = .empty) :
    Keeps config engine.disk engine.contents := by
  cases on : config.walEnabled with
  | true =>
    apply session.keeps_logged on
    rw [idle]
    exact fun _ _ _ _ => nofun
  | false =>
    apply session.keeps
    intro key
    rw [session.contents_eq, loggedEntry, on, idle, flushed]
    rfl

/-- Nothing is under way when all clients and passes are done. -/
lemma recorded (idle : ∀ client, engine.clients client = .idle) (ended : engine.compaction = none) :
    engine.disk.manifest.nextSstableId = engine.nextSstableId ∧ Recorded engine.disk := by
  have pending : ∀ owner, engine.pendingId owner = none := by
    intro owner
    cases owner with
    | none =>
      rw [pendingId, ended]
      rfl
    | some client =>
      rw [pendingId, idle]
      rfl
  have next := session.persisted.next_eq pending
  refine ⟨next, ?_⟩
  rw [Recorded, next]
  exact session.follows.sound.files.absent

end

end Session

end DbEngine.Lsm
