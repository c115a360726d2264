import DbEngine.Lsm.Merge
import DbEngine.Wal.LogRecord

/-!
# The LSM-tree engine

`lsm/lsm_tree_engine.cpp` as a machine whose steps are the critical sections of its calls
and what happens between them.  Any number of clients call the engine, and at most one
thread at a time compacts: the background thread, or a client whose flush found the first
tier too large.  Memtables are shared: a reader that has taken its snapshot reads a
memtable that others may still write to.

Two things are kept for statements and proofs only: the number of writes so far, and the
memtables that are retired and whose table is not yet in a tier.
-/

namespace DbEngine.Lsm

open Lib Function
open Wal (LogOp)

/-- What the constructor is given, and how filters are sized. -/
structure Config where
  flushThresholdBytes : Nat
  tierThreshold : Int
  walEnabled : Bool
  sizing : BloomSizing

/-! ## Files -/

/-- `ManifestPage`. -/
structure ManifestPage where
  nextSstableId : Nat := 0
  tiers : List (List Nat) := []
  deriving Repr, DecidableEq

/-- The file of an SSTable, by what `Build` and `Open` find of it. -/
structure TableFile where
  /-- How many pages it has. -/
  pages : Nat := 0
  /-- What the header in the first page leads to; a page of zeros is the header of a table
  without entries. -/
  entries : Entries := .empty

/-- `Build` writes the header to the page it took for it, past all pages that were there. -/
def TableFile.writeHeader (header : Nat) (entries : Entries) (file : TableFile) : TableFile where
  pages := max file.pages (header + 1)
  entries := if header = 0 then entries else file.entries

/-- The files of a database. -/
structure Disk where
  manifest : ManifestPage := {}
  tables : SortedMap Nat TableFile := .empty
  /-- The memtable WALs, by generation. -/
  memWals : SortedMap Nat (List (KeyType × LogOp)) := .empty

/-- The file of a table; opening it creates it. -/
def Disk.tableFile (disk : Disk) (id : Nat) : TableFile := (disk.tables.lookup id).getD {}

def Disk.setTable (id : Nat) (file : TableFile) (disk : Disk) : Disk :=
  { disk with tables := disk.tables.insert id file }

/-- `LogManager::Append` to a memtable WAL. -/
def Disk.log (disk : Disk) (generation : Nat) (key : KeyType) (op : LogOp) : Disk :=
  { disk with
    memWals := disk.memWals.insert generation
      ((disk.memWals.lookup generation).getD [] ++ [(key, op)]) }

/-! ## Calls -/

inductive Call where
  | get (key : KeyType)
  | put (key : KeyType) (value : Bytes)
  | delete (key : KeyType)
  | scan (start : KeyType)
  /-- The destructor, once the background thread has been joined. -/
  | close
  deriving Repr, DecidableEq

/-- What a call returns or throws. -/
inductive Answer where
  | found (value : Option Bytes)
  | done
  | existed (existed : Bool)
  | entries (entries : List (KeyType × Bytes))
  | invalidArgument (what : String)
  | runtimeError (what : String)
  deriving Repr, DecidableEq

/-- What `Get` and `Scan` take under the lock. -/
structure Snapshot where
  memTable : Nat
  tiers : List (List SSTable)

/-- Where a call of `FlushActiveMemtable` stands. -/
inductive Flush where
  /-- The memtable has reached the threshold. -/
  | due
  /-- The memtable has been replaced; its WAL is of the given generation. -/
  | retired (memTable : Nat) (oldWal : Option Nat)
  /-- In `Build`, which writes the header last, to a page it has taken for it. -/
  | building (memTable : Nat) (oldWal : Option Nat) (id header : Nat)
  /-- The table is complete; the WAL is still there if a generation is given. -/
  | built (memTable : Nat) (oldWal : Option Nat) (table : SSTable)
  /-- The table is in a tier that is too large. -/
  | backlogged

/-- Where a client stands. -/
inductive Client where
  | idle
  | called (call : Call)
  | getting (key : KeyType) (snapshot : Snapshot)
  /-- `Delete` in its own `Get`. -/
  | deleting (key : KeyType) (snapshot : Snapshot)
  | lookedUp (key : KeyType) (existed : Bool)
  | opening (start : KeyType) (snapshot : Snapshot)
  | scanning (start : KeyType) (memTable : Nat) (merge : LSMMergeIterator)
      (delivered : List (KeyType × Bytes))
  | flushing (call : Call) (answer : Answer) (flush : Flush)
  /-- In a compaction pass of its own. -/
  | helping (call : Call) (answer : Answer)
  | returning (call : Call) (answer : Answer)

/-- Where a compaction pass stands. -/
inductive Pass where
  /-- `compaction_running_` has been set. -/
  | claimed
  | snapshot (tier : Nat) (toCompact : List SSTable) (bottommost : Bool)
  | building (tier : Nat) (toCompact : List SSTable) (id header : Nat) (merged : Entries)
  | built (tier : Nat) (toCompact : List SSTable) (newSst : Option SSTable)

/-- A running compaction; no client runs the one of the background thread. -/
structure Compaction where
  runner : Option Nat
  pass : Pass

/-- `LSMTreeEngine` with everybody who is using it. -/
structure LSMTreeEngine where
  /-- Every memtable there has been. -/
  memTables : Nat → MemTable := fun _ => {}
  active : Nat := 0
  tiers : List (List SSTable) := []
  nextSstableId : Nat := 0
  /-- The active memtable is logged to the generation before. -/
  nextWalGeneration : Nat := 0
  /-- `compaction_running_`, and by whom. -/
  compaction : Option Compaction := none
  clients : Nat → Client := fun _ => .idle
  /-- Tables marked obsolete whose files are still there. -/
  obsolete : List Nat := []
  disk : Disk := {}
  writes : Nat := 0
  /-- Memtables that are not active and not yet in a table, newest first. -/
  retired : List Nat := []

/-- The constructor on a path where nothing is. -/
def LSMTreeEngine.created (config : Config) : LSMTreeEngine :=
  if config.walEnabled then
    { nextWalGeneration := 1, disk := { memWals := SortedMap.empty.insert 0 [] } }
  else {}

namespace LSMTreeEngine

/-- `kMaxManifestTiers`. -/
def maxManifestTiers : Nat := 8

/-- `kMaxSSTablesPerManifestTier`. -/
def maxSSTablesPerManifestTier : Nat := 16

/-- `kWriteStallTierSize`. -/
def writeStallTierSize : Nat := 8

def setClient (client : Nat) (state : Client) (engine : LSMTreeEngine) : LSMTreeEngine :=
  { engine with clients := update engine.clients client state }

/-- The snapshot of `Get` and `Scan`. -/
def snapshot (engine : LSMTreeEngine) : Snapshot where
  memTable := engine.active
  tiers := engine.tiers

/-- What `Get` finds in a memtable and tables. -/
def search (list : Entries) (tiers : List (List SSTable)) (key : KeyType) : Option LSMValue :=
  match list.lookup key with
  | some found => some found
  | none => tiers.flatten.findSome? fun table => table.get key

/-- `Get` in a snapshot. -/
def read (engine : LSMTreeEngine) (snapshot : Snapshot) (key : KeyType) : Option Bytes :=
  LSMValue.shown (search (engine.memTables snapshot.memTable).list snapshot.tiers key)

/-- The cursors of `Scan`. -/
def scanCursors (list : Entries) (tiers : List (List SSTable)) (start : KeyType) :
    List LSMCursor :=
  .memTable (lowerBound list start) ::
    (tiers.flatten.filter fun table => !table.maxKey.any fun greatest => decide (greatest < start)).map
      fun table => .ssTable (table.newIterator start)

/-- What a write puts into the memtable: a value or a tombstone. -/
def entryOf (op : LogOp) (number : Nat) : LSMValue :=
  match op with
  | .put value => { value, number }
  | .delete => { deleted := true, number }

/-- The critical section of `Put` and `Delete`. -/
def write (config : Config) (key : KeyType) (op : LogOp) (engine : LSMTreeEngine) :
    LSMTreeEngine :=
  { engine with
    disk :=
      if config.walEnabled then engine.disk.log (engine.nextWalGeneration - 1) key op
      else engine.disk
    memTables := update engine.memTables engine.active
      ((engine.memTables engine.active).write key (entryOf op engine.writes))
    writes := engine.writes + 1 }

/-- `need_flush`. -/
def needFlush (config : Config) (engine : LSMTreeEngine) : Bool :=
  decide (config.flushThresholdBytes ≤ (engine.memTables engine.active).approximateSizeBytes)

/-- Where a writer goes after its critical section. -/
def afterWrite (config : Config) (call : Call) (answer : Answer) (engine : LSMTreeEngine) :
    Client :=
  if engine.needFlush config then .flushing call answer .due else .returning call answer

/-- The first critical section of `FlushActiveMemtable`: a new memtable and a new WAL. -/
def swapMemTable (config : Config) (engine : LSMTreeEngine) : LSMTreeEngine :=
  let swapped :=
    { engine with
      memTables := update engine.memTables (engine.active + 1) {}
      active := engine.active + 1
      retired := engine.active :: engine.retired }
  if config.walEnabled then
    { swapped with
      nextWalGeneration := engine.nextWalGeneration + 1
      disk := { engine.disk with
        memWals := engine.disk.memWals.insert engine.nextWalGeneration [] } }
  else swapped

/-- The generation that logs the active memtable. -/
def currentWal (config : Config) (engine : LSMTreeEngine) : Option Nat :=
  if config.walEnabled then some (engine.nextWalGeneration - 1) else none

/-- Remove the WAL of a memtable that is in a table, if there is one. -/
def removeWal (oldWal : Option Nat) (engine : LSMTreeEngine) : LSMTreeEngine :=
  match oldWal with
  | none => engine
  | some generation =>
    { engine with disk := { engine.disk with memWals := engine.disk.memWals.erase generation } }

/-- The page that `Build` takes for the header of the next table. -/
def nextHeader (engine : LSMTreeEngine) : Nat :=
  (engine.disk.tableFile engine.nextSstableId).pages

/-- Draw an id for a table and open its file. -/
def startTable (engine : LSMTreeEngine) : LSMTreeEngine :=
  { engine with
    nextSstableId := engine.nextSstableId + 1
    disk := engine.disk.setTable engine.nextSstableId
      (engine.disk.tableFile engine.nextSstableId) }

/-- `Build` writes data, index or filter pages. -/
def growTable (id pages : Nat) (engine : LSMTreeEngine) : LSMTreeEngine :=
  { engine with
    disk := engine.disk.setTable id { engine.disk.tableFile id with pages } }

/-- `Build` writes the header. -/
def finishTable (id header : Nat) (entries : Entries) (engine : LSMTreeEngine) : LSMTreeEngine :=
  { engine with
    disk := engine.disk.setTable id ((engine.disk.tableFile id).writeHeader header entries) }

/-- `SSTable::Open` and `SetId`. -/
def openTable (config : Config) (id : Nat) (engine : LSMTreeEngine) : SSTable :=
  .build config.sizing id (engine.disk.tableFile id).entries

/-- `PersistManifestLocked`: the page it writes, or what it throws. -/
def persistManifest (engine : LSMTreeEngine) : Except String ManifestPage :=
  if maxManifestTiers < engine.tiers.length then
    .error "LSMTreeEngine: exceeded manifest tier capacity"
  else if engine.tiers.any fun tier => decide (maxSSTablesPerManifestTier < tier.length) then
    .error "LSMTreeEngine: exceeded manifest per-tier SSTable capacity"
  else
    .ok { nextSstableId := engine.nextSstableId, tiers := engine.tiers.map (List.map SSTable.id) }

def setManifest (manifest : ManifestPage) (engine : LSMTreeEngine) : LSMTreeEngine :=
  { engine with disk := { engine.disk with manifest } }

/-- Insert a table at the front of the first tier. -/
def pushFront (table : SSTable) : List (List SSTable) → List (List SSTable)
  | [] => [[table]]
  | tier :: rest => (table :: tier) :: rest

/-- The second critical section of `FlushActiveMemtable`, up to the manifest. -/
def installFlushed (memTable : Nat) (table : SSTable) (engine : LSMTreeEngine) :
    LSMTreeEngine :=
  { engine with
    tiers := pushFront table engine.tiers
    retired := engine.retired.erase memTable }

/-- `backlogged`. -/
def backlogged (engine : LSMTreeEngine) : Bool :=
  engine.tiers.head?.any fun tier => decide (writeStallTierSize ≤ tier.length)

/-- Where a writer goes after its flush. -/
def afterFlush (call : Call) (answer : Answer) (engine : LSMTreeEngine) : Client :=
  if engine.backlogged then .flushing call answer .backlogged else .returning call answer

/-! ## Compaction -/

/-- `FindTierNeedingCompactionLocked`. -/
def findTierNeedingCompaction (config : Config) (engine : LSMTreeEngine) : Option Nat :=
  engine.tiers.findIdx? fun tier => decide (config.tierThreshold ≤ tier.length)

/-- No tier below has a table. -/
def isBottommost (tier : Nat) (engine : LSMTreeEngine) : Bool :=
  (engine.tiers.drop (tier + 1)).all List.isEmpty

def setPass (runner : Option Nat) (pass : Pass) (engine : LSMTreeEngine) : LSMTreeEngine :=
  { engine with compaction := some { runner, pass } }

/-- A pass ends, and a client that ran it goes on; it throws if the pass has thrown. -/
def endPass (runner : Option Nat) (thrown : Option String) (engine : LSMTreeEngine) :
    LSMTreeEngine :=
  let ended := { engine with compaction := none }
  match runner with
  | none => ended
  | some client =>
    match engine.clients client with
    | .helping call answer =>
      ended.setClient client (.returning call (thrown.elim answer .runtimeError))
    | _ => ended

/-- The tables of a tier that were not compacted. -/
def remaining (toCompact tier : List SSTable) : List SSTable :=
  tier.filter fun table => !toCompact.any fun compacted => compacted.id == table.id

/-- The tiers after a compaction. -/
def promote (tier : Nat) (toCompact : List SSTable) (newSst : Option SSTable)
    (tiers : List (List SSTable)) : List (List SSTable) :=
  let resized := tiers ++ replicate (tier + 2 - tiers.length) []
  let promoted := resized.modify (tier + 1) fun next => newSst.toList ++ next
  promoted.modify tier (remaining toCompact)

/-- The last critical section of a pass, up to the manifest. -/
def installCompacted (tier : Nat) (toCompact : List SSTable) (newSst : Option SSTable)
    (engine : LSMTreeEngine) : LSMTreeEngine :=
  { engine with
    tiers := promote tier toCompact newSst engine.tiers
    obsolete := engine.obsolete ++ toCompact.map SSTable.id }

/-- The destructor of an obsolete table that nobody reads any more. -/
def removeFile (id : Nat) (engine : LSMTreeEngine) : LSMTreeEngine :=
  { engine with
    obsolete := engine.obsolete.erase id
    disk := { engine.disk with tables := engine.disk.tables.erase id } }

end LSMTreeEngine

/-! ## Steps -/

/-- What can be seen of a step. -/
inductive Label where
  | start (client : Nat) (call : Call)
  | finish (client : Nat) (call : Call) (answer : Answer)
  /-- A client takes a snapshot. -/
  | snapshot (client : Nat)
  | write (client : Nat) (key : KeyType)
  /-- An id is drawn for a table. -/
  | draw (id : Nat)
  /-- A client puts the table of a memtable into the first tier. -/
  | install (client : Nat) (memTable : Nat)
  | inner
  deriving Repr, DecidableEq

open LSMTreeEngine

/-- The steps of clients and of compaction passes. -/
inductive Step (config : Config) (engine : LSMTreeEngine) : Label → LSMTreeEngine → Prop where
  | start (call : Call)
      (stands : engine.clients client = .idle) :
      Step config engine (.start client call) (engine.setClient client (.called call))
  | finish (stands : engine.clients client = .returning call answer) :
      Step config engine (.finish client call answer) (engine.setClient client .idle)
  -- `Get`
  | getSnapshot (stands : engine.clients client = .called (.get key)) :
      Step config engine (.snapshot client)
        (engine.setClient client (.getting key engine.snapshot))
  | getRead {snapshot : Snapshot} (stands : engine.clients client = .getting key snapshot) :
      Step config engine .inner (engine.setClient client
        (.returning (.get key) (.found (engine.read snapshot key))))
  -- `Scan`
  | scanSnapshot (stands : engine.clients client = .called (.scan start)) :
      Step config engine (.snapshot client)
        (engine.setClient client (.opening start engine.snapshot))
  | scanOpen {snapshot : Snapshot} (stands : engine.clients client = .opening start snapshot) :
      Step config engine .inner (engine.setClient client
        (.scanning start snapshot.memTable
          (.new (engine.memTables snapshot.memTable).list
            (scanCursors (engine.memTables snapshot.memTable).list snapshot.tiers start)) []))
  | scanNext (stands : engine.clients client = .scanning start memTable merge delivered)
      (valid : merge.current = some (key, entry)) :
      Step config engine .inner (engine.setClient client
        (.scanning start memTable (merge.advance (engine.memTables memTable).list)
          (delivered ++ if entry.deleted then [] else [(key, entry.value)])))
  | scanEnd (stands : engine.clients client = .scanning start memTable merge delivered)
      (ended : merge.current = none) :
      Step config engine .inner
        (engine.setClient client (.returning (.scan start) (.entries delivered)))
  -- `Put`
  | putReject (stands : engine.clients client = .called (.put key value))
      (large : MAX_VALUE_SIZE < value.length) :
      Step config engine .inner (engine.setClient client (.returning (.put key value)
        (.invalidArgument "LSMTreeEngine::Put: value exceeds MAX_VALUE_SIZE")))
  | putWrite (stands : engine.clients client = .called (.put key value))
      (small : value.length ≤ MAX_VALUE_SIZE) :
      Step config engine (.write client key) ((engine.write config key (.put value)).setClient
        client ((engine.write config key (.put value)).afterWrite config (.put key value) .done))
  -- `Delete`
  | deleteSnapshot (stands : engine.clients client = .called (.delete key)) :
      Step config engine (.snapshot client)
        (engine.setClient client (.deleting key engine.snapshot))
  | deleteRead {snapshot : Snapshot} (stands : engine.clients client = .deleting key snapshot) :
      Step config engine .inner
        (engine.setClient client (.lookedUp key (engine.read snapshot key).isSome))
  | deleteWrite (stands : engine.clients client = .lookedUp key existed) :
      Step config engine (.write client key) ((engine.write config key .delete).setClient
        client ((engine.write config key .delete).afterWrite config (.delete key)
          (.existed existed)))
  -- The destructor
  | closeNothing (stands : engine.clients client = .called .close)
      (empty : (engine.memTables engine.active).entryCount = 0) :
      Step config engine .inner (engine.setClient client (.returning .close .done))
  | closeFlush (stands : engine.clients client = .called .close)
      (nonempty : (engine.memTables engine.active).entryCount ≠ 0) :
      Step config engine .inner (engine.setClient client (.flushing .close .done .due))
  -- `FlushActiveMemtable`
  | swap (stands : engine.clients client = .flushing call answer .due) :
      Step config engine .inner ((engine.swapMemTable config).setClient client
        (.flushing call answer (.retired engine.active (engine.currentWal config))))
  | flushNothing (stands : engine.clients client = .flushing call answer (.retired memTable oldWal))
      (empty : (engine.memTables memTable).entryCount = 0) :
      Step config engine .inner
        ((({ engine with retired := engine.retired.erase memTable } : LSMTreeEngine).removeWal
          oldWal).setClient client (.returning call answer))
  | buildStart (stands : engine.clients client = .flushing call answer (.retired memTable oldWal))
      (nonempty : (engine.memTables memTable).entryCount ≠ 0) :
      Step config engine (.draw engine.nextSstableId) (engine.startTable.setClient client
        (.flushing call answer
          (.building memTable oldWal engine.nextSstableId engine.nextHeader)))
  | buildWrite {client : Nat} {call : Call} {answer : Answer} {memTable : Nat} {oldWal : Option Nat}
      {id header : Nat} (pages : Nat)
      (stands : engine.clients client =
        .flushing call answer (.building memTable oldWal id header))
      (grows : (engine.disk.tableFile id).pages < pages) :
      Step config engine .inner (engine.growTable id pages)
  | buildEnd {client : Nat} {call : Call} {answer : Answer} {memTable : Nat} {oldWal : Option Nat}
      {id header : Nat} {table : SSTable} (stands : engine.clients client =
        .flushing call answer (.building memTable oldWal id header))
      (opens : (engine.finishTable id header (engine.memTables memTable).list).openTable config id =
        table) :
      Step config engine .inner
        ((engine.finishTable id header (engine.memTables memTable).list).setClient client
          (.flushing call answer (.built memTable oldWal table)))
  | walRemove (stands : engine.clients client =
        .flushing call answer (.built memTable (some generation) table)) :
      Step config engine .inner ((engine.removeWal (some generation)).setClient client
        (.flushing call answer (.built memTable none table)))
  | install (stands : engine.clients client = .flushing call answer (.built memTable none table))
      (persists : (engine.installFlushed memTable table).persistManifest = .ok manifest) :
      Step config engine (.install client memTable)
        (((engine.installFlushed memTable table).setManifest manifest).setClient client
          ((engine.installFlushed memTable table).afterFlush call answer))
  | installThrows
      (stands : engine.clients client = .flushing call answer (.built memTable none table))
      (throws : (engine.installFlushed memTable table).persistManifest = .error what) :
      Step config engine (.install client memTable)
        ((engine.installFlushed memTable table).setClient client
          (.returning call (.runtimeError what)))
  | helpNot (stands : engine.clients client = .flushing call answer .backlogged)
      (busy : engine.compaction ≠ none) :
      Step config engine .inner (engine.setClient client (.returning call answer))
  | help (stands : engine.clients client = .flushing call answer .backlogged)
      (free : engine.compaction = none) :
      Step config engine .inner
        ((engine.setPass (some client) .claimed).setClient client (.helping call answer))
  -- `CompactOneTierIfNeeded`
  | claim (free : engine.compaction = none) :
      Step config engine .inner (engine.setPass none .claimed)
  | nothingToDo (stands : engine.compaction = some ⟨runner, .claimed⟩)
      (none : engine.findTierNeedingCompaction config = none) :
      Step config engine .inner (engine.endPass runner Option.none)
  | chooseTier (stands : engine.compaction = some ⟨runner, .claimed⟩)
      (found : engine.findTierNeedingCompaction config = some tier) :
      Step config engine .inner (engine.setPass runner
        (.snapshot tier (engine.tiers.getD tier []) (engine.isBottommost tier)))
  | mergeNothing (stands : engine.compaction = some ⟨runner, .snapshot tier toCompact bottommost⟩)
      (empty : (compacted toCompact bottommost).entries = []) :
      Step config engine .inner (engine.setPass runner (.built tier toCompact none))
  | mergeStart (stands : engine.compaction = some ⟨runner, .snapshot tier toCompact bottommost⟩)
      (nonempty : (compacted toCompact bottommost).entries ≠ []) :
      Step config engine (.draw engine.nextSstableId) (engine.startTable.setPass runner
        (.building tier toCompact engine.nextSstableId engine.nextHeader
          (compacted toCompact bottommost)))
  | mergeWrite {tier id header : Nat} (pages : Nat)
      (stands : engine.compaction = some ⟨runner, .building tier toCompact id header merged⟩)
      (grows : (engine.disk.tableFile id).pages < pages) :
      Step config engine .inner (engine.growTable id pages)
  | mergeEnd {tier id header : Nat}
      (stands : engine.compaction = some ⟨runner, .building tier toCompact id header merged⟩)
      (opens : (engine.finishTable id header merged).openTable config id = table) :
      Step config engine .inner ((engine.finishTable id header merged).setPass runner
        (.built tier toCompact (some table)))
  | compact (stands : engine.compaction = some ⟨runner, .built tier toCompact newSst⟩)
      (persists : (engine.installCompacted tier toCompact newSst).persistManifest =
        .ok manifest) :
      Step config engine .inner
        (((engine.installCompacted tier toCompact newSst).setManifest manifest).endPass runner
          none)
  /-- In the background thread the exception ends the process. -/
  | compactThrows (stands : engine.compaction = some ⟨some client, .built tier toCompact newSst⟩)
      (throws : (engine.installCompacted tier toCompact newSst).persistManifest = .error what) :
      Step config engine .inner
        ((engine.installCompacted tier toCompact newSst).endPass (some client) (some what))
  | fileRemove {id : Nat} (marked : id ∈ engine.obsolete) :
      Step config engine .inner (engine.removeFile id)

/-- The runs all of whose steps are allowed, with what can be seen of them. -/
inductive Run (config : Config) (allowed : LSMTreeEngine → Label → Prop)
    (opened : LSMTreeEngine) : List Label → LSMTreeEngine → Prop where
  | opened : Run config allowed opened [] opened
  | step (before : Run config allowed opened labels engine) (may : allowed engine label)
      (step : Step config engine label after) :
      Run config allowed opened (labels ++ [label]) after

end DbEngine.Lsm
