import DbEngine.Mvcc.Machine
import DbEngine.Lib.Replay

/-!
# The store, one call at a time

`MVCCStore` with every call atomic.  The calls are built from the same chain operations
as the interleaved machine.  A run records for each transaction the script of its
operations and replies, and the commits in the order in which they happened.
-/

namespace DbEngine.Mvcc

open Lib Function

/-- `read_set.insert(key)`. -/
def Transaction.noteRead (txn : Transaction) (key : KeyType) : Transaction :=
  { txn with readSet := insert key txn.readSet }

/-- `MVCCStore`, without the mutexes that make a call atomic.  The shards of the
transaction table are one table here. -/
structure Store where
  globalTs : Int := 0
  nextTxnId : TxnId := 0
  nextNode : Nat := 0
  table : KeyType → Option (List Version) := fun _ => none
  txns : TxnId → Option Transaction := fun _ => none

namespace Store

/-- The versions of a key; a key without a chain has none. -/
def versions (store : Store) (key : KeyType) : List Version :=
  (store.table key).getD []

def setVersions (store : Store) (key : KeyType) (versions : List Version) : Store :=
  { store with table := update store.table key (some versions) }

def setTxn (store : Store) (txnId : TxnId) (txn : Option Transaction) : Store :=
  { store with txns := update store.txns txnId txn }

/-- `global_ts_.fetch_add(1)`. -/
def tick (store : Store) : Store :=
  { store with globalTs := store.globalTs + 1 }

/-- `MVCCStore::Begin`. -/
def begin (store : Store) (level : IsolationLevel) : TxnId × Store :=
  (store.nextTxnId, { store.tick with nextTxnId := store.nextTxnId + 1 }.setTxn
    store.nextTxnId (some { isolation := level, startTs := store.globalTs }))

/-- `MVCCStore::Read`; `none` where `GetTransaction` throws. -/
def read (store : Store) (txnId : TxnId) (key : KeyType) :
    Option (Option Bytes × Store) :=
  match store.txns txnId with
  | none => none
  | some txn =>
    let noted := store.setTxn txnId (some (txn.noteRead key))
    match store.table key with
    | none => some (none, noted)
    | some versions =>
      some (readChain versions txnId txn.isolation txn.startTs, noted)

/-- `MVCCStore::WriteInternal`. -/
def writeInternal (store : Store) (txn : Transaction) (txnId : TxnId) (key : KeyType)
    (deleted : Bool) (value : Bytes) : Store :=
  match overwritePending txnId deleted value store.globalTs (store.versions key) with
  | some versions => store.tick.setVersions key versions
  | none =>
    let version := newVersion store.nextNode txnId deleted value store.globalTs
    ({ store.tick with nextNode := store.nextNode + 1 }.setVersions key
      (store.versions key ++ [version])).setTxn txnId
        (some (txn.addWrite key store.nextNode))

/-- `MVCCStore::Write`. -/
def write (store : Store) (txnId : TxnId) (key : KeyType) (value : Bytes) :
    Option Store :=
  (store.txns txnId).map fun txn => store.writeInternal txn txnId key false value

/-- `MVCCStore::Delete`: a read, then a write of a tombstone. -/
def delete (store : Store) (txnId : TxnId) (key : KeyType) : Option (Bool × Store) :=
  match store.read txnId key with
  | none => none
  | some (found, noted) =>
    (noted.txns txnId).map fun txn =>
      (found.isSome, noted.writeInternal txn txnId key true [])

/-- Apply a change to the version each write record designates. -/
def forRecords (change : Nat → List Version → List Version) (store : Store)
    (records : List WriteRecord) : Store :=
  records.foldl (fun current record => current.setVersions record.key
    (change record.node (current.versions record.key))) store

/-- `MVCCStore::AbortInternal`. -/
def abortInternal (store : Store) (txn : Transaction) : Store :=
  store.forRecords eraseNode txn.writeRecords

/-- `MVCCStore::Abort`; an unknown transaction is ignored. -/
def abort (store : Store) (txnId : TxnId) : Store :=
  match store.txns txnId with
  | none => store
  | some txn => (store.setTxn txnId none).abortInternal txn

/-- The conflict loop of `Commit` over the chains that exist. -/
def conflicts (store : Store) (txn : Transaction) (txnId : TxnId) : Bool :=
  (txn.checkKeys.filterMap store.table).any fun versions =>
    chainConflicts versions txnId txn.startTs

/-- `MVCCStore::Commit`: the commit timestamp where the source returns true. -/
def commit (store : Store) (txnId : TxnId) : Option (Option Int × Store) :=
  match store.txns txnId with
  | none => none
  | some txn =>
    if store.conflicts txn txnId then
      some (none, (store.abortInternal txn).setTxn txnId none)
    else
      some (some store.globalTs, (store.tick.forRecords
        (fun node => markCommitted node store.globalTs) txn.writeRecords).setTxn
          txnId none)

/-- The start timestamps of the registered transactions. -/
def activeStarts (store : Store) : List Int :=
  ((range store.nextTxnId).filterMap store.txns).map (·.startTs)

/-- `MVCCStore::RunGarbageCollection`. -/
def runGarbageCollection (store : Store) : Store :=
  { store with table := fun key => (store.table key).map (sweepChain store.activeStarts) }

/-- The value of the newest committed version of a key. -/
def newest (store : Store) (key : KeyType) : Option Bytes :=
  (((store.versions key).filter (·.committed)).argmax (·.commitTs)).bind Version.result

end Store

/-! ## Calls and what they are told -/

inductive Call where
  | begin (level : IsolationLevel)
  | read (txnId : TxnId) (key : KeyType)
  | write (txnId : TxnId) (key : KeyType) (value : Bytes)
  | delete (txnId : TxnId) (key : KeyType)
  | commit (txnId : TxnId)
  | abort (txnId : TxnId)
  | runGarbageCollection
  deriving Repr, DecidableEq

inductive Reply where
  | began (txnId : TxnId)
  | found (value : Option Bytes)
  | existed (present : Bool)
  /-- `Commit` returned true, at this timestamp. -/
  | committed (commitTs : Int)
  /-- `Commit` returned false. -/
  | conflicted
  | done
  deriving Repr, DecidableEq

/-- One call; `none` where it throws because the transaction is unknown. -/
def Store.exec (store : Store) : Call → Option (Reply × Store)
  | .begin level => some (.began (store.begin level).1, (store.begin level).2)
  | .read txnId key => (store.read txnId key).map fun outcome =>
    (.found outcome.1, outcome.2)
  | .write txnId key value => (store.write txnId key value).map fun after => (.done, after)
  | .delete txnId key => (store.delete txnId key).map fun outcome =>
    (.existed outcome.1, outcome.2)
  | .commit txnId => (store.commit txnId).map fun outcome =>
    (match outcome.1 with
      | some commitTs => .committed commitTs
      | none => .conflicted, outcome.2)
  | .abort txnId => some (.done, store.abort txnId)
  | .runGarbageCollection => some (.done, store.runGarbageCollection)

/-- What the clients of a run saw: the script of each transaction, and the successful
commits with their timestamps, in the order of the calls. -/
structure CallLog where
  scripts : TxnId → Script KeyType Bytes := fun _ => []
  commits : List (TxnId × Int) := []

namespace CallLog

/-- Add an operation to a transaction's script. -/
def note (log : CallLog) (txnId : TxnId) (op : MapOp KeyType Bytes)
    (reply : MapReply Bytes) : CallLog :=
  { log with scripts := update log.scripts txnId (log.scripts txnId ++ [(op, reply)]) }

def record (log : CallLog) : Call → Reply → CallLog
  | .read txnId key, .found value => log.note txnId (.read key) (.value value)
  | .write txnId key value, .done => log.note txnId (.write key value) .done
  | .delete txnId key, .existed present => log.note txnId (.delete key) (.existed present)
  | .commit txnId, .committed commitTs =>
    { log with commits := log.commits ++ [(txnId, commitTs)] }
  | _, _ => log

/-- The scripts of the committed transactions, in commit order. -/
def committedScripts (log : CallLog) : List (Script KeyType Bytes) :=
  log.commits.map fun commit => log.scripts commit.1

/-- The committed scripts run one after another on an empty map. -/
def committedMap (log : CallLog) : KeyType → Option Bytes :=
  applySerially (fun _ => none) log.committedScripts

end CallLog

/-- Runs of allowed calls on a fresh store. -/
inductive CallRun (allowed : Call → Prop) : CallLog → Store → Prop where
  | start : CallRun allowed {} {}
  | step {log : CallLog} {store after : Store} {call : Call} {reply : Reply}
      (run : CallRun allowed log store) (permitted : allowed call)
      (executed : store.exec call = some (reply, after)) :
      CallRun allowed (log.record call reply) after

end DbEngine.Mvcc
