import DbEngine.Wal.LogRecord

/-!
# The logging B+-tree engine

`wal/wal_b_plus_tree_engine.cpp`.  The tree is taken as the map it implements, and the log
as the list of its records: `LogManager::Append` writes each record to the file at once.
Of the meta page only the pointer to the last checkpoint matters here.
-/

namespace DbEngine.Wal

/-- `UndoEntry`. -/
structure UndoEntry where
  op : LogOp
  key : KeyType
  oldValue : Option Bytes
  undoNextLsn : Option Lsn
  deriving Repr, DecidableEq

/-- `TxnState`; the undo log lists the newest entry first. -/
structure TxnState where
  lastLsn : Option Lsn := none
  undoLog : List UndoEntry := []
  deriving Repr, DecidableEq

/-- `WALBPlusTreeEngine`. -/
structure WALBPlusTreeEngine where
  walEnabled : Bool
  checkpointIntervalTxns : Int
  tree : Contents := fun _ => none
  log : List LogRecord := []
  /-- `MetaPage::last_checkpoint_begin_lsn`. -/
  lastCheckpointBeginLsn : Option Lsn := none
  txnsSinceCheckpoint : Nat := 0
  checkpointCount : Nat := 0
  nextTxnId : TxnId := 0
  activeTxns : AList fun _ : TxnId => TxnState := ∅

/-- The exceptions of the engine. -/
inductive WalError where
  | invalidArgument (what : String)
  | runtimeError (what : String)
  deriving Repr, DecidableEq

/-- The order in which a loop visits the entries of an `unordered_map`. -/
structure VisitOrder (Entry : Type) where
  visit : List Entry → List Entry
  perm : ∀ entries, (visit entries).Perm entries

namespace WALBPlusTreeEngine

/-- The calls, which may throw after they have changed the engine. -/
abbrev Call (α : Type) := EStateM WalError WALBPlusTreeEngine α

/-- `LogManager::Append`. -/
def append (record : LogRecord) (engine : WALBPlusTreeEngine) : WALBPlusTreeEngine :=
  { engine with log := engine.log ++ [record] }

/-- Append a record, if the log is kept; the LSN it gets, or the one given. -/
def appendIfEnabled (record : LogRecord) (lastLsn : Option Lsn) : Call (Option Lsn) := do
  let engine ← get
  if engine.walEnabled then
    set (engine.append record)
    return some engine.log.length
  else
    return lastLsn

/-- `tree_->Insert` or `tree_->Remove`. -/
def applyOp (op : LogOp) (key : KeyType) (engine : WALBPlusTreeEngine) : WALBPlusTreeEngine :=
  { engine with tree := Function.update engine.tree key op.value }

def setTxn (txnId : TxnId) (state : TxnState) (engine : WALBPlusTreeEngine) :
    WALBPlusTreeEngine :=
  { engine with activeTxns := engine.activeTxns.insert txnId state }

/-- The state of an active transaction. -/
def findTxn (caller : String) (txnId : TxnId) : Call TxnState := do
  match (← get).activeTxns.lookup txnId with
  | some state => return state
  | none => throw (.runtimeError
      ("WALBPlusTreeEngine::" ++ caller ++ ": unknown or already-finished transaction"))

/-- `WALBPlusTreeEngine::Begin`. -/
def begin : Call TxnId := do
  let txnId := (← get).nextTxnId
  modify fun engine => { engine with nextTxnId := txnId + 1 }
  let lastLsn ← appendIfEnabled (.begin txnId) none
  modify (setTxn txnId { lastLsn })
  return txnId

/-- What `Put` and `Delete` do once they know what the key holds: note how to undo the
operation, log it and apply it. -/
def logAndApply (txnId : TxnId) (state : TxnState) (op : LogOp) (key : KeyType)
    (oldValue : Option Bytes) : Call Unit := do
  let entry : UndoEntry := { op, key, oldValue, undoNextLsn := state.lastLsn }
  let lastLsn ← appendIfEnabled (.update txnId state.lastLsn op key oldValue) state.lastLsn
  modify fun engine =>
    (engine.setTxn txnId { lastLsn, undoLog := entry :: state.undoLog }).applyOp op key

/-- `WALBPlusTreeEngine::Put(txn_id, key, value)`. -/
def put (txnId : TxnId) (key : KeyType) (value : Bytes) : Call Unit := do
  if MAX_VALUE_SIZE < value.length then
    throw (.invalidArgument "WALBPlusTreeEngine::Put: value exceeds MAX_VALUE_SIZE")
  let state ← findTxn "Put" txnId
  let oldValue := (← get).tree key
  logAndApply txnId state (.put value) key oldValue

/-- `WALBPlusTreeEngine::Delete(txn_id, key)`. -/
def delete (txnId : TxnId) (key : KeyType) : Call Bool := do
  let state ← findTxn "Delete" txnId
  match (← get).tree key with
  | none => return false
  | some oldValue =>
    logAndApply txnId state .delete key (some oldValue)
    return true

/-- `WALBPlusTreeEngine::Get(txn_id, key)`. -/
protected def get (txnId : TxnId) (key : KeyType) : Call (Option Bytes) := do
  let _ ← findTxn "Get" txnId
  return (← get).tree key

/-- The order in which `DoCheckpoint` visits `active_txns_`. -/
abbrev CheckpointOrder := VisitOrder (Sigma fun _ : TxnId => TxnState)

/-- The records of a checkpoint. -/
def bracket (active : List (Sigma fun _ : TxnId => TxnState)) : List LogRecord :=
  .checkpointBegin :: (active.map (fun entry => .activeTxn entry.1 entry.2.lastLsn) ++
    [.checkpointEnd])

/-- `WALBPlusTreeEngine::DoCheckpoint`.  The pages are flushed before the first record, and
the pointer is on disk after the last. -/
def doCheckpoint (order : CheckpointOrder) (engine : WALBPlusTreeEngine) :
    WALBPlusTreeEngine :=
  { engine with
    log := engine.log ++ bracket (order.visit engine.activeTxns.entries)
    lastCheckpointBeginLsn := some engine.log.length
    checkpointCount := engine.checkpointCount + 1 }

/-- The end of `Commit` and `Abort`. -/
def countTxn (order : CheckpointOrder) (engine : WALBPlusTreeEngine) : WALBPlusTreeEngine :=
  let count := engine.txnsSinceCheckpoint + 1
  if engine.walEnabled ∧ engine.checkpointIntervalTxns ≤ count then
    { engine.doCheckpoint order with txnsSinceCheckpoint := 0 }
  else
    { engine with txnsSinceCheckpoint := count }

/-- `WALBPlusTreeEngine::Commit`. -/
def commit (order : CheckpointOrder) (txnId : TxnId) : Call Unit := do
  let state ← findTxn "Commit" txnId
  let _ ← appendIfEnabled (.commit txnId state.lastLsn) none
  modify fun engine => { engine with activeTxns := engine.activeTxns.erase txnId }
  modify (countTxn order)

/-- The loop of `Abort` over the undo log. -/
def undoEntries (txnId : TxnId) : List UndoEntry → Option Lsn → Call Unit
  | [], _ => return ()
  | entry :: rest, lastLsn => do
    let op := computeCompensation entry.op entry.oldValue
    modify (applyOp op entry.key)
    let lastLsn ← appendIfEnabled (.clr txnId lastLsn op entry.key entry.undoNextLsn) lastLsn
    undoEntries txnId rest lastLsn

/-- `WALBPlusTreeEngine::Abort`. -/
def abort (order : CheckpointOrder) (txnId : TxnId) : Call Unit := do
  let state ← findTxn "Abort" txnId
  modify fun engine => { engine with activeTxns := engine.activeTxns.erase txnId }
  let lastLsn ← appendIfEnabled (.abort txnId state.lastLsn) state.lastLsn
  undoEntries txnId state.undoLog lastLsn
  modify (countTxn order)

/-! ## Implicit transactions -/

/-- `WALBPlusTreeEngine::Put(key, value)`. -/
def putImplicit (order : CheckpointOrder) (key : KeyType) (value : Bytes) : Call Unit := do
  let txnId ← begin
  put txnId key value
  commit order txnId

/-- `WALBPlusTreeEngine::Delete(key)`. -/
def deleteImplicit (order : CheckpointOrder) (key : KeyType) : Call Bool := do
  let txnId ← begin
  let existed ← delete txnId key
  commit order txnId
  return existed

/-! ## Recovery -/

/-- The loop of `RecoverOnStartup` over the bracket of a checkpoint: the transactions that
were active, or nothing if the bracket is not complete. -/
def readBracket : List LogRecord → Option (List (TxnId × Option Lsn))
  | .activeTxn txnId lastLsn :: rest =>
    (readBracket rest).map fun active => (txnId, lastLsn) :: active
  | .checkpointEnd :: _ => some []
  | _ => none

/-- Where redo starts, and the transactions the checkpoint lists. -/
def redoStart (log : List LogRecord) (pointer : Option Lsn) :
    Lsn × List (TxnId × Option Lsn) :=
  match pointer with
  | none => (0, [])
  | some beginLsn =>
    if log[beginLsn]? = some .checkpointBegin then
      match readBracket (log.drop (beginLsn + 1)) with
      | none => (0, [])
      | some active =>
        ((active.filterMap Prod.snd).foldl min beginLsn, active)
    else
      (0, [])

/-- The table of transactions that have not committed. -/
abbrev ActiveTable := AList fun _ : TxnId => Option Lsn

/-- The table the analysis starts from. -/
def seedTable (listed : List (TxnId × Option Lsn)) : ActiveTable :=
  listed.foldl (fun active seed => active.insert seed.1 seed.2) ∅

/-- One iteration of the analysis. -/
def analyzeRecord (active : ActiveTable) (lsn : Lsn) : LogRecord → ActiveTable
  | .begin txnId | .update txnId _ _ _ _ | .clr txnId _ _ _ _ => active.insert txnId (some lsn)
  | .commit txnId _ => active.erase txnId
  | _ => active

/-- The analysis, over records from an LSN on. -/
def analyze (lsn : Lsn) (active : ActiveTable) : List LogRecord → ActiveTable
  | [] => active
  | record :: rest => analyze (lsn + 1) (analyzeRecord active lsn record) rest

/-- `UndoTransactionFromLog`, with as much fuel as it may read records.  Records with no
link to an earlier one end the loop. -/
def undoTransactionFromLog (txnId : TxnId) :
    Nat → Option Lsn → WALBPlusTreeEngine → Option WALBPlusTreeEngine
  | _, none, engine => some engine
  | 0, some _, _ => none
  | fuel + 1, some lsn, engine =>
    match engine.log[lsn]? with
    | some (.begin _) => some engine
    | some (.clr _ _ _ _ undoNextLsn) => undoTransactionFromLog txnId fuel undoNextLsn engine
    | some (.update _ prevLsn op key oldValue) =>
      let op := computeCompensation op oldValue
      undoTransactionFromLog txnId fuel prevLsn
        ((engine.applyOp op key).append (.clr txnId none op key prevLsn))
    | some (.commit _ prevLsn) | some (.abort _ prevLsn) =>
      undoTransactionFromLog txnId fuel prevLsn engine
    | some .checkpointBegin | some (.activeTxn _ _) | some .checkpointEnd => some engine
    | none => none

/-- The undo loop, over the losers in the order it visits them. -/
def undoAll (fuel : Nat) (losers : List (Sigma fun _ : TxnId => Option Lsn))
    (engine : WALBPlusTreeEngine) : Option WALBPlusTreeEngine :=
  losers.foldlM (fun engine loser => undoTransactionFromLog loser.1 fuel loser.2 engine) engine

/-- `RecoverOnStartup` of an engine whose tree is the one found on disk. -/
def recoverOnStartup (order : VisitOrder (Sigma fun _ : TxnId => Option Lsn))
    (engine : WALBPlusTreeEngine) : Option WALBPlusTreeEngine :=
  let start := redoStart engine.log engine.lastCheckpointBeginLsn
  let records := engine.log.drop start.1
  let active := analyze start.1 (seedTable start.2) records
  undoAll engine.log.length (order.visit active.entries)
    { engine with tree := redoAll records engine.tree }

/-- Opening the database with logging enabled. -/
def openDatabase (order : VisitOrder (Sigma fun _ : TxnId => Option Lsn))
    (checkpointIntervalTxns : Int) (log : List LogRecord) (pointer : Option Lsn)
    (tree : Contents) : Option WALBPlusTreeEngine :=
  recoverOnStartup order
    { walEnabled := true
      checkpointIntervalTxns
      tree
      log
      lastCheckpointBeginLsn := pointer }

end WALBPlusTreeEngine

end DbEngine.Wal
