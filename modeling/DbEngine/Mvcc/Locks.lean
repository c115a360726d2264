import DbEngine.Lib.LockProgram
import DbEngine.Mvcc.Store

/-!
# The locks of the store

The calls of `MVCCStore` with every mutex they take.  Chains are locked below the table, and
`Commit`, the only call that holds several chains, locks them in key order, so no set of
threads can wait for each other in a circle.
-/

namespace DbEngine.Mvcc

open Lib Respects
open Lib.LockProgram (lock unlock lockShared unlockShared load store exchange forEach)

/-- The mutexes of the store. -/
inductive StoreLock where
  /-- `table_mutex_`. -/
  | table
  /-- The mutex of a `TxnShard`. -/
  | shard (index : Nat)
  /-- The mutex of the `VersionChain` of a key. -/
  | chain (key : KeyType)
  deriving DecidableEq

abbrev Locked (α : Type) := LockProgram StoreLock Store α

/-- `ShardFor`. -/
def shardFor (txnId : TxnId) : StoreLock := .shard (txnId % txnShardCount)

namespace Locked

/-- `MVCCStore::Begin`. -/
def begin (level : IsolationLevel) : Locked TxnId := do
  let txnId ← exchange (·.nextTxnId) fun current =>
    { current with nextTxnId := current.nextTxnId + 1 }
  let startTs ← exchange (·.globalTs) Store.tick
  lock (shardFor txnId)
  store (·.setTxn txnId (some { isolation := level, startTs }))
  unlock (shardFor txnId)
  return txnId

/-- `MVCCStore::GetTransaction`; `none` where `at` throws. -/
def getTransaction (txnId : TxnId) : Locked (Option Transaction) := do
  lock (shardFor txnId)
  let txn ← load (·.txns txnId)
  unlock (shardFor txnId)
  return txn

/-- `MVCCStore::GetOrCreateChain`: whether there is a chain for the key. -/
def getOrCreateChain (key : KeyType) (create : Bool) : Locked Bool := do
  lockShared .table
  let found ← load fun current => (current.table key).isSome
  unlockShared .table
  if found then
    return true
  else if !create then
    return false
  else
    lock .table
    store fun current =>
      if (current.table key).isSome then current else current.setVersions key []
    unlock .table
    return true

/-- A change of the transaction that a `Transaction*` points to. -/
def updateTxn (txnId : TxnId) (change : Transaction → Transaction) (current : Store) : Store :=
  match current.txns txnId with
  | some txn => current.setTxn txnId (some (change txn))
  | none => current

/-- `MVCCStore::Read`; the outer option is `none` where `GetTransaction` throws. -/
def read (txnId : TxnId) (key : KeyType) : Locked (Option (Option Bytes)) := do
  match ← getTransaction txnId with
  | none => return none
  | some txn =>
    store (updateTxn txnId (·.noteRead key))
    if ← getOrCreateChain key false then
      lock (.chain key)
      let versions ← load (·.versions key)
      unlock (.chain key)
      return some (readChain versions txnId txn.isolation txn.startTs)
    else
      return some none

/-- `MVCCStore::WriteInternal`. -/
def writeInternal (txnId : TxnId) (key : KeyType) (deleted : Bool) (value : Bytes) :
    Locked Unit := do
  let _ ← getOrCreateChain key true
  lock (.chain key)
  store fun current =>
    match current.txns txnId with
    | some txn => current.writeInternal txn txnId key deleted value
    | none => current
  unlock (.chain key)

/-- `MVCCStore::Write`; `none` where `GetTransaction` throws. -/
def write (txnId : TxnId) (key : KeyType) (value : Bytes) : Locked (Option Unit) := do
  match ← getTransaction txnId with
  | none => return none
  | some _ =>
    writeInternal txnId key false value
    return some ()

/-- `MVCCStore::Delete`; `none` where `GetTransaction` throws. -/
def delete (txnId : TxnId) (key : KeyType) : Locked (Option Bool) := do
  match ← read txnId key with
  | none => return none
  | some found =>
    match ← getTransaction txnId with
    | none => return none
    | some _ =>
      writeInternal txnId key true []
      return some found.isSome

/-- `MVCCStore::AbortInternal`. -/
def abortInternal (txn : Transaction) : Locked Unit :=
  forEach (fun record => do
    lock (.chain record.key)
    store fun current => current.setVersions record.key
      (eraseNode record.node (current.versions record.key))
    unlock (.chain record.key)) txn.writeRecords

/-- Erase a transaction from its shard. -/
def eraseTxn (txnId : TxnId) : Locked Unit := do
  lock (shardFor txnId)
  store (·.setTxn txnId none)
  unlock (shardFor txnId)

/-- `MVCCStore::Abort`. -/
def abort (txnId : TxnId) : Locked Unit := do
  lock (shardFor txnId)
  let txn ← exchange (·.txns txnId) (·.setTxn txnId none)
  unlock (shardFor txnId)
  match txn with
  | none => return ()
  | some txn => abortInternal txn

/-- The chains that `Commit` finds for its keys, by key. -/
def findChains : List KeyType → Locked (List KeyType)
  | [] => return []
  | key :: rest => do
    let found ← getOrCreateChain key false
    let others ← findChains rest
    return if found then key :: others else others

/-- `MVCCStore::Commit`; `none` where `GetTransaction` throws. -/
def commit (txnId : TxnId) : Locked (Option Bool) := do
  match ← getTransaction txnId with
  | none => return none
  | some txn =>
    let chains ← findChains txn.checkKeys
    forEach (fun key => lock (.chain key)) chains
    let conflict ← load fun current =>
      chains.any fun key => chainConflicts (current.versions key) txnId txn.startTs
    if conflict then
      forEach (fun key => unlock (.chain key)) chains
      abortInternal txn
      eraseTxn txnId
      return some false
    else
      let commitTs ← exchange (·.globalTs) Store.tick
      store fun current =>
        current.forRecords (fun node => markCommitted node commitTs) txn.writeRecords
      forEach (fun key => unlock (.chain key)) chains
      eraseTxn txnId
      return some true

/-- `MVCCStore::GetVersionCount`. -/
def getVersionCount (key : KeyType) : Locked Nat := do
  lockShared .table
  let found ← load fun current => (current.table key).isSome
  if found then
    lock (.chain key)
    let count ← load fun current => (current.versions key).length
    unlock (.chain key)
    unlockShared .table
    return count
  else
    unlockShared .table
    return 0

/-- The start timestamps of the transactions in a shard. -/
def shardStarts (index : Nat) (current : Store) : List Int :=
  (((range current.nextTxnId).filter fun txnId =>
    decide (txnId % txnShardCount = index)).filterMap current.txns).map (·.startTs)

/-- The loop of `RunGarbageCollection` over the shards. -/
def collectStarts : List Nat → Locked (List Int)
  | [] => return []
  | index :: rest => do
    lock (.shard index)
    let starts ← load (shardStarts index)
    unlock (.shard index)
    let others ← collectStarts rest
    return starts ++ others

/-- The loop of `RunGarbageCollection` over the chains: how many versions it removes. -/
def sweepChains (activeStarts : List Int) : List KeyType → Locked Nat
  | [] => return 0
  | key :: rest => do
    if ← load fun current => (current.table key).isSome then
      lock (.chain key)
      let versions ← exchange (·.versions key) fun current =>
        current.setVersions key (sweepChain activeStarts (current.versions key))
      unlock (.chain key)
      let removed ← sweepChains activeStarts rest
      return versions.length - (sweepChain activeStarts versions).length + removed
    else
      sweepChains activeStarts rest

/-- `MVCCStore::RunGarbageCollection`.  The iteration over `table_` comes to its keys in the
given order, which the standard leaves open. -/
def runGarbageCollection (order : List KeyType) : Locked Nat := do
  let activeStarts ← collectStarts (range txnShardCount)
  lockShared .table
  let removed ← sweepChains activeStarts order
  unlockShared .table
  return removed

/-- The program of a call.  Only a collection looks at the order. -/
def program (order : List KeyType) : Call → Locked Unit
  | .begin level => discard (begin level)
  | .read txnId key => discard (read txnId key)
  | .write txnId key value => discard (write txnId key value)
  | .delete txnId key => discard (delete txnId key)
  | .commit txnId => discard (commit txnId)
  | .abort txnId => abort txnId
  | .runGarbageCollection => discard (runGarbageCollection order)

end Locked

/-- The programs that a thread may run. -/
inductive StoreCall : Locked Unit → Prop where
  | call (order : List KeyType) (call : Call) : StoreCall (Locked.program order call)
  | getVersionCount (key : KeyType) : StoreCall (discard (Locked.getVersionCount key))

/-! ## The order of the locks -/

/-- The table and the shards rank below every chain, and chains rank by their keys. -/
def StoreLock.rank : StoreLock → WithBot KeyType
  | .table | .shard _ => ⊥
  | .chain key => key

@[simp] lemma StoreLock.rank_table_lt_chain : StoreLock.table.rank < (StoreLock.chain key).rank :=
  WithBot.bot_lt_coe key

/-- The program takes its locks in order when it starts with none, and releases them all. -/
abbrev Balanced {α : Type} (program : Locked α) : Prop :=
  Respects StoreLock.rank [] program fun _ held => held = []

lemma Balanced.discard {α : Type} {program : Locked α} (balanced : Balanced program) :
    Balanced (discard program) := by
  apply Respects.bind
  exact balanced

lemma Balanced.bind {α β : Type} {program : Locked α} {rest : α → Locked β}
    {ends : β → List (LockMode × StoreLock) → Prop} (balanced : Balanced program)
    (next : ∀ result, Respects StoreLock.rank [] (rest result) ends) :
    Respects StoreLock.rank [] (program >>= rest) ends := by
  apply Respects.bind
  apply balanced.mono
  rintro result _ rfl
  exact next result

lemma checkKeys_ascending (txn : Transaction) : txn.checkKeys.Pairwise (· < ·) := by
  unfold Transaction.checkKeys
  split <;> exact Finset.sortedLT_sort _ |>.pairwise

namespace Locked

lemma begin_balanced (level : IsolationLevel) : Balanced (begin level) := by
  simp [Balanced, begin]

lemma getTransaction_balanced (txnId : TxnId) : Balanced (getTransaction txnId) := by
  simp [Balanced, getTransaction]

lemma getOrCreateChain_balanced (key : KeyType) (create : Bool) :
    Balanced (getOrCreateChain key create) := by
  simp only [Balanced, getOrCreateChain, lockShared_bind, load_bind, unlockShared_bind]
  refine ⟨by simp, fun current => ⟨by simp, ?_⟩⟩
  split
  · simp
  · split <;> simp

lemma read_balanced (txnId : TxnId) (key : KeyType) : Balanced (read txnId key) := by
  apply (getTransaction_balanced txnId).bind
  intro txn
  cases txn with
  | none => rfl
  | some txn =>
    simp only [store_bind]
    intro _
    apply (getOrCreateChain_balanced key false).bind
    intro found
    cases found <;> simp

lemma writeInternal_balanced (txnId : TxnId) (key : KeyType) (deleted : Bool) (value : Bytes) :
    Balanced (writeInternal txnId key deleted value) := by
  apply (getOrCreateChain_balanced key true).bind
  simp

lemma write_balanced (txnId : TxnId) (key : KeyType) (value : Bytes) :
    Balanced (write txnId key value) := by
  apply (getTransaction_balanced txnId).bind
  intro txn
  cases txn with
  | none => rfl
  | some txn =>
    apply (writeInternal_balanced txnId key false value).bind
    simp

lemma delete_balanced (txnId : TxnId) (key : KeyType) : Balanced (delete txnId key) := by
  apply (read_balanced txnId key).bind
  intro found
  cases found with
  | none => rfl
  | some found =>
    apply (getTransaction_balanced txnId).bind
    intro txn
    cases txn with
    | none => rfl
    | some txn =>
      apply (writeInternal_balanced txnId key true []).bind
      simp

lemma abortInternal_balanced (txn : Transaction) : Balanced (abortInternal txn) := by
  apply Respects.forEach
  simp

lemma eraseTxn_balanced (txnId : TxnId) : Balanced (eraseTxn txnId) := by
  simp [Balanced, eraseTxn]

lemma abort_balanced (txnId : TxnId) : Balanced (abort txnId) := by
  simp only [Balanced, abort, lock_bind, exchange_bind, unlock_bind]
  refine ⟨by simp, fun current => ⟨by simp, ?_⟩⟩
  cases current.txns txnId with
  | none => simp
  | some txn =>
    rw [erase_cons_head]
    exact abortInternal_balanced txn

lemma findChains_respects (keys : List KeyType) :
    Respects StoreLock.rank [] (findChains keys) fun chains held =>
      chains.Sublist keys ∧ held = [] := by
  induction keys with
  | nil => exact ⟨.slnil, rfl⟩
  | cons key rest ih =>
    apply (getOrCreateChain_balanced key false).bind
    intro found
    apply Respects.bind
    apply ih.mono
    rintro chains _ ⟨sublist, rfl⟩
    cases found with
    | false => exact ⟨sublist.cons key, rfl⟩
    | true => exact ⟨sublist.cons_cons key, rfl⟩

/-- `Commit` never asks for a chain below one it holds, since its keys ascend. -/
lemma commit_balanced (txnId : TxnId) : Balanced (commit txnId) := by
  apply (getTransaction_balanced txnId).bind
  intro txn
  cases txn with
  | none => rfl
  | some txn =>
    apply Respects.bind
    apply (findChains_respects txn.checkKeys).mono
    rintro chains _ ⟨sublist, rfl⟩
    have ascending := (checkKeys_ascending txn).sublist sublist
    apply Respects.bind
    have locks := @Respects.lockAll _ Store _ _ _ _ StoreLock.rank [] StoreLock.chain chains
      (ascending.imp WithBot.coe_lt_coe.mpr) (by simp)
    apply locks.mono
    intro _ held holds
    have unlocks := @Respects.unlockAll _ Store _ _ _ _ StoreLock.rank held _ _ [] holds
    simp only [load_bind]
    intro current
    split
    · apply Respects.bind
      apply unlocks.mono
      intro _ left empty
      rw [empty.eq_nil]
      apply (abortInternal_balanced txn).bind
      intro _
      apply (eraseTxn_balanced txnId).bind
      simp
    · simp only [exchange_bind, store_bind]
      intro before _
      apply Respects.bind
      apply unlocks.mono
      intro _ left empty
      rw [empty.eq_nil]
      apply (eraseTxn_balanced txnId).bind
      simp

lemma getVersionCount_balanced (key : KeyType) : Balanced (getVersionCount key) := by
  simp only [Balanced, getVersionCount, lockShared_bind, load_bind]
  refine ⟨by simp, fun current => ?_⟩
  split <;> simp

lemma collectStarts_balanced (shards : List Nat) : Balanced (collectStarts shards) := by
  induction shards with
  | nil => rfl
  | cons index rest ih =>
    simp only [Balanced, collectStarts, lock_bind, load_bind, unlock_bind]
    refine ⟨by simp, fun current => ⟨by simp, ?_⟩⟩
    rw [erase_cons_head]
    apply ih.bind
    simp

/-- The sweep takes every chain while it holds the table. -/
lemma sweepChains_respects (activeStarts : List Int) (keys : List KeyType) :
    Respects StoreLock.rank [(.shared, .table)] (sweepChains activeStarts keys) fun _ held =>
      held = [(.shared, .table)] := by
  induction keys with
  | nil => rfl
  | cons key rest ih =>
    simp only [sweepChains, load_bind]
    intro current
    split
    · simp only [lock_bind, exchange_bind, unlock_bind]
      refine ⟨by simp, fun before => ⟨by simp, ?_⟩⟩
      rw [erase_cons_head]
      apply Respects.bind
      exact ih
    · exact ih

lemma runGarbageCollection_balanced (order : List KeyType) :
    Balanced (runGarbageCollection order) := by
  apply (collectStarts_balanced (range txnShardCount)).bind
  intro activeStarts
  simp only [lockShared_bind]
  refine ⟨by simp, ?_⟩
  apply Respects.bind
  apply (sweepChains_respects activeStarts order).mono
  rintro removed _ rfl
  simp

end Locked

lemma Locked.program_balanced (order : List KeyType) (call : Call) :
    Balanced (program order call) := by
  cases call with
  | begin level => exact (begin_balanced level).discard
  | read txnId key => exact (read_balanced txnId key).discard
  | write txnId key value => exact (write_balanced txnId key value).discard
  | delete txnId key => exact (delete_balanced txnId key).discard
  | commit txnId => exact (commit_balanced txnId).discard
  | abort txnId => exact abort_balanced txnId
  | runGarbageCollection => exact (runGarbageCollection_balanced order).discard

lemma StoreCall.balanced {program : Locked Unit} (call : StoreCall program) : Balanced program := by
  cases call with
  | call order call => exact Locked.program_balanced order call
  | getVersionCount key => exact (Locked.getVersionCount_balanced key).discard

/-- Whatever calls the threads make, while one of them is inside a call some thread can take
its next step, and no thread asks for a lock that it holds. -/
theorem calls_never_deadlock {Thread : Type} [Finite Thread] [DecidableEq Thread]
    {threads : Threads StoreLock Store Thread}
    (reachable : threads.Reachable StoreCall {}) :
    (∀ thread, threads.running thread ≠ none →
      ∃ ready, threads.Ready ready ∧ ∃ after, Threads.Step StoreCall ready threads after) ∧
    ∀ thread lock, threads.wanted thread = some lock →
      ∀ mode, (mode, lock) ∉ threads.held thread := by
  have disciplined := Threads.Reachable.disciplined (fun _ => StoreCall.balanced) reachable
  constructor
  · intro thread inside
    rcases disciplined.exists_ready inside with ⟨ready, isReady⟩
    exact ⟨ready, isReady, isReady.step StoreCall⟩
  · intro thread lock wants mode
    exact disciplined.not_held wants mode

/-- Two threads, one inside `Begin` and one about to take the first shard in a collection. -/
def beginAndCollect : Threads StoreLock Store Bool :=
  (Threads.proceed { state := {} } false (some (Locked.program [] (.begin .snapshot)))).proceed
    true (some (Locked.program [] .runGarbageCollection))

theorem calls_never_deadlock_beginAndCollect :
    (∃ ready, beginAndCollect.Ready ready) ∧
      beginAndCollect.wanted true = some (.shard 0) ∧
      (.exclusive, .shard 0) ∉ beginAndCollect.held true := by
  have reachable : beginAndCollect.Reachable StoreCall {} := by
    apply Relation.ReflTransGen.tail
    · exact .single ⟨false, .call _ rfl (.call [] (.begin .snapshot))⟩
    · exact ⟨true, .call _ rfl (.call [] .runGarbageCollection)⟩
  have safe := calls_never_deadlock reachable
  rcases safe.1 true (by simp [beginAndCollect, Threads.proceed]) with ⟨ready, isReady, -⟩
  exact ⟨⟨ready, isReady⟩, rfl, safe.2 true (.shard 0) rfl .exclusive⟩

end DbEngine.Mvcc
