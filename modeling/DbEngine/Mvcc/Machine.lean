import DbEngine.Mvcc.Version

/-!
# The interleaved store

`MVCCStore` as a machine whose steps are the atomic pieces of its calls: drawing a
counter, one critical section under a chain's mutex, one lock acquisition or release.
Between two steps of one transaction any number of steps of others may run.  One
thread drives a given transaction, so the position inside a call is kept per
transaction.

A step yields an event; the events of a run accumulate in a `History`, which is what
an observer of the whole run knows and what the isolation levels are stated about.
-/

namespace DbEngine.Mvcc

open Function

/-- `MVCCStore::WriteRecord`: the key names the chain, the node is the iterator. -/
structure WriteRecord where
  key : KeyType
  node : Nat
  deriving Repr, DecidableEq

/-- `MVCCStore::Transaction`. -/
structure Transaction where
  isolation : IsolationLevel
  startTs : Int
  writeRecords : List WriteRecord := []
  writeSet : Finset KeyType := ∅
  readSet : Finset KeyType := ∅

/-- The sorted, duplicate-free keys `Commit` validates. -/
def Transaction.checkKeys (txn : Transaction) : List KeyType :=
  match txn.isolation with
  | .serializableSnapshot => (txn.writeSet ∪ txn.readSet).sort
  | _ => txn.writeSet.sort

/-- The bookkeeping of a first write to a key. -/
def Transaction.addWrite (txn : Transaction) (key : KeyType) (node : Nat) : Transaction :=
  { txn with
    writeRecords := txn.writeRecords ++ [⟨key, node⟩]
    writeSet := insert key txn.writeSet }

/-- `MVCCStore::VersionChain`.  The mutex is recorded only where it stays locked
from one step to the next, which only `Commit` does. -/
structure VersionChain where
  mutex : Option TxnId := none
  versions : List Version := []

/-- Where the thread driving a transaction stands. -/
inductive Phase where
  | unborn
  /-- `Begin` has drawn the id. -/
  | drawnId (level : IsolationLevel)
  /-- `Begin` has drawn `start_ts` and not yet registered the transaction. -/
  | drawnTs (level : IsolationLevel) (startTs : Int)
  /-- Registered, no call in progress. -/
  | idle
  /-- `Commit` is collecting the chains of its keys. -/
  | lookingUp (todo found : List KeyType)
  /-- `Commit` is locking the chains it found, in key order. -/
  | locking (todo held : List KeyType)
  /-- `Commit` saw no conflict and holds every lock. -/
  | validated (held : List KeyType)
  /-- `Commit` has drawn `commit_ts` and is marking its versions. -/
  | marking (commitTs : Int) (todo : List WriteRecord) (held : List KeyType)
  /-- `locks.clear()`, after marking or after a conflict. -/
  | releasing (held : List KeyType) (success : Bool)
  /-- `AbortInternal`, from `Abort` or from a conflicting `Commit`. -/
  | erasing (todo : List WriteRecord)
  /-- About to drop the transaction from its shard. -/
  | closing
  | finished

/-- The chains whose mutex a phase holds. -/
def Phase.held : Phase → List KeyType
  | .locking _ held | .validated held | .marking _ _ held | .releasing held _ => held
  | _ => []

/-- `kTxnShardCount`. -/
def txnShardCount : Nat := 16

/-- Where a thread running `RunGarbageCollection` stands.  The pass sorts the
collected timestamps, which the range tests below cannot see. -/
inductive Collection where
  | none
  | collecting (shard : Nat) (activeStarts : List Int)
  | sweeping (activeStarts : List Int)

/-- The store and every thread working on it. -/
structure Machine where
  globalTs : Int := 0
  nextTxnId : TxnId := 0
  nextNode : Nat := 0
  table : KeyType → Option VersionChain := fun _ => none
  txns : TxnId → Option Transaction := fun _ => none
  thread : TxnId → Phase := fun _ => .unborn
  collector : Nat → Collection := fun _ => .none

/-- The transactions registered in one shard, in id order. -/
def Machine.shardTxns (machine : Machine) (shard : Nat) : List Transaction :=
  ((range machine.nextTxnId).filter fun txnId =>
    decide (txnId % txnShardCount = shard)).filterMap machine.txns

inductive Action where
  | drawTxnId (level : IsolationLevel)
  | drawStartTs (txnId : TxnId)
  | register (txnId : TxnId)
  | read (txnId : TxnId) (key : KeyType)
  | write (txnId : TxnId) (key : KeyType) (deleted : Bool) (value : Bytes)
  | beginCommit (txnId : TxnId)
  | lookupChain (txnId : TxnId)
  | lockChain (txnId : TxnId)
  | validate (txnId : TxnId)
  | drawCommitTs (txnId : TxnId)
  | markVersion (txnId : TxnId)
  | unlockChain (txnId : TxnId)
  | abort (txnId : TxnId)
  | eraseVersion (txnId : TxnId)
  | close (txnId : TxnId)
  | gcBegin (pass : Nat)
  | gcCollect (pass : Nat)
  | gcSweep (pass : Nat) (key : KeyType)
  | gcEnd (pass : Nat)
  deriving Repr, DecidableEq

/-- The steps of garbage-collection passes. -/
def Action.isGc : Action → Bool
  | .gcBegin _ | .gcCollect _ | .gcSweep _ _ | .gcEnd _ => true
  | _ => false

/-- What a step lets an observer see. -/
inductive Event where
  | started (txnId : TxnId) (level : IsolationLevel) (startTs : Int)
  | read (txnId : TxnId) (key : KeyType) (result : Option Bytes)
  | wrote (txnId : TxnId) (key : KeyType) (deleted : Bool) (value : Bytes)
      (seq : Int)
  | committed (txnId : TxnId) (commitTs : Int)
  | installed (txnId : TxnId) (key : KeyType)
  | rolledBack (txnId : TxnId) (key : KeyType)
  | silent
  deriving Repr, DecidableEq

namespace Machine

/-- Replace one chain. -/
def setChain (machine : Machine) (key : KeyType) (chain : VersionChain) : Machine :=
  { machine with table := update machine.table key (some chain) }

/-- Move one transaction's thread to another phase. -/
def setThread (machine : Machine) (txnId : TxnId) (phase : Phase) : Machine :=
  { machine with thread := update machine.thread txnId phase }

/-- Replace one entry of the transaction shards. -/
def setTxn (machine : Machine) (txnId : TxnId) (txn : Option Transaction) : Machine :=
  { machine with txns := update machine.txns txnId txn }

/-- `global_ts_.fetch_add(1)`. -/
def tick (machine : Machine) : Machine :=
  { machine with globalTs := machine.globalTs + 1 }

section

variable (machine : Machine) (key : KeyType) (chain : VersionChain)
variable (txnId : TxnId) (phase : Phase) (txn : Option Transaction)

@[simp] lemma setChain_table : (machine.setChain key chain).table =
      update machine.table key (some chain) := rfl
@[simp] lemma setChain_txns : (machine.setChain key chain).txns = machine.txns := rfl
@[simp] lemma setChain_thread : (machine.setChain key chain).thread = machine.thread := rfl

@[simp] lemma setThread_txns : (machine.setThread txnId phase).txns = machine.txns := rfl
@[simp] lemma setThread_thread : (machine.setThread txnId phase).thread =
      update machine.thread txnId phase := rfl
@[simp] lemma setThread_nextTxnId :
    (machine.setThread txnId phase).nextTxnId = machine.nextTxnId := rfl

@[simp] lemma setTxn_table : (machine.setTxn txnId txn).table = machine.table := rfl
@[simp] lemma setTxn_txns : (machine.setTxn txnId txn).txns = update machine.txns txnId txn := rfl
@[simp] lemma setTxn_thread : (machine.setTxn txnId txn).thread = machine.thread := rfl

@[simp] lemma tick_table : machine.tick.table = machine.table := rfl
@[simp] lemma tick_txns : machine.tick.txns = machine.txns := rfl
@[simp] lemma tick_thread : machine.tick.thread = machine.thread := rfl

end

/-- `Read` after `GetTransaction`.  A chain locked by a committing transaction
blocks the reader. -/
def stepRead (machine : Machine) (txnId : TxnId) (key : KeyType)
    (txn : Transaction) : Option (Event × Machine) :=
  let noted := machine.setTxn txnId (some { txn with readSet := insert key txn.readSet })
  match machine.table key with
  | none => some (.read txnId key none, noted)
  | some chain =>
    if chain.mutex = none then
      some (.read txnId key
        (readChain chain.versions txnId txn.isolation txn.startTs), noted)
    else
      none

/-- `WriteInternal`, creating the chain if need be. -/
def stepWrite (machine : Machine) (txnId : TxnId) (key : KeyType) (deleted : Bool)
    (value : Bytes) (txn : Transaction) : Option (Event × Machine) :=
  let chain := (machine.table key).getD {}
  if chain.mutex = none then
    let seq := machine.globalTs
    let event := Event.wrote txnId key deleted (if deleted then [] else value) seq
    match overwritePending txnId deleted value seq chain.versions with
    | some versions => some (event, machine.tick.setChain key { chain with versions })
    | none =>
      let version := newVersion machine.nextNode txnId deleted value seq
      let grown := { machine.tick with nextNode := machine.nextNode + 1 }
      some (event,
        (grown.setChain key { chain with versions := chain.versions ++ [version] }).setTxn
          txnId (some (txn.addWrite key machine.nextNode)))
  else
    none

/-- One atomic step, or `none` where the thread is elsewhere or has to wait. -/
def step (machine : Machine) : Action → Option (Event × Machine)
  | .drawTxnId level =>
    some (.silent, { machine with nextTxnId := machine.nextTxnId + 1 }.setThread
      machine.nextTxnId (.drawnId level))
  | .drawStartTs txnId =>
    match machine.thread txnId with
    | .drawnId level =>
      some (.started txnId level machine.globalTs,
        machine.tick.setThread txnId (.drawnTs level machine.globalTs))
    | _ => none
  | .register txnId =>
    match machine.thread txnId with
    | .drawnTs level startTs =>
      some (.silent, (machine.setTxn txnId
        (some { isolation := level, startTs })).setThread txnId .idle)
    | _ => none
  | .read txnId key =>
    match machine.thread txnId, machine.txns txnId with
    | .idle, some txn => machine.stepRead txnId key txn
    | _, _ => none
  | .write txnId key deleted value =>
    match machine.thread txnId, machine.txns txnId with
    | .idle, some txn => machine.stepWrite txnId key deleted value txn
    | _, _ => none
  | .beginCommit txnId =>
    match machine.thread txnId, machine.txns txnId with
    | .idle, some txn =>
      some (.silent, machine.setThread txnId (.lookingUp txn.checkKeys []))
    | _, _ => none
  | .lookupChain txnId =>
    match machine.thread txnId with
    | .lookingUp (key :: todo) found =>
      some (.silent, machine.setThread txnId
        (.lookingUp todo
          (if (machine.table key).isSome then found ++ [key] else found)))
    | .lookingUp [] found =>
      some (.silent, machine.setThread txnId (.locking found []))
    | _ => none
  | .lockChain txnId =>
    match machine.thread txnId with
    | .locking (key :: todo) held =>
      match machine.table key with
      | some chain =>
        if chain.mutex = none then
          some (.silent, (machine.setChain key
            { chain with mutex := some txnId }).setThread txnId
              (.locking todo (held ++ [key])))
        else
          none
      | none => none
    | _ => none
  | .validate txnId =>
    match machine.thread txnId, machine.txns txnId with
    | .locking [] held, some txn =>
      let conflict := held.any fun key =>
        chainConflicts ((machine.table key).getD {}).versions txnId txn.startTs
      some (.silent, machine.setThread txnId
        (if conflict then .releasing held false else .validated held))
    | _, _ => none
  | .drawCommitTs txnId =>
    match machine.thread txnId, machine.txns txnId with
    | .validated held, some txn =>
      some (.committed txnId machine.globalTs,
        machine.tick.setThread txnId
          (.marking machine.globalTs txn.writeRecords held))
    | _, _ => none
  | .markVersion txnId =>
    match machine.thread txnId with
    | .marking commitTs (record :: todo) held =>
      match machine.table record.key with
      | some chain =>
        some (.installed txnId record.key,
          (machine.setChain record.key { chain with
            versions := markCommitted record.node commitTs chain.versions }).setThread
              txnId (.marking commitTs todo held))
      | none => none
    | .marking _ [] held => some (.silent, machine.setThread txnId (.releasing held true))
    | _ => none
  | .unlockChain txnId =>
    match machine.thread txnId, machine.txns txnId with
    | .releasing (key :: held) success, some _ =>
      match machine.table key with
      | some chain =>
        some (.silent, (machine.setChain key { chain with mutex := none }).setThread
          txnId (.releasing held success))
      | none => none
    | .releasing [] success, some txn =>
      some (.silent, machine.setThread txnId
        (if success then .closing else .erasing txn.writeRecords))
    | _, _ => none
  | .abort txnId =>
    match machine.thread txnId, machine.txns txnId with
    | .idle, some txn =>
      some (.silent, (machine.setTxn txnId none).setThread txnId
        (.erasing txn.writeRecords))
    | _, _ => none
  | .eraseVersion txnId =>
    match machine.thread txnId with
    | .erasing (record :: todo) =>
      match machine.table record.key with
      | some chain =>
        if chain.mutex = none then
          some (.rolledBack txnId record.key,
            (machine.setChain record.key { chain with
              versions := eraseNode record.node chain.versions }).setThread
                txnId (.erasing todo))
        else
          none
      | none => none
    | .erasing [] => some (.silent, machine.setThread txnId .closing)
    | _ => none
  | .close txnId =>
    match machine.thread txnId with
    | .closing => some (.silent, (machine.setTxn txnId none).setThread txnId .finished)
    | _ => none
  | .gcBegin pass =>
    match machine.collector pass with
    | .none => some (.silent, { machine with
        collector := update machine.collector pass (.collecting 0 []) })
    | _ => none
  | .gcCollect pass =>
    match machine.collector pass with
    | .collecting shard starts =>
      let starts := starts ++ (machine.shardTxns shard).map (·.startTs)
      some (.silent, { machine with
        collector := update machine.collector pass
          (if shard + 1 < txnShardCount then .collecting (shard + 1) starts
           else .sweeping starts) })
    | _ => none
  | .gcSweep pass key =>
    match machine.collector pass, machine.table key with
    | .sweeping starts, some chain =>
      if chain.mutex = none then
        some (.silent, machine.setChain key { chain with
          versions := sweepChain starts chain.versions })
      else
        none
    | _, _ => none
  | .gcEnd pass =>
    match machine.collector pass with
    | .sweeping _ => some (.silent, { machine with
        collector := update machine.collector pass .none })
    | _ => none

end Machine

/-! ## What an observer knows -/

/-- The latest write of a transaction to a key. -/
structure WriteEntry where
  deleted : Bool
  value : Bytes
  seq : Int
  deriving Repr, DecidableEq

/-- What a reader of the entry gets. -/
def WriteEntry.result (entry : WriteEntry) : Option Bytes :=
  if entry.deleted then none else some entry.value

/-- The observable past of a run: when each transaction started and committed, its
latest write to each key, and which of its writes were installed or rolled back. -/
structure History where
  started : TxnId → Option (IsolationLevel × Int) := fun _ => none
  written : TxnId → KeyType → Option WriteEntry := fun _ _ => none
  committed : TxnId → Option Int := fun _ => none
  installed : TxnId → KeyType → Bool := fun _ _ => false
  rolledBack : TxnId → KeyType → Bool := fun _ _ => false

namespace History

/-- Replace the entry of one transaction and key in a two-place table. -/
def set {α : Type} (entries : TxnId → KeyType → α) (txnId : TxnId) (key : KeyType)
    (entry : α) : TxnId → KeyType → α :=
  update entries txnId (update (entries txnId) key entry)

variable {α : Type}

@[simp] lemma set_self (entries : TxnId → KeyType → α) (txnId : TxnId) (key : KeyType)
    (entry : α) : set entries txnId key entry txnId key = entry := by
  simp [set]

@[simp] lemma set_of_txn_ne (entries : TxnId → KeyType → α) (key : KeyType) (entry : α)
    (ne : other ≠ txnId) : set entries txnId key entry other = entries other := by
  simp [set, ne]

@[simp] lemma set_of_key_ne (entries : TxnId → KeyType → α) (txnId other : TxnId) (entry : α)
    (ne : query ≠ key) : set entries txnId key entry other query = entries other query := by
  by_cases same : other = txnId
  · subst same
    simp [set, ne]
  · simp [set, same]

/-- Extend the past by one event. -/
def record (history : History) : Event → History
  | .started txnId level startTs => { history with
      started := update history.started txnId (some (level, startTs)) }
  | .wrote txnId key deleted value seq => { history with
      written := set history.written txnId key (some ⟨deleted, value, seq⟩) }
  | .committed txnId commitTs => { history with
      committed := update history.committed txnId (some commitTs) }
  | .installed txnId key => { history with
      installed := set history.installed txnId key true }
  | .rolledBack txnId key => { history with
      rolledBack := set history.rolledBack txnId key true }
  | .read _ _ _ | .silent => history

end History

/-- One step of the store, observed. -/
def Step (allowed : Action → Prop) (before after : Machine × History) : Prop :=
  ∃ action event, allowed action ∧
    before.1.step action = some (event, after.1) ∧
    after.2 = before.2.record event

/-- States some interleaving of allowed steps leads to. -/
def Reachable (allowed : Action → Prop) (state : Machine × History) : Prop :=
  Relation.ReflTransGen (Step allowed) ({}, {}) state

variable {allowed : Action → Prop}

/-- What every step keeps holds after every run. -/
lemma invariant_of_run (property : Machine → History → Prop)
    (run : Relation.ReflTransGen (Step allowed) start state) (init : property start.1 start.2)
    (step : ∀ {machine history action event machine'},
      Relation.ReflTransGen (Step allowed) start (machine, history) →
      property machine history → allowed action → machine.step action = some (event, machine') →
      property machine' (history.record event)) : property state.1 state.2 := by
  induction run with
  | refl => exact init
  | tail reached taken ih =>
    obtain ⟨action, event, permitted, stepped, recorded⟩ := taken
    rw [recorded]
    exact step reached ih permitted stepped

/-- Run a schedule, if each of its steps can be taken where it stands. -/
def runSchedule : List Action → Machine × History → Option (Machine × History)
  | [], state => some state
  | action :: rest, (machine, history) =>
    match machine.step action with
    | some (event, machine') => runSchedule rest (machine', history.record event)
    | none => none

lemma reachable_of_runSchedule (permitted : ∀ action ∈ schedule, allowed action)
    (ran : runSchedule schedule before = some after) (reachable : Reachable allowed before) :
    Reachable allowed after := by
  induction schedule generalizing before with
  | nil =>
    cases ran
    exact reachable
  | cons action rest ih =>
    simp only [runSchedule] at ran
    split at ran
    next event machine' stepped =>
      have taken : Step allowed before (machine', before.2.record event) :=
        ⟨action, event, permitted action (by simp), stepped, rfl⟩
      exact ih (fun other mem => permitted other (by simp [mem])) ran (reachable.tail taken)
    · cases ran

end DbEngine.Mvcc
