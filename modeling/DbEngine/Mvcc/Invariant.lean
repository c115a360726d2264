import DbEngine.Mvcc.Machine

/-!
# The invariant of the interleaved store

Everything the isolation results need about a reachable state: what each thread's
position says about its transaction, that a held lock is really locked, that each
chain agrees with the history, and how the timestamps of one transaction are ordered.

A step belongs to one transaction.  `Undisturbed` says what it leaves to the others,
and `ThreadInv.of_undisturbed` turns that into preservation of their part of the
invariant, so that every case below only has to look at the acting transaction and
at the one chain it touches.
-/

namespace DbEngine.Mvcc

/-- The keys of a list of write records, in order. -/
def recordKeys (records : List WriteRecord) : List KeyType :=
  records.map WriteRecord.key

/-- Every record's iterator designates a pending version of the transaction. -/
def Designates (machine : Machine) (txnId : TxnId)
    (records : List WriteRecord) : Prop :=
  ∀ record ∈ records, ∃ chain, machine.table record.key = some chain ∧
    ∃ version ∈ chain.versions, version.node = record.node ∧
      version.txnId = txnId ∧ version.committed = false

/-- Nothing of the transaction's has been installed or rolled back. -/
structure Unsettled (history : History) (txnId : TxnId) : Prop where
  notCommitted : history.committed txnId = none
  notInstalled : ∀ key, history.installed txnId key = false
  notRolledBack : ∀ key, history.rolledBack txnId key = false

/-- A transaction whose writes are all pending. -/
structure ActiveTxn (machine : Machine) (history : History) (txnId : TxnId)
    (txn : Transaction) : Prop where
  registered : machine.txns txnId = some txn
  started : history.started txnId = some (txn.isolation, txn.startTs)
  unsettled : Unsettled history txnId
  keysNodup : (recordKeys txn.writeRecords).Nodup
  mem_keys : ∀ key, key ∈ recordKeys txn.writeRecords ↔
    (history.written txnId key).isSome
  writeSet : ∀ key, key ∈ txn.writeSet ↔ (history.written txnId key).isSome
  designates : Designates machine txnId txn.writeRecords

/-- A transaction past its commit point whose records `todo` are still to be marked. -/
structure MarkingTxn (machine : Machine) (history : History) (txnId : TxnId)
    (commitTs : Int) (todo : List WriteRecord) (held : List KeyType) : Prop where
  registered : (machine.txns txnId).isSome
  committed : history.committed txnId = some commitTs
  notRolledBack : ∀ key, history.rolledBack txnId key = false
  keysNodup : (recordKeys todo).Nodup
  installed : ∀ key, (history.written txnId key).isSome →
    history.installed txnId key = true ∨ key ∈ recordKeys todo
  remaining : ∀ key ∈ recordKeys todo, history.installed txnId key = false ∧ key ∈ held
  designates : Designates machine txnId todo

/-- A transaction being undone whose records `todo` are still to be erased. -/
structure ErasingTxn (machine : Machine) (history : History) (txnId : TxnId)
    (todo : List WriteRecord) : Prop where
  notCommitted : history.committed txnId = none
  notInstalled : ∀ key, history.installed txnId key = false
  keysNodup : (recordKeys todo).Nodup
  erased : ∀ key, (history.written txnId key).isSome →
    history.rolledBack txnId key = true ∨ key ∈ recordKeys todo
  remaining : ∀ key ∈ recordKeys todo, history.rolledBack txnId key = false
  designates : Designates machine txnId todo

/-- A transaction whose outcome is complete: every write installed, or every write
rolled back. -/
def Settled (history : History) (txnId : TxnId) : Prop :=
  ((history.committed txnId).isSome ∧ ∀ key, (history.written txnId key).isSome →
    history.installed txnId key = true) ∨
  (history.committed txnId = none ∧ (∀ key, history.installed txnId key = false) ∧
    ∀ key, (history.written txnId key).isSome → history.rolledBack txnId key = true)

/-- What a thread's position says about its transaction. -/
def PhaseInv (machine : Machine) (history : History) (txnId : TxnId) : Phase → Prop
  | .unborn | .drawnId _ =>
    history.started txnId = none ∧ Unsettled history txnId ∧
      ∀ key, history.written txnId key = none
  | .drawnTs level startTs =>
    history.started txnId = some (level, startTs) ∧ Unsettled history txnId ∧
      ∀ key, history.written txnId key = none
  | .idle => ∃ txn, ActiveTxn machine history txnId txn
  | .lookingUp todo found => ∃ txn, ActiveTxn machine history txnId txn ∧
      ∀ key ∈ txn.writeSet, key ∈ todo ∨ key ∈ found
  | .locking todo held => ∃ txn, ActiveTxn machine history txnId txn ∧
      ∀ key ∈ txn.writeSet, key ∈ todo ∨ key ∈ held
  | .validated held => ∃ txn, ActiveTxn machine history txnId txn ∧
      ∀ key ∈ txn.writeSet, key ∈ held ∧
        ∀ chain, machine.table key = some chain → ∀ version ∈ chain.versions,
          version.committed = true → version.commitTs ≤ txn.startTs
  | .marking commitTs todo held => MarkingTxn machine history txnId commitTs todo held
  | .releasing _ true => (machine.txns txnId).isSome ∧ Settled history txnId
  | .releasing _ false => ∃ txn, ActiveTxn machine history txnId txn
  | .erasing todo => ErasingTxn machine history txnId todo
  | .closing | .finished => Settled history txnId

/-- One thread's part of the invariant: its position, and the locks it holds. -/
structure ThreadInv (machine : Machine) (history : History) (txnId : TxnId)
    (phase : Phase) : Prop where
  heldNodup : phase.held.Nodup
  locked : ∀ key ∈ phase.held, ∃ chain, machine.table key = some chain ∧
    chain.mutex = some txnId
  position : PhaseInv machine history txnId phase

/-- A chain says what the history says: one version per transaction, holding its
latest write, committed exactly when installed. -/
structure ChainInv (machine : Machine) (history : History) (key : KeyType)
    (chain : VersionChain) : Prop where
  nodesNodup : (chain.versions.map Version.node).Nodup
  nodesFresh : ∀ version ∈ chain.versions, version.node < machine.nextNode
  txnsNodup : (chain.versions.map Version.txnId).Nodup
  written : ∀ version ∈ chain.versions, history.written version.txnId key =
    some ⟨version.deleted, version.value, version.seq⟩
  notRolledBack : ∀ version ∈ chain.versions,
    history.rolledBack version.txnId key = false
  installed : ∀ version ∈ chain.versions,
    version.committed = history.installed version.txnId key
  commitTs : ∀ version ∈ chain.versions, version.committed = true →
    history.committed version.txnId = some version.commitTs

/-- How the timestamps of a run are ordered. -/
structure ClockInv (history : History) (now : Int) : Prop where
  started : ∀ {txnId level startTs}, history.started txnId = some (level, startTs) →
    startTs < now
  written : ∀ {txnId key entry}, history.written txnId key = some entry →
    entry.seq < now ∧ ∃ level startTs,
      history.started txnId = some (level, startTs) ∧ startTs < entry.seq
  committed : ∀ {txnId commitTs}, history.committed txnId = some commitTs →
    commitTs < now ∧
    (∃ level startTs, history.started txnId = some (level, startTs) ∧
      startTs < commitTs) ∧
    ∀ key entry, history.written txnId key = some entry → entry.seq < commitTs
  commit_ne_start : ∀ {txnId other commitTs level startTs},
    history.committed txnId = some commitTs →
    history.started other = some (level, startTs) → commitTs ≠ startTs
  commit_injective : ∀ {left right commitTs}, history.committed left = some commitTs →
    history.committed right = some commitTs → left = right
  seq_injective : ∀ {left right key entry entry'},
    history.written left key = some entry → history.written right key = some entry' →
    entry.seq = entry'.seq → left = right

/-- First committer wins, as a fact about the past: of two committed writers of one
key, one started after the other had committed. -/
def FirstCommitterWins (history : History) : Prop :=
  ∀ {left right key leftCommit rightCommit leftStart rightStart},
    left ≠ right →
    (history.written left key).isSome → (history.written right key).isSome →
    history.committed left = some leftCommit → history.committed right = some rightCommit →
    (history.started left).map Prod.snd = some leftStart →
    (history.started right).map Prod.snd = some rightStart →
    leftCommit < rightStart ∨ rightCommit < leftStart

/-- The invariant of every reachable state, garbage collection included. -/
structure Inv (machine : Machine) (history : History) : Prop where
  unborn : ∀ txnId, machine.nextTxnId ≤ txnId → machine.thread txnId = .unborn
  threads : ∀ txnId, ThreadInv machine history txnId (machine.thread txnId)
  chains : ∀ key chain, machine.table key = some chain →
    ChainInv machine history key chain
  -- A sweep may take an installed version, but only in favour of a newer one.
  survives : ∀ txnId key commitTs, history.installed txnId key = true →
    history.committed txnId = some commitTs →
    ∃ chain, machine.table key = some chain ∧ ∃ version ∈ chain.versions,
      version.committed = true ∧ commitTs ≤ version.commitTs
  clock : ClockInv history machine.globalTs
  firstCommitter : FirstCommitterWins history

/-! ## What a step leaves to the other transactions -/

/-- A transition that neither moves a transaction's thread nor touches its
bookkeeping, its pending versions, or any chain it has locked. -/
structure Undisturbed (txnId : TxnId) (machine : Machine) (history : History)
    (machine' : Machine) (history' : History) : Prop where
  txns : machine'.txns txnId = machine.txns txnId
  started : history'.started txnId = history.started txnId
  written : history'.written txnId = history.written txnId
  committed : history'.committed txnId = history.committed txnId
  installed : history'.installed txnId = history.installed txnId
  rolledBack : history'.rolledBack txnId = history.rolledBack txnId
  chains : ∀ key chain, machine.table key = some chain →
    ∃ chain', machine'.table key = some chain' ∧
      (chain.mutex = some txnId → chain' = chain) ∧
      ∀ version ∈ chain.versions, version.txnId = txnId →
        version.committed = false → version ∈ chain'.versions

section

variable {txnId : TxnId} {machine machine' : Machine} {history history' : History}

section

variable (undisturbed : Undisturbed txnId machine history machine' history')
include undisturbed

lemma Designates.of_undisturbed {records : List WriteRecord}
    (designates : Designates machine txnId records) : Designates machine' txnId records := by
  intro record mem
  obtain ⟨chain, found, version, present, sameNode, sameTxn, pending⟩ := designates record mem
  obtain ⟨chain', found', _, kept⟩ := undisturbed.chains _ _ found
  exact ⟨chain', found', version, kept version present sameTxn pending, sameNode, sameTxn, pending⟩

lemma Unsettled.of_undisturbed (unsettled : Unsettled history txnId) :
    Unsettled history' txnId where
  notCommitted := undisturbed.committed.trans unsettled.notCommitted
  notInstalled key := (congrFun undisturbed.installed key).trans (unsettled.notInstalled key)
  notRolledBack key :=
    (congrFun undisturbed.rolledBack key).trans (unsettled.notRolledBack key)

lemma ActiveTxn.of_undisturbed {txn : Transaction}
    (active : ActiveTxn machine history txnId txn) : ActiveTxn machine' history' txnId txn where
  registered := undisturbed.txns.trans active.registered
  started := undisturbed.started.trans active.started
  unsettled := active.unsettled.of_undisturbed undisturbed
  keysNodup := active.keysNodup
  mem_keys key := by rw [undisturbed.written]; exact active.mem_keys key
  writeSet key := by rw [undisturbed.written]; exact active.writeSet key
  designates := active.designates.of_undisturbed undisturbed

lemma Settled.of_undisturbed (settled : Settled history txnId) : Settled history' txnId := by
  unfold Settled at settled ⊢
  rw [undisturbed.committed, undisturbed.written, undisturbed.installed, undisturbed.rolledBack]
  exact settled

/-- A transaction that a step leaves alone keeps its part of the invariant. -/
lemma ThreadInv.of_undisturbed {phase : Phase} (inv : ThreadInv machine history txnId phase) :
    ThreadInv machine' history' txnId phase := by
  have locked : ∀ key ∈ phase.held, ∃ chain, machine'.table key = some chain ∧
      chain.mutex = some txnId := by
    intro key held
    obtain ⟨chain, found, mutex⟩ := inv.locked key held
    obtain ⟨chain', found', same, _⟩ := undisturbed.chains _ _ found
    exact ⟨chain', found', by rw [same mutex]; exact mutex⟩
  refine ⟨inv.heldNodup, locked, ?_⟩
  have position := inv.position
  cases phase with
  | unborn | drawnId level | drawnTs level startTs =>
    simp only [PhaseInv] at position ⊢
    rw [undisturbed.started, undisturbed.written]
    exact ⟨position.1, position.2.1.of_undisturbed undisturbed, position.2.2⟩
  | idle =>
    obtain ⟨txn, active⟩ := position
    exact ⟨txn, active.of_undisturbed undisturbed⟩
  | lookingUp todo found | locking todo held =>
    obtain ⟨txn, active, covered⟩ := position
    exact ⟨txn, active.of_undisturbed undisturbed, covered⟩
  | validated held =>
    obtain ⟨txn, active, covered⟩ := position
    refine ⟨txn, active.of_undisturbed undisturbed, ?_⟩
    intro key writes
    refine ⟨(covered key writes).1, ?_⟩
    intro chain' found' version mem isCommitted
    -- The chain is locked by this very transaction, so nobody changed it.
    obtain ⟨chain, found, mutex⟩ := inv.locked key (covered key writes).1
    obtain ⟨other, foundOther, same, _⟩ := undisturbed.chains _ _ found
    rw [same mutex, found'] at foundOther
    cases foundOther
    exact (covered key writes).2 chain' found version mem isCommitted
  | marking commitTs todo held =>
    exact {
      registered := by rw [undisturbed.txns]; exact position.registered
      committed := undisturbed.committed.trans position.committed
      notRolledBack := by rw [undisturbed.rolledBack]; exact position.notRolledBack
      keysNodup := position.keysNodup
      installed := by
        rw [undisturbed.written, undisturbed.installed]; exact position.installed
      remaining := by rw [undisturbed.installed]; exact position.remaining
      designates := position.designates.of_undisturbed undisturbed }
  | releasing held success =>
    cases success with
    | true =>
      exact ⟨by rw [undisturbed.txns]; exact position.1, position.2.of_undisturbed undisturbed⟩
    | false =>
      obtain ⟨txn, active⟩ := position
      exact ⟨txn, active.of_undisturbed undisturbed⟩
  | erasing todo =>
    exact {
      notCommitted := undisturbed.committed.trans position.notCommitted
      notInstalled := by rw [undisturbed.installed]; exact position.notInstalled
      keysNodup := position.keysNodup
      erased := by
        rw [undisturbed.written, undisturbed.rolledBack]; exact position.erased
      remaining := by rw [undisturbed.rolledBack]; exact position.remaining
      designates := position.designates.of_undisturbed undisturbed }
  | closing | finished => exact Settled.of_undisturbed undisturbed position

end

end

end DbEngine.Mvcc
