import DbEngine.Mvcc.Frame

/-!
# Beginning, reading and writing keep the invariant

One lemma per kind of step.  Those that only move a thread or replace its registered
transaction go through `Inv.setThread` and `Inv.setTxn_setThread`; the two ways a
write can go share `Inv.of_write`.
-/

namespace DbEngine.Mvcc

open Function Machine Undisturbed

variable {machine : Machine} {history : History} {txnId : TxnId}
variable {key : KeyType} {chain : VersionChain}

lemma inv_init : Inv {} {} where
  unborn _ _ := rfl
  threads txnId := by
    refine ⟨nodup_nil, by simp [Phase.held], rfl, ⟨rfl, fun _ => rfl, fun _ => rfl⟩, ?_⟩
    intro key
    rfl
  chains key chain found := by cases found
  survives txnId key commitTs installed := by cases installed
  clock := by constructor <;> simp
  firstCommitter := by
    intro left right key leftCommit rightCommit leftStart rightStart _ written
    simp at written

/-! ## Steps that only move a thread -/

variable {phase : Phase} {level : IsolationLevel} {txn : Transaction}

section

variable (inv : Inv machine history)
include inv

/-- A step that touches no chain. -/
lemma Inv.of_actor (born : txnId < machine.nextTxnId) (table : machine'.table = machine.table)
    (others : ∀ other, other ≠ txnId →
      machine'.thread other = machine.thread other ∧ machine'.txns other = machine.txns other)
    (nextTxnId : machine'.nextTxnId = machine.nextTxnId)
    (nextNode : machine'.nextNode = machine.nextNode)
    (globalTs : machine'.globalTs = machine.globalTs)
    (actor : ThreadInv machine' history txnId (machine'.thread txnId)) : Inv machine' history where
  unborn := inv.unborn_of_actor txnId born nextTxnId fun other ne => (others other ne).1
  threads := threads_of_actor txnId inv.threads (fun other ne =>
    ⟨(others other ne).1, of_table_eq (others other ne).2 table⟩) actor
  chains query found lookup :=
    (inv.chains query found (table ▸ lookup)).of_sublist nextNode.ge (List.Sublist.refl _)
  survives := table ▸ inv.survives
  clock := globalTs ▸ inv.clock
  firstCommitter := inv.firstCommitter

lemma Inv.setThread (born : txnId < machine.nextTxnId)
    (actor : ThreadInv machine history txnId phase) :
    Inv (machine.setThread txnId phase) history := by
  refine inv.of_actor born rfl (fun other ne => ⟨by simp [ne], rfl⟩) rfl rfl rfl ?_
  have same : Undisturbed txnId machine history (machine.setThread txnId phase) history :=
    of_table_eq rfl rfl
  rw [setThread_thread, update_self]
  exact actor.of_undisturbed same

/-- Dropping or replacing the registered transaction, when the thread's new position
allows it. -/
lemma Inv.setTxn_setThread {txn : Option Transaction} (born : txnId < machine.nextTxnId)
    (actor : ThreadInv (machine.setTxn txnId txn) history txnId phase) :
    Inv ((machine.setTxn txnId txn).setThread txnId phase) history := by
  refine inv.of_actor born rfl (fun other ne => ⟨by simp [ne], by simp [ne]⟩) rfl rfl rfl ?_
  have same : Undisturbed txnId (machine.setTxn txnId txn) history
      ((machine.setTxn txnId txn).setThread txnId phase) history :=
    of_table_eq rfl rfl
  rw [setThread_thread, update_self]
  exact actor.of_undisturbed same

lemma inv_drawTxnId (level : IsolationLevel) :
    Inv ({ machine with nextTxnId := machine.nextTxnId + 1 }.setThread machine.nextTxnId
      (.drawnId level)) history where
  unborn other late := by
    simp only [setThread_nextTxnId] at late
    have ne : other ≠ machine.nextTxnId := Nat.ne_of_gt late
    simp only [setThread_thread, ne_eq, ne, not_false_eq_true, update_of_ne]
    exact inv.unborn other (Nat.le_of_lt late)
  threads := by
    refine threads_of_actor machine.nextTxnId inv.threads ?_ ?_
    · intro other ne
      exact ⟨by simp [ne], of_table_eq rfl rfl⟩
    · have position := (inv.threads machine.nextTxnId).position
      rw [inv.unborn machine.nextTxnId le_rfl] at position
      simp only [setThread_thread, update_self]
      exact ⟨nodup_nil, by simp [Phase.held], position⟩
  chains query found lookup :=
    (inv.chains query found lookup).of_sublist le_rfl (List.Sublist.refl _)
  survives := inv.survives
  clock := inv.clock
  firstCommitter := inv.firstCommitter

lemma inv_drawStartTs (thread : machine.thread txnId = .drawnId level) :
    Inv (machine.tick.setThread txnId (.drawnTs level machine.globalTs))
      (history.record (.started txnId level machine.globalTs)) := by
  obtain ⟨notStarted, unsettled, notWritten⟩ := (inv.own thread).position
  have foreign : ∀ other, other ≠ txnId → ForeignTo other history
      (history.record (.started txnId level machine.globalTs)) := by
    intro other ne
    exact ForeignTo.record rfl ne
  refine {
    unborn := inv.unborn_of_actor txnId (inv.born_of thread rfl) rfl fun other ne => by simp [ne]
    threads := ?_
    chains := ?_
    survives := inv.survives
    clock := inv.clock.record_started notStarted
    firstCommitter := ?_ }
  · refine threads_of_actor txnId inv.threads ?_ ?_
    · intro other ne
      exact ⟨by simp [ne], of_foreign (foreign other ne) rfl rfl⟩
    · simp only [setThread_thread, update_self]
      refine ⟨nodup_nil, by simp [Phase.held], ?_⟩
      exact ⟨by simp [History.record], { unsettled with }, notWritten⟩
  · intro query found lookup
    exact (inv.chains query found lookup).of_agree le_rfl fun _ _ =>
      ⟨rfl, rfl, rfl, fun _ => rfl⟩
  · -- The new transaction has not written anything.
    refine firstCommitterWins_of_foreign inv.firstCommitter foreign fun query _ written _ => ?_
    simp [History.record, notWritten] at written

lemma inv_register (thread : machine.thread txnId = .drawnTs level startTs) :
    Inv ((machine.setTxn txnId (some { isolation := level, startTs })).setThread
      txnId .idle) history := by
  obtain ⟨started, unsettled, notWritten⟩ := (inv.own thread).position
  apply inv.setTxn_setThread (inv.born_of thread rfl)
  refine ⟨nodup_nil, by simp [Phase.held], { isolation := level, startTs }, ?_⟩
  exact {
    registered := by simp
    started
    unsettled
    keysNodup := nodup_nil
    mem_keys := by simp [recordKeys, notWritten]
    writeSet := by simp [notWritten]
    designates := by
      intro record mem
      cases mem }

end

lemma ActiveTxn.setTxn (active : ActiveTxn machine history txnId txn)
    (isolation : txn'.isolation = txn.isolation) (startTs : txn'.startTs = txn.startTs)
    (records : txn'.writeRecords = txn.writeRecords) (writeSet : txn'.writeSet = txn.writeSet) :
    ActiveTxn (machine.setTxn txnId (some txn')) history txnId txn' where
  registered := by simp
  started := by rw [isolation, startTs]; exact active.started
  unsettled := active.unsettled
  keysNodup := by rw [records]; exact active.keysNodup
  mem_keys := by rw [records]; exact active.mem_keys
  writeSet := by rw [writeSet]; exact active.writeSet
  designates := by rw [records]; exact active.designates

/-- What a reader of the invariant may use about an idle transaction. -/
lemma Inv.active_of_idle (inv : Inv machine history) (thread : machine.thread txnId = .idle)
    (known : machine.txns txnId = some txn) : ActiveTxn machine history txnId txn := by
  obtain ⟨found, active⟩ := (inv.own thread).position
  cases active.registered.symm.trans known
  exact active

/-- A read changes nothing but its transaction's read set. -/
lemma inv_read (inv : Inv machine history) (thread : machine.thread txnId = .idle)
    (known : machine.txns txnId = some txn) :
    Inv (machine.setTxn txnId (some { txn with readSet := insert key txn.readSet }))
      history := by
  have active := inv.active_of_idle thread known
  refine inv.of_actor (inv.born_of thread rfl) rfl (fun other ne => ⟨rfl, by simp [ne]⟩) rfl rfl
    rfl ?_
  change ThreadInv _ history txnId (machine.thread txnId)
  rw [thread]
  exact ⟨nodup_nil, by simp [Phase.held], _, active.setTxn rfl rfl rfl rfl⟩

/-! ## Writes -/

/-- An unsettled transaction's versions are all pending. -/
lemma ChainInv.pending_of_unsettled (inv : ChainInv machine history key chain)
    (unsettled : Unsettled history txnId) {version : Version}
    (mem : version ∈ chain.versions) (owner : version.txnId = txnId) :
    version.committed = false := by
  rw [inv.installed version mem, owner]
  exact unsettled.notInstalled key

/-- The chain a write goes to is empty or an existing one. -/
lemma Inv.chainInv_getD (inv : Inv machine history) (key : KeyType) :
    ChainInv machine history key ((machine.table key).getD {}) := by
  cases lookup : machine.table key with
  | none => constructor <;> simp
  | some chain => exact inv.chains key chain lookup

section

variable {txn : Transaction} {deleted : Bool} {value : Bytes}

/-- A write only changes its own transaction's entry for its own key. -/
lemma written_elsewhere (history : History) (txnId : TxnId) (key : KeyType)
    (deleted : Bool) (value : Bytes) (seq : Int) (other : TxnId) (query : KeyType)
    (ne : query ≠ key) : (history.record (.wrote txnId key deleted value seq)).written other query =
      history.written other query := by
  simp [History.record, ne]

/-- The shared half of both ways a write can go: the chain it leaves behind is
faithful, nobody else's pending version is lost, and the writer is still active. -/
lemma Inv.of_write {versions : List Version} (inv : Inv machine history)
    (active : ActiveTxn machine history txnId txn) (thread : machine.thread txnId = .idle)
    (unlocked : ((machine.table key).getD {}).mutex = none)
    (table : machine'.table = update machine.table key
      (some { (machine.table key).getD {} with versions }))
    (threads : machine'.thread = machine.thread)
    (txns : ∀ other, other ≠ txnId → machine'.txns other = machine.txns other)
    (nextTxnId : machine'.nextTxnId = machine.nextTxnId)
    (fresh : machine.nextNode ≤ machine'.nextNode) (now : machine'.globalTs = machine.globalTs + 1)
    (keeps : ∀ version ∈ ((machine.table key).getD {}).versions,
      version.txnId ≠ txnId → version ∈ versions) (writer : ∃ txn', ActiveTxn machine'
      (history.record (.wrote txnId key deleted value machine.globalTs)) txnId txn')
    (here : ChainInv machine' (history.record (.wrote txnId key deleted value machine.globalTs)) key
      { (machine.table key).getD {} with versions }) :
    Inv machine' (history.record (.wrote txnId key deleted value machine.globalTs)) := by
  have old := inv.chainInv_getD key
  refine {
    unborn := inv.unborn_of_actor txnId (inv.born_of thread rfl) nextTxnId
      fun other _ => by rw [threads]
    threads := ?_
    chains := inv.chains_of_update table fresh
      (fun other query ne => ⟨written_elsewhere history txnId key deleted value
        machine.globalTs other query ne, rfl, rfl⟩) rfl here
    survives := ?_
    clock := by
      rw [now]
      exact inv.clock.record_wrote active.started active.unsettled.notCommitted
    firstCommitter := by
      refine firstCommitterWins_of_foreign inv.firstCommitter
        (fun other ne => ForeignTo.record rfl ne) fun _ _ _ committed => ?_
      cases active.unsettled.notCommitted.symm.trans committed }
  · refine threads_of_actor txnId inv.threads ?_ ?_
    · intro other ne
      refine ⟨by rw [threads], of_update ?_ (txns other ne) table ?_⟩
      · exact ForeignTo.record rfl ne
      · intro chain lookup
        rw [lookup, getD_some] at unlocked keeps
        refine ⟨by simp [unlocked], ?_⟩
        intro version mem owner _
        exact keeps version mem (by rw [owner]; exact ne)
    · rw [threads, thread]
      exact ⟨nodup_nil, by simp [Phase.held], writer⟩
  · refine inv.survives_of_update table (fun _ _ _ => rfl) rfl ?_
    intro other commitTs installed committed
    obtain ⟨chain, lookup, version, mem, isCommitted, newer⟩ :=
      inv.survives other key commitTs installed committed
    rw [lookup, getD_some] at keeps old
    refine ⟨version, keeps version mem ?_, isCommitted, newer⟩
    intro owner
    rw [old.pending_of_unsettled active.unsettled mem owner] at isCommitted
    cases isCommitted

lemma inv_write_overwrite (inv : Inv machine history) {versions : List Version}
    (thread : machine.thread txnId = .idle) (known : machine.txns txnId = some txn)
    (unlocked : ((machine.table key).getD {}).mutex = none)
    (overwritten : overwritePending txnId deleted value machine.globalTs
      ((machine.table key).getD {}).versions = some versions) :
    Inv (machine.tick.setChain key { (machine.table key).getD {} with versions })
      (history.record (.wrote txnId key deleted (if deleted then [] else value)
        machine.globalTs)) := by
  have active := inv.active_of_idle thread known
  have old := inv.chainInv_getD key
  obtain ⟨sameNodes, sameTxns, previous, present, pending, members⟩ :=
    mem_of_overwritePending old.txnsNodup overwritten
  obtain ⟨owner, notCommitted⟩ := Version.pendingOf_iff.mp pending
  have alreadyWritten : (history.written txnId key).isSome := by
    rw [← owner, old.written previous present]
    rfl
  have recorded (query : KeyType) : (history.written txnId query).isSome ↔
      ((history.record (.wrote txnId key deleted (if deleted then [] else value)
        machine.globalTs)).written txnId query).isSome := by
    by_cases same : query = key
    · subst same
      simp [History.record, alreadyWritten]
    · simp [History.record, same]
  have keeps : ∀ version ∈ ((machine.table key).getD {}).versions,
      version.txnId ≠ txnId → version ∈ versions := by
    intro version mem ne
    exact (members version).mpr (.inl ⟨mem, ne⟩)
  refine inv.of_write active thread unlocked rfl rfl (fun _ _ => rfl) rfl le_rfl rfl
    keeps ⟨txn, ?_⟩ ?_
  · exact {
      registered := known
      started := active.started
      unsettled := { active.unsettled with }
      keysNodup := active.keysNodup
      mem_keys := fun query => (active.mem_keys query).trans (recorded query)
      writeSet := fun query => (active.writeSet query).trans (recorded query)
      designates := by
        intro record mem
        obtain ⟨chain, lookup, version, versionMem, sameNode, versionOwner, versionPending⟩ :=
          active.designates record mem
        by_cases same : record.key = key
        · rw [same] at lookup
          rw [lookup, getD_some] at members present old
          refine ⟨{ chain with versions }, by simp [same, lookup], ?_⟩
          -- The record's version is the one that was overwritten, in place.
          have equal : version = previous :=
            old.eq_of_txnId_eq versionMem present (versionOwner.trans owner.symm)
          subst equal
          exact ⟨_, (members _).mpr (.inr rfl), sameNode, owner, notCommitted⟩
        · exact ⟨chain, by simp [same, lookup], version, versionMem, sameNode,
            versionOwner, versionPending⟩ }
  · refine .of_versions ?_ ?_ fun version mem => ?_
    · simp only [sameNodes]
      exact old.nodesNodup
    · simp only [sameTxns]
      exact old.txnsNodup
    · rcases (members version).mp mem with ⟨oldMem, ne⟩ | equal
      · exact (old.version oldMem).of_foreign le_rfl (ForeignTo.record rfl ne)
      · have kept := old.version present
        subst equal
        exact ⟨kept.fresh, by simp [History.record, owner], kept.notRolledBack, kept.installed,
          kept.commitTs⟩

lemma inv_write_push (inv : Inv machine history)
    (thread : machine.thread txnId = .idle) (registered : machine.txns txnId = some txn)
    (unlocked : ((machine.table key).getD {}).mutex = none)
    (nonePending : overwritePending txnId deleted value machine.globalTs
      ((machine.table key).getD {}).versions = none) :
    Inv (({ machine.tick with nextNode := machine.nextNode + 1 }.setChain key
        { (machine.table key).getD {} with
          versions := ((machine.table key).getD {}).versions ++
            [newVersion machine.nextNode txnId deleted value machine.globalTs] }).setTxn
        txnId (some (txn.addWrite key machine.nextNode)))
      (history.record (.wrote txnId key deleted (if deleted then [] else value)
        machine.globalTs)) := by
  have active := inv.active_of_idle thread registered
  have old := inv.chainInv_getD key
  -- The writer has no version on this chain at all: none pending, and none committed.
  have noOwn : ∀ version ∈ ((machine.table key).getD {}).versions,
      version.txnId ≠ txnId := by
    intro version mem owner
    have pending := old.pending_of_unsettled active.unsettled mem owner
    have notPending := overwritePending_eq_none.mp nonePending version mem
    rw [Version.pendingOf_iff.mpr ⟨owner, pending⟩] at notPending
    cases notPending
  have newKey : key ∉ recordKeys txn.writeRecords := by
    intro mem
    obtain ⟨record, recordMem, sameKey⟩ := mem_map.mp mem
    obtain ⟨chain, lookup, version, versionMem, _, owner, _⟩ := active.designates record recordMem
    rw [sameKey] at lookup
    rw [lookup, getD_some] at noOwn
    exact noOwn version versionMem owner
  refine inv.of_write active thread unlocked rfl rfl (fun other ne => by
      simp [ne]) rfl (Nat.le_succ _) rfl (fun version mem _ => by
      simp [mem]) ⟨txn.addWrite key machine.nextNode, ?_⟩ ?_
  · exact {
      registered := by simp
      started := active.started
      unsettled := { active.unsettled with }
      keysNodup := by
        rw [Transaction.addWrite, recordKeys, ← concat_eq_append, map_concat]
        exact List.Nodup.concat newKey active.keysNodup
      mem_keys := by
        intro query
        simp only [Transaction.addWrite, recordKeys, map_append, map_cons,
          map_nil, mem_append, mem_singleton]
        by_cases same : query = key
        · subst same
          simp [History.record]
        · simp only [same, or_false]
          rw [written_elsewhere history txnId key _ _ _ txnId query same]
          exact active.mem_keys query
      writeSet := by
        intro query
        by_cases same : query = key
        · subst same
          simp [History.record, Transaction.addWrite]
        · simp only [Transaction.addWrite, Finset.mem_insert, same, false_or]
          rw [written_elsewhere history txnId key _ _ _ txnId query same]
          exact active.writeSet query
      designates := by
        intro record mem
        rcases mem_append.mp mem with existing | added
        · obtain ⟨chain, lookup, version, versionMem, sameNode, owner, pending⟩ :=
            active.designates record existing
          by_cases same : record.key = key
          · rw [same] at lookup
            exact ⟨_, by simp [same]; rfl, version, by simp [lookup, versionMem],
              sameNode, owner, pending⟩
          · exact ⟨chain, by simp [same, lookup], version, versionMem, sameNode, owner, pending⟩
        · rw [mem_singleton] at added
          subst added
          exact ⟨_, by simp; rfl, newVersion machine.nextNode txnId deleted value
            machine.globalTs, by simp, rfl, rfl, rfl⟩ }
  · refine .of_versions ?_ ?_ fun version mem => ?_
    · exact nodup_map_concat old.nodesNodup fun version mem =>
        ne_of_lt (old.nodesFresh version mem)
    · exact nodup_map_concat old.txnsNodup noOwn
    · rcases mem_append.mp mem with oldMem | added
      · exact (old.version oldMem).of_foreign (Nat.le_succ _)
          (ForeignTo.record rfl (noOwn version oldMem))
      · rw [mem_singleton.mp added]
        exact ⟨Nat.lt_succ_self _, by simp [History.record, newVersion],
          active.unsettled.notRolledBack key, (active.unsettled.notInstalled key).symm, by
            rintro ⟨⟩⟩

end

end DbEngine.Mvcc
