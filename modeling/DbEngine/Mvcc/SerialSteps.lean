import DbEngine.Mvcc.SerialInv

/-!
# Calls of an open transaction

`Begin`, `Read`, `Write`, `Delete`, `Abort` and a `Commit` that finds a conflict keep the
invariant: none of them changes a committed version, and each changes pending versions
of its own transaction only.
-/

namespace DbEngine.Mvcc

open Lib Function
open Version (pendingOf_iff pendingOf_of_ne)

variable {log : CallLog} {store : Store} {txnId : TxnId} {txn : Transaction} {key : KeyType}

lemma serialInv_init : SerialInv {} {} where
  sorted := List.Pairwise.nil
  past := by simp
  closed := by simp
  unborn _ _ := ⟨rfl, rfl⟩
  keys key := by constructor <;> simp [Store.versions, Store.newest, CallLog.committedMap,
    CallLog.committedScripts, applySerially]
  txns := by simp
  serial := trivial

/-- A call of one transaction that commits nothing: it changes its own script, its own entry
and its own pending versions. -/
lemma SerialInv.of_step (inv : SerialInv log store) (commits : log'.commits = log.commits)
    (scripts : ∀ other, other ≠ txnId → log'.scripts other = log.scripts other)
    (running : ∀ commit ∈ log.commits, commit.1 ≠ txnId) (clock : store.globalTs ≤ after.globalTs)
    (nextTxnId : store.nextTxnId ≤ after.nextTxnId) (born : txnId < after.nextTxnId)
    (others : ∀ other, other ≠ txnId → after.txns other = store.txns other)
    (committed : ∀ query, (after.versions query).filter (·.committed) =
      (store.versions query).filter (·.committed))
    (pending : ∀ query version, version.txnId ≠ txnId →
      (version ∈ after.versions query ↔ version ∈ store.versions query))
    (chains : ∀ query, ((after.versions query).map Version.node).Nodup ∧
      (∀ version ∈ after.versions query, version.node < after.nextNode) ∧
      ((after.versions query).map Version.txnId).Nodup)
    (written : ∀ query, ∀ version ∈ after.versions query, version.pendingOf txnId = true →
      ∃ noted, after.txns txnId = some noted ∧ query ∈ noted.writeSet)
    (own : ∀ noted, after.txns txnId = some noted → TxnInv log' after txnId noted) :
    SerialInv log' after := by
  have same : ∀ commit ∈ log.commits, log'.scripts commit.1 = log.scripts commit.1 :=
    fun commit mem => scripts commit.1 (running commit mem)
  exact {
    sorted := commits ▸ inv.sorted
    past := by
      rw [commits]
      exact fun commit mem => lt_of_lt_of_le (inv.past commit mem) clock
    closed := by
      rw [commits]
      intro commit mem
      obtain ⟨gone, old⟩ := inv.closed commit mem
      exact ⟨(others _ (running commit mem)).trans gone, lt_of_lt_of_le old nextTxnId⟩
    unborn := by
      intro other later
      obtain ⟨gone, empty⟩ := inv.unborn other (le_trans nextTxnId later)
      have ne : other ≠ txnId := (ne_of_lt (lt_of_lt_of_le born later)).symm
      exact ⟨(others other ne).trans gone, (scripts other ne).trans empty⟩
    keys := by
      intro query
      obtain ⟨nodes, fresh, txns⟩ := chains query
      refine (inv.keys query).of_committed_eq (committed query) commits same nodes fresh txns ?_
      intro version mem isPending
      by_cases owner : version.txnId = txnId
      · rw [owner]
        exact written query version mem (pendingOf_iff.mpr ⟨owner, isPending⟩)
      · rw [others _ owner]
        exact (inv.keys query).pending version ((pending query version owner).mp mem) isPending
    txns := by
      intro other found lookup
      by_cases owner : other = txnId
      · subst owner
        exact own found lookup
      · rw [others other owner] at lookup
        refine (inv.txns other found lookup).of_frame (scripts other owner)
          (congrFun (CallLog.mapAt_congr commits same) _) clock ?_
          fun query => snapshotValue_congr (committed query)
        intro query version isPending
        exact pending query version ((pendingOf_iff.mp isPending).1 ▸ owner)
    serial := CallLog.committedScripts_congr commits same ▸ inv.serial }

section

variable (inv : SerialInv log store) (registered : store.txns txnId = some txn)
include inv registered

/-- A transaction that is open has not committed. -/
lemma SerialInv.ne_of_registered : ∀ commit ∈ log.commits, commit.1 ≠ txnId := by
  rintro commit mem rfl
  cases (inv.closed commit mem).1.symm.trans registered

lemma SerialInv.born : txnId < store.nextTxnId := by
  by_contra late
  cases (inv.unborn txnId (not_lt.mp late)).1.symm.trans registered

/-- What an open transaction has pending, it has written. -/
lemma SerialInv.written_of_pending (mem : version ∈ store.versions key)
    (isPending : version.pendingOf txnId = true) : key ∈ txn.writeSet := by
  obtain ⟨owner, notCommitted⟩ := pendingOf_iff.mp isPending
  obtain ⟨found, lookup, isWritten⟩ := (inv.keys key).pending version mem notCommitted
  rw [owner, registered, some.injEq] at lookup
  exact lookup ▸ isWritten

end

lemma SerialInv.chains (inv : SerialInv log store) (query : KeyType) :
    ((store.versions query).map Version.node).Nodup ∧
      (∀ version ∈ store.versions query, version.node < store.nextNode) ∧
      ((store.versions query).map Version.txnId).Nodup :=
  ⟨(inv.keys query).nodesNodup, (inv.keys query).nodesFresh, (inv.keys query).txnsNodup⟩

/-! ## Begin -/

/-- A snapshot taken now shows every commit. -/
lemma SerialInv.mapAt_now (inv : SerialInv log store) :
    log.mapAt store.globalTs = log.committedMap := by
  have all : (log.commits.filter fun commit => decide (commit.2 ≤ store.globalTs)) =
      log.commits := by
    rw [filter_eq_self]
    intro commit mem
    exact decide_eq_true (le_of_lt (inv.past commit mem))
  rw [CallLog.mapAt, all]
  rfl

lemma SerialInv.snapshotValue_now (inv : SerialInv log store) (key : KeyType) :
    snapshotValue (store.versions key) store.globalTs = log.committedMap key := by
  have all : ((store.versions key).filter fun version =>
      version.committed && isVisible version .serializableSnapshot store.globalTs) =
      (store.versions key).filter (·.committed) := by
    apply filter_congr
    intro version mem
    cases isCommitted : version.committed with
    | false => rfl
    | true =>
      have past := inv.past _ ((inv.keys key).logged version mem isCommitted)
      simpa [isVisible] using le_of_lt past
  simp only [snapshotValue, bestVersion, all]
  exact (inv.keys key).newest

lemma serialInv_begin (inv : SerialInv log store) :
    SerialInv log (store.begin .serializableSnapshot).2 := by
  obtain ⟨gone, empty⟩ := inv.unborn _ le_rfl
  -- The id is new, so no version can be pending for it.
  have settled : ∀ query, ∀ version ∈ store.versions query,
      version.pendingOf store.nextTxnId ≠ true := by
    intro query version mem isPending
    obtain ⟨owner, notCommitted⟩ := pendingOf_iff.mp isPending
    obtain ⟨found, registered, _⟩ := (inv.keys query).pending version mem notCommitted
    cases gone.symm.trans (owner ▸ registered)
  refine inv.of_step rfl (fun _ _ => rfl) (fun commit mem => ne_of_lt (inv.closed commit mem).2)
    (le_of_lt (Int.lt_succ _)) (Nat.le_succ _) (Nat.lt_succ_self _)
    (fun other ne => update_of_ne ne ..) (fun _ => rfl)
    (fun _ _ _ => Iff.rfl) inv.chains ?_ ?_
  · exact fun query version mem isPending => absurd isPending (settled query version mem)
  · intro noted registered
    simp only [Store.begin, Store.setTxn, update_self, some.injEq] at registered
    subst registered
    exact {
      isolation := rfl
      started := Int.lt_succ _
      keysNodup := nodup_nil
      writeSet := by simp [recordKeys]
      designates := by simp
      replays := by rw [empty]; trivial
      touched := by rw [empty]; simp [Touches]
      mutated := by rw [empty]; simp [Mutates]
      overlay := fun query version mem isPending =>
        absurd isPending (settled query version mem)
      view := by
        intro query
        rw [inv.mapAt_now]
        exact inv.snapshotValue_now query }

/-! ## Read -/

/-- A transaction reads its script's outcome on its snapshot. -/
lemma SerialInv.readChain_eq (inv : SerialInv log store)
    (registered : store.txns txnId = some txn) (key : KeyType) :
    readChain (store.versions key) txnId txn.isolation txn.startTs =
      applyScript (log.mapAt txn.startTs) (log.scripts txnId) key := by
  have own := inv.txns txnId txn registered
  cases found : (store.versions key).find? (·.pendingOf txnId) with
  | some version =>
    have isPending : version.pendingOf txnId = true := find?_some found
    rw [own.overlay key version (mem_of_find?_eq_some found) isPending]
    simp only [readChain, found]
  | none =>
    have notMutated : ¬ Mutates (log.scripts txnId) key := by
      intro mutated
      have recorded := (own.writeSet key).mp ((own.mutated key).mp mutated)
      obtain ⟨record, recordMem, rfl⟩ := mem_map.mp recorded
      obtain ⟨version, mem, _, isPending⟩ := own.designates record recordMem
      exact find?_eq_none.mp found version mem isPending
    rw [applyScript_of_not_mutates notMutated, ← own.view key]
    simp only [readChain, found, own.isolation]
    rfl

lemma Store.read_eq (store : Store) (registered : store.txns txnId = some txn) :
    store.read txnId key = some (readChain (store.versions key) txnId txn.isolation txn.startTs,
        store.setTxn txnId (some (txn.noteRead key))) := by
  simp only [Store.read, registered, Store.versions]
  cases store.table key with
  | none => cases txn.isolation <;> rfl
  | some versions => rfl

/-- An entry of the transaction table may change in its read set alone. -/
lemma SerialInv.setTxn (inv : SerialInv log store) (registered : store.txns txnId = some txn)
    (sameWrites : noted.writeSet = txn.writeSet) (own : TxnInv log store txnId noted) :
    SerialInv log (store.setTxn txnId (some noted)) := by
  refine inv.of_step rfl (fun _ _ => rfl) (inv.ne_of_registered registered) le_rfl le_rfl
    (inv.born registered) (fun other ne => update_of_ne ne ..)
    (fun _ => rfl) (fun _ _ _ => Iff.rfl) inv.chains ?_ ?_
  · intro query version mem isPending
    exact ⟨noted, update_self .., sameWrites ▸ inv.written_of_pending registered mem isPending⟩
  · intro found lookup
    simp only [Store.setTxn, update_self, some.injEq] at lookup
    subst lookup
    exact own.of_frame rfl rfl le_rfl (fun _ _ _ => Iff.rfl) (fun _ => rfl)

lemma TxnInv.noteRead (own : TxnInv log store txnId txn) (key : KeyType) :
    TxnInv log store txnId (txn.noteRead key) :=
  { own with
    touched := by
      intro query touches
      rcases own.touched query touches with isRead | isWritten
      · exact .inl (Finset.mem_insert_of_mem isRead)
      · exact .inr isWritten }

lemma serialInv_noteRead (inv : SerialInv log store)
    (registered : store.txns txnId = some txn) (key : KeyType) :
    SerialInv log (store.setTxn txnId (some (txn.noteRead key))) :=
  inv.setTxn registered rfl ((inv.txns txnId txn registered).noteRead key)

/-- Logging a read whose key is in the read set and whose reply is right. -/
lemma serialInv_logRead (inv : SerialInv log store)
    (registered : store.txns txnId = some txn) (isRead : key ∈ txn.readSet) :
    SerialInv (log.note txnId (.read key)
      (.value (applyScript (log.mapAt txn.startTs) (log.scripts txnId) key))) store := by
  refine inv.of_step rfl (fun other ne => by simp [CallLog.note, ne])
    (inv.ne_of_registered registered) le_rfl le_rfl (inv.born registered) (fun _ _ => rfl)
    (fun _ => rfl) (fun _ _ _ => Iff.rfl) inv.chains ?_ ?_
  · intro query version mem isPending
    exact ⟨txn, registered, inv.written_of_pending registered mem isPending⟩
  · intro found lookup
    cases registered.symm.trans lookup
    have own := inv.txns txnId txn registered
    have sameMap := inv.note_mapAt registered (.read key)
      (.value (applyScript (log.mapAt txn.startTs) (log.scripts txnId) key))
    exact { own with
      replays := inv.note_replays registered rfl
      touched := by
        intro query touches
        simp only [CallLog.note, update_self, touches_concat] at touches
        rcases touches with before | now
        · exact own.touched query before
        · exact .inl (now ▸ isRead)
      mutated := by
        intro query
        rw [← own.mutated query]
        simp [CallLog.note, Mutates, MapOp.mutates]
      overlay := by
        intro query version mem isPending
        rw [sameMap]
        simp only [CallLog.note, update_self, applyScript_concat]
        rw [MapOp.apply_of_not_mutates _ rfl]
        exact own.overlay query version mem isPending
      view := by
        intro query
        rw [sameMap]
        exact own.view query }

/-! ## Write and Delete -/

/-- What `WriteInternal` does: afterwards `written` is the transaction's one pending
version on the chain, and nothing else has changed. -/
structure PendingWrite (store after : Store) (txnId : TxnId) (key : KeyType)
    (txn noted : Transaction) (written : Version) : Prop where
  globalTs : store.globalTs ≤ after.globalTs
  nextTxnId : after.nextTxnId = store.nextTxnId
  nextNode : store.nextNode ≤ after.nextNode
  txns : after.txns = update store.txns txnId (some noted)
  isolation : noted.isolation = txn.isolation
  startTs : noted.startTs = txn.startTs
  readSet : noted.readSet = txn.readSet
  writeSet : noted.writeSet = insert key txn.writeSet
  records : noted.writeRecords = txn.writeRecords ∧ key ∈ recordKeys txn.writeRecords ∨
    noted.writeRecords = txn.writeRecords ++ [⟨key, written.node⟩] ∧
      key ∉ recordKeys txn.writeRecords
  isPending : written.pendingOf txnId = true
  elsewhere : ∀ query, query ≠ key → after.versions query = store.versions query
  members : ∀ version, version ∈ after.versions key ↔
    (version ∈ store.versions key ∧ version.pendingOf txnId = false) ∨ version = written
  sameNode : ∀ version ∈ store.versions key, version.pendingOf txnId = true →
    version.node = written.node
  committed : (after.versions key).filter (·.committed) =
    (store.versions key).filter (·.committed)
  nodesNodup : ((after.versions key).map Version.node).Nodup
  nodesFresh : ∀ version ∈ after.versions key, version.node < after.nextNode
  txnsNodup : ((after.versions key).map Version.txnId).Nodup

variable {version : Version} {deleted : Bool} {value : Bytes} {base after : Store}

section

variable (inv : SerialInv log store) (registered : store.txns txnId = some txn)
include inv registered

/-- On one chain an open transaction owns at most the version it has pending. -/
lemma SerialInv.pendingOf_of_owner (mem : version ∈ store.versions key)
    (owner : version.txnId = txnId) : version.pendingOf txnId = true := by
  rw [pendingOf_iff]
  refine ⟨owner, ?_⟩
  by_contra isCommitted
  have closed := (inv.closed _ ((inv.keys key).logged version mem (by simpa using isCommitted))).1
  rw [owner, registered] at closed
  cases closed

lemma pendingWrite_overwrite
    (overwritten : overwritePending txnId deleted value store.globalTs (store.versions key) = some
      updated) : ∃ written : Version, written.result = (if deleted then none else some value) ∧
      PendingWrite store (store.tick.setVersions key updated) txnId key txn txn
        written := by
  have keyInv := inv.keys key
  obtain ⟨sameNodes, sameTxns, old, oldMem, oldPending, members⟩ :=
    mem_of_overwritePending keyInv.txnsNodup overwritten
  obtain ⟨owner, notCommitted⟩ := pendingOf_iff.mp oldPending
  have keyWritten := inv.written_of_pending registered oldMem oldPending
  refine ⟨{ old with
    deleted, value := if deleted then [] else value, seq := store.globalTs }, ?_, ?_⟩
  · cases deleted <;> rfl
  · exact {
      globalTs := le_of_lt (Int.lt_succ _)
      nextTxnId := rfl
      nextNode := le_rfl
      txns := (update_eq_self_iff.mpr registered.symm).symm
      isolation := rfl
      startTs := rfl
      readSet := rfl
      writeSet := (Finset.insert_eq_of_mem keyWritten).symm
      records := Or.inl ⟨rfl,
        ((inv.txns txnId txn registered).writeSet key).mp keyWritten⟩
      isPending := oldPending
      elsewhere := by
        intro query ne
        simp [ne]
      members := by
        intro version
        rw [Store.versions_setVersions_self, members]
        apply or_congr_left
        apply and_congr_right
        intro mem
        constructor
        · exact pendingOf_of_ne
        · intro settled same
          simp [inv.pendingOf_of_owner registered mem same] at settled
      sameNode := by
        intro version mem isPending
        have same : version = old := inj_on_of_nodup_map keyInv.txnsNodup mem oldMem
          ((pendingOf_iff.mp isPending).1.trans owner.symm)
        rw [same]
      committed := by
        rw [Store.versions_setVersions_self]
        exact overwritePending_filter overwritten
      nodesNodup := by
        rw [Store.versions_setVersions_self, sameNodes]
        exact keyInv.nodesNodup
      nodesFresh := by
        intro version mem
        rw [Store.versions_setVersions_self, members] at mem
        rcases mem with ⟨mem, _⟩ | rfl
        · exact keyInv.nodesFresh version mem
        · exact keyInv.nodesFresh old oldMem
      txnsNodup := by
        rw [Store.versions_setVersions_self, sameTxns]
        exact keyInv.txnsNodup }

lemma pendingWrite_push
    (nonePending : overwritePending txnId deleted value store.globalTs (store.versions key) =
      none) : PendingWrite store
      (({ store.tick with nextNode := store.nextNode + 1 }.setVersions key
        (store.versions key ++ [newVersion store.nextNode txnId deleted value
          store.globalTs])).setTxn txnId (some (txn.addWrite key store.nextNode)))
      txnId key txn (txn.addWrite key store.nextNode)
      (newVersion store.nextNode txnId deleted value store.globalTs) := by
  have keyInv := inv.keys key
  have own := inv.txns txnId txn registered
  have settled := overwritePending_eq_none.mp nonePending
  have foreign : ∀ version ∈ store.versions key, version.txnId ≠ txnId := by
    intro version mem owner
    have isPending := inv.pendingOf_of_owner registered mem owner
    rw [settled version mem] at isPending
    cases isPending
  have isPending : (newVersion store.nextNode txnId deleted value
      store.globalTs).pendingOf txnId = true := by
    simp [newVersion]
  have unwritten : key ∉ recordKeys txn.writeRecords := by
    intro recorded
    obtain ⟨record, recordMem, rfl⟩ := mem_map.mp recorded
    obtain ⟨version, mem, _, pendingOf⟩ := own.designates record recordMem
    exact foreign version mem (pendingOf_iff.mp pendingOf).1
  exact {
    globalTs := le_of_lt (Int.lt_succ _)
    nextTxnId := rfl
    nextNode := Nat.le_succ _
    txns := rfl
    isolation := rfl
    startTs := rfl
    readSet := rfl
    writeSet := rfl
    records := Or.inr ⟨rfl, unwritten⟩
    isPending
    elsewhere := by
      intro query ne
      simp [Store.versions, Store.setVersions, Store.setTxn, Store.tick, ne]
    members := by
      intro version
      rw [Store.versions_setTxn, Store.versions_setVersions_self, mem_append, mem_singleton]
      exact or_congr_left (and_iff_left_of_imp (settled version)).symm
    sameNode := by
      intro version mem pendingOf
      rw [settled version mem] at pendingOf
      cases pendingOf
    committed := by
      simp [newVersion]
    nodesNodup := by
      rw [Store.versions_setTxn, Store.versions_setVersions_self]
      exact nodup_map_concat keyInv.nodesNodup fun version mem =>
        ne_of_lt (keyInv.nodesFresh version mem)
    nodesFresh := by
      intro version mem
      rw [Store.versions_setTxn, Store.versions_setVersions_self, mem_append, mem_singleton] at mem
      rcases mem with mem | rfl
      · exact Nat.lt_succ_of_lt (keyInv.nodesFresh version mem)
      · exact Nat.lt_succ_self _
    txnsNodup := by
      rw [Store.versions_setTxn, Store.versions_setVersions_self]
      exact nodup_map_concat keyInv.txnsNodup foreign }

/-- Both shapes of `WriteInternal`. -/
lemma pendingWrite_writeInternal (key : KeyType) (deleted : Bool) (value : Bytes) :
    ∃ noted, ∃ written : Version, written.result = (if deleted then none else some value) ∧
      PendingWrite store (store.writeInternal txn txnId key deleted value) txnId key txn
        noted written := by
  cases attempt : overwritePending txnId deleted value store.globalTs
      (store.versions key) with
  | some updated =>
    obtain ⟨written, result, spec⟩ := pendingWrite_overwrite inv registered attempt
    simp only [Store.writeInternal, attempt]
    exact ⟨txn, written, result, spec⟩
  | none =>
    simp only [Store.writeInternal, attempt]
    refine ⟨_, _, ?_, pendingWrite_push inv registered attempt⟩
    cases deleted <;> rfl

end

section

variable {after : Store} {noted : Transaction} {written : Version}

lemma PendingWrite.committed_eq (spec : PendingWrite store after txnId key txn noted written)
    (query : KeyType) : (after.versions query).filter (·.committed) =
      (store.versions query).filter (·.committed) := by
  by_cases same : query = key
  · rw [same]
    exact spec.committed
  · rw [spec.elsewhere query same]

variable {op : MapOp KeyType Bytes} {reply : MapReply Bytes}

variable (spec : PendingWrite store after txnId key txn noted written)
  (inv : SerialInv log store) (registered : store.txns txnId = some txn)
  (sameKey : op.key = key) (mutates : op.mutates = true)
  (leaves : ∀ before, op.leaves before = written.result)
  (answered : op.reply (applyScript (log.mapAt txn.startTs) (log.scripts txnId) op.key) = reply)
include spec inv registered sameKey mutates leaves answered

/-- The writer's own part of the invariant. -/
lemma PendingWrite.txnInv : TxnInv (log.note txnId op reply) after txnId noted := by
  have own := inv.txns txnId txn registered
  have sameMap := inv.note_mapAt registered op reply
  have script : (log.note txnId op reply).scripts txnId =
      log.scripts txnId ++ [(op, reply)] := by
    simp [CallLog.note]
  exact {
    isolation := spec.isolation.trans own.isolation
    started := by
      rw [spec.startTs]
      exact lt_of_lt_of_le own.started spec.globalTs
    keysNodup := by
      rcases spec.records with ⟨same, _⟩ | ⟨grown, unwritten⟩
      · rw [same]
        exact own.keysNodup
      · rw [grown, recordKeys, ← concat_eq_append, map_concat]
        exact List.Nodup.concat unwritten own.keysNodup
    writeSet := by
      intro query
      rw [spec.writeSet, Finset.mem_insert, own.writeSet]
      rcases spec.records with ⟨same, isWritten⟩ | ⟨grown, _⟩
      · rw [same]
        apply or_iff_right_of_imp
        rintro rfl
        exact isWritten
      · rw [grown]
        simp [recordKeys, or_comm]
    designates := by
      intro record mem
      have present : written ∈ after.versions key := (spec.members written).mpr (.inr rfl)
      -- An earlier record still designates its version, which the write may have replaced.
      have earlier : record ∈ txn.writeRecords → ∃ version ∈ after.versions record.key,
          version.node = record.node ∧ version.pendingOf txnId = true := by
        intro old
        obtain ⟨version, versionMem, sameNode, isPending⟩ := own.designates record old
        by_cases hit : record.key = key
        · rw [hit] at versionMem ⊢
          exact ⟨written, present, (spec.sameNode version versionMem isPending).symm.trans sameNode,
            spec.isPending⟩
        · rw [spec.elsewhere _ hit]
          exact ⟨version, versionMem, sameNode, isPending⟩
      rcases spec.records with ⟨same, _⟩ | ⟨grown, _⟩
      · rw [same] at mem
        exact earlier mem
      · rw [grown] at mem
        rcases mem_append.mp mem with old | new
        · exact earlier old
        · rw [mem_singleton.mp new]
          exact ⟨written, present, rfl, spec.isPending⟩
    replays := by
      rw [spec.startTs]
      exact inv.note_replays registered answered
    touched := by
      intro query touches
      rw [script, touches_concat] at touches
      rw [spec.readSet, spec.writeSet, Finset.mem_insert]
      rcases touches with before | now
      · rcases own.touched query before with isRead | isWritten
        · exact .inl isRead
        · exact .inr (.inr isWritten)
      · exact .inr (.inl (now.symm.trans sameKey))
    mutated := by
      intro query
      rw [script, mutates_concat, own.mutated, spec.writeSet, Finset.mem_insert, sameKey]
      simp only [mutates, and_true]
      rw [or_comm, eq_comm]
    overlay := by
      intro query version mem isPending
      rw [sameMap, script, applyScript_concat, spec.startTs]
      by_cases hit : query = key
      · subst hit
        rcases (spec.members version).mp mem with ⟨_, settled⟩ | rfl
        · rw [settled] at isPending
          cases isPending
        · rw [← sameKey, MapOp.apply_key]
          exact leaves _
      · rw [MapOp.apply_of_ne _ _ (by rw [sameKey]; exact hit)]
        rw [spec.elsewhere query hit] at mem
        exact own.overlay query version mem isPending
    view := by
      intro query
      rw [sameMap, spec.startTs, snapshotValue_congr (spec.committed_eq query)]
      exact own.view query }

/-- A write or a delete whose reply is what its transaction's view says. -/
lemma serialInv_pendingWrite : SerialInv (log.note txnId op reply) after := by
  have registered' : after.txns txnId = some noted := by
    rw [spec.txns, update_self]
  refine inv.of_step rfl (fun other ne => by simp [CallLog.note, ne])
    (inv.ne_of_registered registered) spec.globalTs spec.nextTxnId.ge
    (spec.nextTxnId ▸ inv.born registered)
    (fun other ne => by rw [spec.txns, update_of_ne ne])
    spec.committed_eq ?_ ?_ ?_ ?_
  · intro query version ne
    by_cases hit : query = key
    · subst hit
      have foreign := pendingOf_of_ne ne
      rw [spec.members]
      constructor
      · rintro (⟨mem, _⟩ | rfl)
        · exact mem
        · cases spec.isPending.symm.trans foreign
      · exact fun mem => .inl ⟨mem, foreign⟩
    · rw [spec.elsewhere query hit]
  · intro query
    by_cases hit : query = key
    · subst hit
      exact ⟨spec.nodesNodup, spec.nodesFresh, spec.txnsNodup⟩
    · obtain ⟨nodes, fresh, txns⟩ := inv.chains query
      rw [spec.elsewhere query hit]
      exact ⟨nodes, fun version mem => lt_of_lt_of_le (fresh version mem) spec.nextNode, txns⟩
  · intro query version mem isPending
    refine ⟨noted, registered', ?_⟩
    rw [spec.writeSet, Finset.mem_insert]
    by_cases hit : query = key
    · exact .inl hit
    · rw [spec.elsewhere query hit] at mem
      exact .inr (inv.written_of_pending registered mem isPending)
  · intro found lookup
    cases registered'.symm.trans lookup
    exact spec.txnInv inv registered sameKey mutates leaves answered

end

/-! ## Going through the write records -/

/-- On the chain of a record, the designated version is the pending one. -/
lemma SerialInv.node_eq_iff (inv : SerialInv log store)
    (registered : store.txns txnId = some txn) (recordMem : record ∈ txn.writeRecords)
    (mem : version ∈ store.versions record.key) :
    version.node = record.node ↔ version.pendingOf txnId = true := by
  have keyInv := inv.keys record.key
  obtain ⟨own, ownMem, sameNode, ownPending⟩ :=
    (inv.txns txnId txn registered).designates record recordMem
  constructor
  · intro hit
    have same : version = own :=
      inj_on_of_nodup_map keyInv.nodesNodup mem ownMem (hit.trans sameNode.symm)
    rw [same]
    exact ownPending
  · intro isPending
    have same : version = own := inj_on_of_nodup_map keyInv.txnsNodup mem ownMem
      ((pendingOf_iff.mp isPending).1.trans
        (pendingOf_iff.mp ownPending).1.symm)
    rw [same]
    exact sameNode

/-- A chain is changed through its one record, or has nothing pending. -/
lemma SerialInv.forRecords_cases (inv : SerialInv log store)
    (registered : store.txns txnId = some txn) (sameVersions : base.versions = store.versions)
    (change : Nat → List Version → List Version) (key : KeyType) :
    (∃ record ∈ txn.writeRecords, record.key = key ∧
      (base.forRecords change txn.writeRecords).versions key =
        change record.node (store.versions key)) ∨
    (key ∉ txn.writeSet ∧ (∀ version ∈ store.versions key, version.pendingOf txnId = false) ∧
      (base.forRecords change txn.writeRecords).versions key = store.versions key) := by
  have own := inv.txns txnId txn registered
  by_cases isWritten : key ∈ txn.writeSet
  · obtain ⟨record, recordMem, rfl⟩ := mem_map.mp ((own.writeSet key).mp isWritten)
    refine Or.inl ⟨record, recordMem, rfl, ?_⟩
    rw [Store.versions_forRecords_of_mem own.keysNodup recordMem, sameVersions]
  · refine Or.inr ⟨isWritten, ?_, ?_⟩
    · intro version mem
      by_contra isPending
      exact isWritten (inv.written_of_pending registered mem (by simpa using isPending))
    · rw [Store.versions_forRecords_of_not_mem
        (fun recorded => isWritten ((own.writeSet key).mpr recorded)), sameVersions]

/-! ## Abort -/

/-- What `AbortInternal` and dropping the transaction do. -/
structure Withdrawn (store after : Store) (txnId : TxnId) : Prop where
  globalTs : after.globalTs = store.globalTs
  nextTxnId : after.nextTxnId = store.nextTxnId
  nextNode : after.nextNode = store.nextNode
  txns : after.txns = update store.txns txnId none
  sublist : ∀ key, (after.versions key).Sublist (store.versions key)
  members : ∀ key version, version ∈ after.versions key ↔
    version ∈ store.versions key ∧ version.pendingOf txnId = false
  committed : ∀ key, (after.versions key).filter (·.committed) =
    (store.versions key).filter (·.committed)

lemma withdrawn_of_erased (inv : SerialInv log store) (registered : store.txns txnId = some txn)
    (sameVersions : base.versions = store.versions)
    (versions : after.versions = (base.abortInternal txn).versions)
    (globalTs : after.globalTs = store.globalTs) (nextTxnId : after.nextTxnId = store.nextTxnId)
    (nextNode : after.nextNode = store.nextNode)
    (txns : after.txns = update store.txns txnId none) : Withdrawn store after txnId := by
  have cases := inv.forRecords_cases registered sameVersions eraseNode
  refine ⟨globalTs, nextTxnId, nextNode, txns, ?_, ?_, ?_⟩
  · intro key
    rw [versions, Store.abortInternal]
    rcases cases key with ⟨record, _, _, erased⟩ | ⟨_, _, same⟩
    · rw [erased]
      exact eraseNode_sublist _ _
    · rw [same]
  · intro key version
    rw [versions, Store.abortInternal]
    rcases cases key with ⟨record, recordMem, rfl, erased⟩ | ⟨_, settled, same⟩
    · rw [erased, mem_eraseNode (inv.keys record.key).nodesNodup]
      apply and_congr_right
      intro mem
      rw [ne_eq, inv.node_eq_iff registered recordMem mem, Bool.not_eq_true]
    · rw [same]
      exact (and_iff_left_of_imp (settled version)).symm
  · intro key
    rw [versions, Store.abortInternal]
    rcases cases key with ⟨record, recordMem, rfl, erased⟩ | ⟨_, _, same⟩
    · rw [erased]
      apply eraseNode_filter
      intro version mem hit
      have isPending := (inv.node_eq_iff registered recordMem mem).mp hit
      exact (pendingOf_iff.mp isPending).2
    · rw [same]

lemma serialInv_withdrawn (spec : Withdrawn store after txnId) (inv : SerialInv log store)
    (registered : store.txns txnId = some txn) : SerialInv log after := by
  refine inv.of_step rfl (fun _ _ => rfl) (inv.ne_of_registered registered) spec.globalTs.ge
    spec.nextTxnId.ge (spec.nextTxnId ▸ inv.born registered)
    (fun other ne => by rw [spec.txns, update_of_ne ne])
    spec.committed ?_ ?_ ?_ ?_
  · intro query version ne
    rw [spec.members]
    exact and_iff_left (pendingOf_of_ne ne)
  · intro query
    obtain ⟨nodes, fresh, txns⟩ := inv.chains query
    have sublist := spec.sublist query
    refine ⟨nodes.sublist (sublist.map _), ?_, txns.sublist (sublist.map _)⟩
    rw [spec.nextNode]
    exact fun version mem => fresh version (sublist.subset mem)
  · intro query version mem isPending
    cases ((spec.members query version).mp mem).2.symm.trans isPending
  · intro found lookup
    rw [spec.txns, update_self] at lookup
    cases lookup

lemma serialInv_abort (inv : SerialInv log store) (txnId : TxnId) :
    SerialInv log (store.abort txnId) := by
  cases registered : store.txns txnId with
  | none =>
    simp only [Store.abort, registered]
    exact inv
  | some txn =>
    simp only [Store.abort, registered]
    rcases Store.forRecords_fields (store.setTxn txnId none) eraseNode
      txn.writeRecords with ⟨globalTs, nextTxnId, nextNode, txns⟩
    have withdrawn : Withdrawn store ((store.setTxn txnId none).abortInternal txn) txnId :=
      withdrawn_of_erased inv registered (Store.versions_setTxn store txnId none) rfl
        globalTs nextTxnId nextNode txns
    exact serialInv_withdrawn withdrawn inv registered

lemma serialInv_conflicted (inv : SerialInv log store) (registered : store.txns txnId = some txn) :
    SerialInv log ((store.abortInternal txn).setTxn txnId none) := by
  obtain ⟨globalTs, nextTxnId, nextNode, txns⟩ :=
    Store.forRecords_fields store eraseNode txn.writeRecords
  have dropped : ((store.abortInternal txn).setTxn txnId none).txns =
      update store.txns txnId none := by
    simp only [Store.setTxn, Store.abortInternal, txns]
  have withdrawn : Withdrawn store ((store.abortInternal txn).setTxn txnId none) txnId :=
    withdrawn_of_erased inv registered rfl (Store.versions_setTxn _ txnId none) globalTs
      nextTxnId nextNode dropped
  exact serialInv_withdrawn withdrawn inv registered

end DbEngine.Mvcc
