import DbEngine.Mvcc.Store
import DbEngine.Mvcc.Invariant

/-!
# The invariant behind serializability

A transaction reads from the snapshot its start timestamp selects, while the serial
order is the order of commits.  The invariant relates three maps: the snapshot map, which
the commits up to `start_ts` build; the transaction's own view of it, with its pending
writes laid over; and the newest committed versions, which all commits build.
-/

namespace DbEngine.Mvcc

open Lib

/-- The map a snapshot taken at `startTs` shows. -/
def CallLog.mapAt (log : CallLog) (startTs : Int) : KeyType → Option Bytes :=
  applySerially (fun _ => none)
    ((log.commits.filter fun commit => decide (commit.2 ≤ startTs)).map
      fun commit => log.scripts commit.1)

/-- What a snapshot taken at `startTs` finds on a chain. -/
def snapshotValue (versions : List Version) (startTs : Int) : Option Bytes :=
  (bestVersion versions .serializableSnapshot startTs).bind Version.result

/-- One chain's part of the invariant. -/
structure KeyInv (log : CallLog) (store : Store) (key : KeyType) : Prop where
  nodesNodup : ((store.versions key).map Version.node).Nodup
  nodesFresh : ∀ version ∈ store.versions key, version.node < store.nextNode
  txnsNodup : ((store.versions key).map Version.txnId).Nodup
  pending : ∀ version ∈ store.versions key, version.committed = false →
    ∃ txn, store.txns version.txnId = some txn ∧ key ∈ txn.writeSet
  logged : ∀ version ∈ store.versions key, version.committed = true →
    (version.txnId, version.commitTs) ∈ log.commits
  newest : store.newest key = log.committedMap key
  -- A sweep may take a committed version, but only in favour of a newer one.
  survives : ∀ commit ∈ log.commits, Mutates (log.scripts commit.1) key →
    ∃ version ∈ store.versions key, version.committed = true ∧
      commit.2 ≤ version.commitTs

/-- One open transaction's part of the invariant. -/
structure TxnInv (log : CallLog) (store : Store) (txnId : TxnId)
    (txn : Transaction) : Prop where
  isolation : txn.isolation = .serializableSnapshot
  started : txn.startTs < store.globalTs
  keysNodup : (recordKeys txn.writeRecords).Nodup
  writeSet : ∀ key, key ∈ txn.writeSet ↔ key ∈ recordKeys txn.writeRecords
  designates : ∀ record ∈ txn.writeRecords, ∃ version ∈ store.versions record.key,
    version.node = record.node ∧ version.pendingOf txnId = true
  replays : Replays (log.mapAt txn.startTs) (log.scripts txnId)
  touched : ∀ key, Touches (log.scripts txnId) key → key ∈ txn.readSet ∨ key ∈ txn.writeSet
  mutated : ∀ key, Mutates (log.scripts txnId) key ↔ key ∈ txn.writeSet
  overlay : ∀ key, ∀ version ∈ store.versions key, version.pendingOf txnId = true →
    applyScript (log.mapAt txn.startTs) (log.scripts txnId) key = version.result
  view : ∀ key, snapshotValue (store.versions key) txn.startTs = log.mapAt txn.startTs key

/-- The invariant of every run of serializable transactions. -/
structure SerialInv (log : CallLog) (store : Store) : Prop where
  sorted : (log.commits.map Prod.snd).Pairwise (· < ·)
  past : ∀ commit ∈ log.commits, commit.2 < store.globalTs
  closed : ∀ commit ∈ log.commits,
    store.txns commit.1 = none ∧ commit.1 < store.nextTxnId
  unborn : ∀ txnId, store.nextTxnId ≤ txnId →
    store.txns txnId = none ∧ log.scripts txnId = []
  keys : ∀ key, KeyInv log store key
  txns : ∀ txnId txn, store.txns txnId = some txn → TxnInv log store txnId txn
  serial : ReplaysSerially (fun _ => none) log.committedScripts

/-! ## The store's fields -/

namespace Store

section

variable (store : Store) (key : KeyType) (versions : List Version) (txnId : TxnId)
variable (txn : Option Transaction)

@[simp] lemma versions_setVersions_self :
    (store.setVersions key versions).versions key = versions := by
  simp [Store.versions, setVersions]

@[simp] lemma versions_setVersions_of_ne (ne : query ≠ key) :
    (store.setVersions key versions).versions query = store.versions query := by
  simp [Store.versions, setVersions, ne]

@[simp] lemma versions_setTxn : (store.setTxn txnId txn).versions = store.versions := rfl

@[simp] lemma versions_tick : store.tick.versions = store.versions := rfl

end

variable {store : Store} {change : Nat → List Version → List Version}

variable {record : WriteRecord} {records : List WriteRecord}

@[simp] lemma forRecords_cons : store.forRecords change (record :: rest) =
      (store.setVersions record.key
        (change record.node (store.versions record.key))).forRecords change rest := rfl

/-- Going through write records changes nothing but chains. -/
lemma forRecords_fields (store : Store) (change : Nat → List Version → List Version)
    (records : List WriteRecord) : (store.forRecords change records).globalTs = store.globalTs ∧
    (store.forRecords change records).nextTxnId = store.nextTxnId ∧
    (store.forRecords change records).nextNode = store.nextNode ∧
    (store.forRecords change records).txns = store.txns := by
  induction records generalizing store with
  | nil => exact ⟨rfl, rfl, rfl, rfl⟩
  | cons record rest ih => exact ih _

lemma versions_forRecords_of_not_mem (absent : key ∉ recordKeys records) :
    (store.forRecords change records).versions key = store.versions key := by
  induction records generalizing store with
  | nil => rfl
  | cons record rest ih =>
    simp only [recordKeys, map_cons, mem_cons, not_or] at absent
    rw [forRecords_cons, ih absent.2, versions_setVersions_of_ne _ _ _ absent.1]

/-- With one record per key, each chain is changed at most once. -/
lemma versions_forRecords_of_mem (nodup : (recordKeys records).Nodup) (mem : record ∈ records) :
    (store.forRecords change records).versions record.key =
      change record.node (store.versions record.key) := by
  induction records generalizing store with
  | nil => cases mem
  | cons head rest ih =>
    simp only [recordKeys, map_cons, nodup_cons] at nodup
    rw [forRecords_cons]
    rcases mem_cons.mp mem with rfl | later
    · rw [versions_forRecords_of_not_mem nodup.1, versions_setVersions_self]
    · rw [ih nodup.2 later]
      have ne : record.key ≠ head.key := by
        intro same
        apply nodup.1
        rw [← same]
        exact mem_map_of_mem later
      rw [versions_setVersions_of_ne _ _ _ ne]

end Store

/-! ## Committed readers -/

section

variable {versions updated : List Version}

lemma snapshotValue_congr (same : updated.filter (·.committed) = versions.filter (·.committed)) :
    snapshotValue updated startTs = snapshotValue versions startTs := by
  have split : ∀ chain : List Version, (chain.filter fun version =>
      version.committed && isVisible version .serializableSnapshot startTs) =
      (chain.filter (·.committed)).filter fun version =>
        isVisible version .serializableSnapshot startTs := by
    intro chain
    rw [filter_filter]
    apply filter_congr
    intro version _
    exact Bool.and_comm _ _
  simp only [snapshotValue, bestVersion, split, same]

/-- A pending version is invisible to committed readers, whatever is written to it. -/
lemma overwritePending_filter
    (overwritten : overwritePending txnId deleted value seq versions = some updated) :
    updated.filter (·.committed) = versions.filter (·.committed) := by
  obtain ⟨before, old, after, rfl, pending, rfl⟩ := overwritePending_eq_some overwritten
  have notCommitted := (Version.pendingOf_iff.mp pending).2
  simp [filter_append, notCommitted]

lemma eraseNode_filter (hidden : ∀ version ∈ versions, version.node = node → test version = false) :
    (eraseNode node versions).filter test = versions.filter test := by
  induction versions with
  | nil => rfl
  | cons head rest ih =>
    have tail := ih fun version mem => hidden version (mem_cons_of_mem _ mem)
    unfold eraseNode at tail ⊢
    by_cases hit : head.node = node
    · rw [List.eraseP_cons_of_pos (by simpa using hit),
        filter_cons_of_neg (by simp [hidden head mem_cons_self hit])]
    · rw [List.eraseP_cons_of_neg (by simpa using hit), filter_cons, filter_cons, tail]

lemma markCommitted_filter
    (hidden : ∀ version ∈ versions, version.node = node → test version = false ∧
      test { version with committed := true, commitTs } = false) :
    (markCommitted node commitTs versions).filter test = versions.filter test := by
  induction versions with
  | nil => rfl
  | cons head rest ih =>
    have tail := ih fun version mem => hidden version (mem_cons_of_mem _ mem)
    unfold markCommitted at tail ⊢
    rw [map_cons, filter_cons, filter_cons, tail]
    by_cases hit : head.node = node
    · have both := hidden head mem_cons_self hit
      rw [if_pos hit]
      simp [both.1, both.2]
    · simp [hit]

end

/-! ## What a call leaves alone -/

section

variable {log log' : CallLog} {store store' : Store} {txnId : TxnId} {txn : Transaction}

/-- A transaction keeps its part of the invariant when its script, its pending versions
and its snapshot are left alone. -/
lemma TxnInv.of_frame (inv : TxnInv log store txnId txn)
    (scripts : log'.scripts txnId = log.scripts txnId)
    (mapAt : log'.mapAt txn.startTs = log.mapAt txn.startTs)
    (clock : store.globalTs ≤ store'.globalTs)
    (pending : ∀ key version, version.pendingOf txnId = true →
      (version ∈ store'.versions key ↔ version ∈ store.versions key))
    (view : ∀ key, snapshotValue (store'.versions key) txn.startTs =
      snapshotValue (store.versions key) txn.startTs) : TxnInv log' store' txnId txn where
  isolation := inv.isolation
  started := lt_of_lt_of_le inv.started clock
  keysNodup := inv.keysNodup
  writeSet := inv.writeSet
  designates record mem := by
    obtain ⟨version, present, sameNode, isPending⟩ := inv.designates record mem
    exact ⟨version, (pending record.key version isPending).mpr present, sameNode, isPending⟩
  replays := by rw [mapAt, scripts]; exact inv.replays
  touched := by rw [scripts]; exact inv.touched
  mutated := by rw [scripts]; exact inv.mutated
  overlay key version present isPending := by
    rw [mapAt, scripts]
    exact inv.overlay key version ((pending key version isPending).mp present) isPending
  view key := by rw [mapAt, view, inv.view]

lemma CallLog.mapAt_congr (commits : log'.commits = log.commits)
    (scripts : ∀ commit ∈ log.commits, log'.scripts commit.1 = log.scripts commit.1) :
    log'.mapAt = log.mapAt := by
  funext startTs
  simp only [CallLog.mapAt, commits]
  rw [map_congr_left fun commit mem =>
    scripts commit (List.mem_of_mem_filter mem)]

lemma CallLog.committedScripts_congr (commits : log'.commits = log.commits)
    (scripts : ∀ commit ∈ log.commits, log'.scripts commit.1 = log.scripts commit.1) :
    log'.committedScripts = log.committedScripts := by
  simp only [CallLog.committedScripts, commits]
  rw [map_congr_left scripts]

/-- A chain keeps its part of the invariant when its committed versions are the same and
the log says the same about the committed transactions. -/
lemma KeyInv.of_committed_eq (inv : KeyInv log store key)
    (same : (store'.versions key).filter (·.committed) = (store.versions key).filter (·.committed))
    (commits : log'.commits = log.commits)
    (scripts : ∀ commit ∈ log.commits, log'.scripts commit.1 = log.scripts commit.1)
    (nodesNodup : ((store'.versions key).map Version.node).Nodup)
    (nodesFresh : ∀ version ∈ store'.versions key, version.node < store'.nextNode)
    (txnsNodup : ((store'.versions key).map Version.txnId).Nodup)
    (pending : ∀ version ∈ store'.versions key, version.committed = false →
      ∃ txn, store'.txns version.txnId = some txn ∧ key ∈ txn.writeSet) :
    KeyInv log' store' key where
  nodesNodup
  nodesFresh
  txnsNodup
  pending
  logged version mem isCommitted := by
    have kept : version ∈ (store'.versions key).filter (·.committed) :=
      mem_filter.mpr ⟨mem, isCommitted⟩
    rw [same] at kept
    rw [commits]
    exact inv.logged version (mem_filter.mp kept).1 isCommitted
  newest := by
    have sameMap : log'.committedMap = log.committedMap := by
      rw [CallLog.committedMap, CallLog.committedScripts_congr commits scripts]
      rfl
    rw [sameMap, ← inv.newest]
    simp only [Store.newest, same]
  survives commit mem mutated := by
    rw [commits] at mem
    rw [scripts commit mem] at mutated
    obtain ⟨version, present, isCommitted, newer⟩ := inv.survives commit mem mutated
    have kept : version ∈ (store.versions key).filter (·.committed) :=
      mem_filter.mpr ⟨present, isCommitted⟩
    rw [← same] at kept
    exact ⟨version, (mem_filter.mp kept).1, isCommitted, newer⟩

variable {op : MapOp KeyType Bytes} {reply : MapReply Bytes}

section

variable (inv : SerialInv log store) (registered : store.txns txnId = some txn)
include inv registered

/-- The script of an open transaction is no committed one. -/
lemma SerialInv.note_scripts : ∀ commit ∈ log.commits,
    (log.note txnId op reply).scripts commit.1 = log.scripts commit.1 := by
  intro commit mem
  have ne : commit.1 ≠ txnId := by
    intro same
    have closed := (inv.closed commit mem).1
    rw [same, registered] at closed
    cases closed
  simp [CallLog.note, ne]

lemma SerialInv.note_mapAt (op : MapOp KeyType Bytes) (reply : MapReply Bytes) :
    (log.note txnId op reply).mapAt = log.mapAt :=
  CallLog.mapAt_congr rfl (inv.note_scripts registered)

/-- An operation answered as on the snapshot extends the script that replays there. -/
lemma SerialInv.note_replays
    (answered : op.reply (applyScript (log.mapAt txn.startTs) (log.scripts txnId) op.key) = reply) :
    Replays ((log.note txnId op reply).mapAt txn.startTs)
      ((log.note txnId op reply).scripts txnId) := by
  rw [inv.note_mapAt registered]
  simp only [CallLog.note, Function.update_self]
  exact (replays_concat _ _ _ _).mpr ⟨(inv.txns txnId txn registered).replays, answered⟩

end

end

end DbEngine.Mvcc
