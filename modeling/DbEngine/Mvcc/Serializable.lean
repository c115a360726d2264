import DbEngine.Mvcc.SerialSteps

/-!
# Serializable snapshots are serializable

A successful `Commit` has checked every key its transaction touched, so the snapshot it
ran on agrees on those keys with the map all earlier commits build, and its script
replays at the end of the serial order.  A sweep takes no version that an open snapshot
or the newest state resolves to.  Hence the committed transactions, run one after
another in commit order on an empty map, see what they saw.
-/

namespace DbEngine.Mvcc

open Lib Function

variable {log : CallLog} {store : Store} {txnId : TxnId} {txn : Transaction} {key : KeyType}

/-! ## Commit -/

/-- Commits up to a time come before the others. -/
lemma commits_split {commits : List (TxnId × Int)}
    (sorted : (commits.map Prod.snd).Pairwise (· < ·)) (time : Int) :
    commits = (commits.filter fun commit => decide (commit.2 ≤ time)) ++
      commits.filter fun commit => decide (time < commit.2) := by
  induction commits with
  | nil => rfl
  | cons first rest ih =>
    rw [map_cons, pairwise_cons] at sorted
    by_cases early : first.2 ≤ time
    · have notLate : ¬ time < first.2 := not_lt.mpr early
      simp only [filter_cons, early, notLate, decide_true, decide_false, if_true,
        Bool.false_eq_true, if_false, cons_append]
      rw [← ih sorted.2]
    · -- The first commit is late, so all of them are.
      have late : ∀ commit ∈ first :: rest, time < commit.2 := by
        intro commit mem
        rcases mem_cons.mp mem with rfl | mem
        · exact not_le.mp early
        · exact lt_trans (not_le.mp early) (sorted.1 commit.2 (mem_map_of_mem mem))
      rw [filter_eq_nil_iff.mpr, filter_eq_self.mpr, nil_append]
      · intro commit mem
        exact decide_eq_true (late commit mem)
      · intro commit mem
        simpa using late commit mem

/-- A key no later commit wrote is the same in the snapshot and in the newest map. -/
lemma SerialInv.mapAt_eq (inv : SerialInv log store) {startTs : Int}
    (quiet : ∀ commit ∈ log.commits, Mutates (log.scripts commit.1) key → commit.2 ≤ startTs) :
    log.mapAt startTs key = log.committedMap key := by
  have split : log.committedScripts =
      (log.commits.filter fun commit => decide (commit.2 ≤ startTs)).map
        (fun commit => log.scripts commit.1) ++
      (log.commits.filter fun commit => decide (startTs < commit.2)).map
        (fun commit => log.scripts commit.1) := by
    rw [← map_append, ← commits_split inv.sorted startTs]
    rfl
  rw [CallLog.mapAt, CallLog.committedMap, split]
  symm
  apply applySerially_append_of_not_mutates
  intro script mem mutated
  obtain ⟨commit, commitMem, rfl⟩ := mem_map.mp mem
  have late := of_decide_eq_true (mem_filter.mp commitMem).2
  exact not_lt.mpr (quiet commit (mem_filter.mp commitMem).1 mutated) late

lemma mem_checkKeys_of_touched (own : TxnInv log store txnId txn)
    (touched : Touches (log.scripts txnId) key) : key ∈ txn.checkKeys := by
  have either := own.touched key touched
  simp only [Transaction.checkKeys, own.isolation, Finset.mem_sort, Finset.mem_union]
  exact either.symm

/-- The check of `Commit` rules out stale reads. -/
lemma SerialInv.agree_of_not_conflicts (inv : SerialInv log store)
    (known : store.txns txnId = some txn) (noConflict : store.conflicts txn txnId = false)
    (touched : Touches (log.scripts txnId) key) :
    log.mapAt txn.startTs key = log.committedMap key := by
  have own := inv.txns txnId txn known
  apply inv.mapAt_eq
  intro commit commitMem mutated
  obtain ⟨version, mem, isCommitted, newer⟩ := (inv.keys key).survives commit commitMem mutated
  have foreign : version.txnId ≠ txnId := by
    intro owner
    have isPending := inv.pendingOf_of_owner known mem owner
    rw [(Version.pendingOf_iff.mp isPending).2] at isCommitted
    cases isCommitted
  -- The chain exists, so it was among those checked.
  cases lookup : store.table key with
  | none => simp [Store.versions, lookup] at mem
  | some versions =>
    have checked : versions ∈ txn.checkKeys.filterMap store.table :=
      mem_filterMap.mpr ⟨key, mem_checkKeys_of_touched own touched, lookup⟩
    have clean := any_eq_false.mp noConflict versions checked
    rw [Bool.not_eq_true, chainConflicts_eq_false] at clean
    simp only [Store.versions, lookup, getD_some] at mem
    exact le_trans newer (clean version mem isCommitted foreign)

/-- The log after a successful commit. -/
def CallLog.addCommit (log : CallLog) (txnId : TxnId) (commitTs : Int) : CallLog :=
  { log with commits := log.commits ++ [(txnId, commitTs)] }

/-- The store after a successful commit. -/
def Store.committed (store : Store) (txn : Transaction) (txnId : TxnId) : Store :=
  (store.tick.forRecords (fun node => markCommitted node store.globalTs)
    txn.writeRecords).setTxn txnId none

lemma CallLog.committedMap_addCommit (log : CallLog) (txnId : TxnId) (commitTs : Int) :
    (log.addCommit txnId commitTs).committedMap =
      applyScript log.committedMap (log.scripts txnId) := by
  simp [CallLog.committedMap, CallLog.committedScripts, CallLog.addCommit]

lemma CallLog.mapAt_addCommit (log : CallLog) (txnId : TxnId) (later : startTs < commitTs) :
    (log.addCommit txnId commitTs).mapAt startTs = log.mapAt startTs := by
  have hidden : ¬ commitTs ≤ startTs := not_le.mpr later
  simp [CallLog.mapAt, CallLog.addCommit, filter_append, hidden]

section

variable (inv : SerialInv log store)
include inv

/-- The chain of one key after a successful commit. -/
lemma SerialInv.committed_cases (known : store.txns txnId = some txn) (key : KeyType) :
    (∃ old ∈ store.versions key, old.pendingOf txnId = true ∧ key ∈ txn.writeSet ∧
      (store.committed txn txnId).versions key =
        markCommitted old.node store.globalTs (store.versions key)) ∨
    (key ∉ txn.writeSet ∧ (∀ version ∈ store.versions key, version.pendingOf txnId = false) ∧
      (store.committed txn txnId).versions key = store.versions key) := by
  have own := inv.txns txnId txn known
  rcases inv.forRecords_cases known (Store.versions_tick store)
    (fun node => markCommitted node store.globalTs) key with
    ⟨record, recordMem, rfl, marked⟩ | unchanged
  · obtain ⟨old, oldMem, sameNode, isPending⟩ := own.designates record recordMem
    refine Or.inl ⟨old, oldMem, isPending, ?_, ?_⟩
    · exact (own.writeSet _).mpr (mem_map_of_mem recordMem)
    · rw [sameNode]
      exact marked
  · exact .inr unchanged

/-- On a chain where the transaction has a version pending, marking touches just it. -/
lemma SerialInv.mem_marked (oldMem : old ∈ store.versions key)
    (mem : version ∈ markCommitted old.node store.globalTs (store.versions key)) :
    (version ∈ store.versions key ∧ version.node ≠ old.node) ∨
      version = { old with committed := true, commitTs := store.globalTs } := by
  rcases mem_markCommitted.mp mem with settled | ⟨found, foundMem, sameNode, rfl⟩
  · exact .inl settled
  · have same : found = old :=
      inj_on_of_nodup_map (inv.keys key).nodesNodup foundMem oldMem sameNode
    rw [same]
    exact .inr rfl

/-- The version just committed is the newest of its chain. -/
lemma SerialInv.newest_marked (oldMem : old ∈ store.versions key) :
    ((markCommitted old.node store.globalTs (store.versions key)).filter
      (·.committed)).argmax (·.commitTs) =
        some { old with committed := true, commitTs := store.globalTs } := by
  have present : { old with committed := true, commitTs := store.globalTs } ∈
      (markCommitted old.node store.globalTs (store.versions key)).filter (·.committed) :=
    mem_filter.mpr ⟨mem_markCommitted.mpr (.inr ⟨old, oldMem, rfl, rfl⟩), rfl⟩
  cases found : ((markCommitted old.node store.globalTs (store.versions key)).filter
      (·.committed)).argmax (·.commitTs) with
  | none =>
    rw [argmax_eq_none.mp found] at present
    cases present
  | some best =>
    obtain ⟨bestMem, isCommitted⟩ := mem_filter.mp (argmax_mem found)
    rcases inv.mem_marked oldMem bestMem with ⟨settled, _⟩ | marked
    · have past := inv.past _ ((inv.keys key).logged best settled isCommitted)
      have largest : store.globalTs ≤ best.commitTs := le_of_mem_argmax present found
      exact absurd past (not_lt.mpr largest)
    · rw [marked]

lemma SerialInv.keyInv_committed (known : store.txns txnId = some txn)
    (noConflict : store.conflicts txn txnId = false) (key : KeyType) :
    KeyInv (log.addCommit txnId store.globalTs) (store.committed txn txnId) key := by
  have own := inv.txns txnId txn known
  have keyInv := inv.keys key
  have nextNode : (store.committed txn txnId).nextNode = store.nextNode :=
    (Store.forRecords_fields store.tick _ txn.writeRecords).2.2.1
  have txns : (store.committed txn txnId).txns = update store.txns txnId none := by
    simp only [Store.committed, Store.setTxn, (Store.forRecords_fields store.tick _ _).2.2.2]
    rfl
  have others : ∀ version ∈ store.versions key, version.committed = false →
      version.pendingOf txnId = false →
      ∃ found, (store.committed txn txnId).txns version.txnId = some found ∧
        key ∈ found.writeSet := by
    intro version mem notCommitted settled
    obtain ⟨found, lookup, isWritten⟩ := keyInv.pending version mem notCommitted
    have ne : version.txnId ≠ txnId := by
      intro same
      simp [Version.pendingOf, same, notCommitted] at settled
    exact ⟨found, by rw [txns, update_of_ne ne]; exact lookup, isWritten⟩
  have agree : ∀ query, Touches (log.scripts txnId) query →
      log.mapAt txn.startTs query = log.committedMap query :=
    fun _ touched => inv.agree_of_not_conflicts known noConflict touched
  rcases inv.committed_cases known key with
    ⟨old, oldMem, isPending, isWritten, marked⟩ | ⟨unwritten, settled, same⟩
  · have mutated := (own.mutated key).mpr isWritten
    have present : { old with committed := true, commitTs := store.globalTs } ∈
        markCommitted old.node store.globalTs (store.versions key) :=
      mem_markCommitted.mpr (.inr ⟨old, oldMem, rfl, rfl⟩)
    obtain ⟨owner, notCommitted⟩ := Version.pendingOf_iff.mp isPending
    exact {
      nodesNodup := by rw [marked, markCommitted_map_node]; exact keyInv.nodesNodup
      nodesFresh := by
        intro version mem
        rw [marked] at mem
        rw [nextNode]
        rcases inv.mem_marked oldMem mem with ⟨settled, _⟩ | rfl
        · exact keyInv.nodesFresh version settled
        · exact keyInv.nodesFresh old oldMem
      txnsNodup := by rw [marked, markCommitted_map_txnId]; exact keyInv.txnsNodup
      pending := by
        intro version mem notCommitted'
        rw [marked] at mem
        rcases inv.mem_marked oldMem mem with ⟨settled, otherNode⟩ | rfl
        · apply others version settled notCommitted'
          by_contra mine
          apply otherNode
          have sameVersion : version = old := inj_on_of_nodup_map keyInv.txnsNodup settled oldMem
              ((Version.pendingOf_iff.mp (by simpa using mine)).1.trans owner.symm)
          rw [sameVersion]
        · cases notCommitted'
      logged := by
        intro version mem isCommitted
        rw [marked] at mem
        rcases inv.mem_marked oldMem mem with ⟨settled, _⟩ | rfl
        · exact mem_append_left _ (keyInv.logged version settled isCommitted)
        · apply mem_append_right
          rw [← owner]
          exact mem_singleton_self _
      newest := by
        rw [CallLog.committedMap_addCommit, Store.newest, marked, inv.newest_marked oldMem,
          ← applyScript_congr agree (agree key mutated.touches),
          own.overlay key old oldMem isPending]
        rfl
      survives := by
        intro commit commitMem mutates
        rw [marked]
        rcases mem_append.mp commitMem with before | now
        · obtain ⟨version, mem, isCommitted, newer⟩ := keyInv.survives commit before mutates
          have otherNode : version.node ≠ old.node := by
            intro hit
            have sameVersion : version = old := inj_on_of_nodup_map keyInv.nodesNodup mem oldMem hit
            rw [sameVersion, notCommitted] at isCommitted
            cases isCommitted
          exact ⟨version, mem_markCommitted.mpr (.inl ⟨mem, otherNode⟩), isCommitted, newer⟩
        · rw [mem_singleton.mp now]
          exact ⟨_, present, rfl, le_rfl⟩ }
  · have notMutated : ¬ Mutates (log.scripts txnId) key := by
      rw [own.mutated]
      exact unwritten
    exact {
      nodesNodup := by rw [same]; exact keyInv.nodesNodup
      nodesFresh := by rw [same, nextNode]; exact keyInv.nodesFresh
      txnsNodup := by rw [same]; exact keyInv.txnsNodup
      pending := by
        rw [same]
        intro version mem notCommitted
        exact others version mem notCommitted (settled version mem)
      logged := by
        rw [same]
        intro version mem isCommitted
        exact mem_append_left _ (keyInv.logged version mem isCommitted)
      newest := by
        rw [CallLog.committedMap_addCommit, applyScript_of_not_mutates notMutated,
          ← keyInv.newest, Store.newest, same]
        rfl
      survives := by
        rw [same]
        intro commit commitMem mutates
        rcases mem_append.mp commitMem with before | now
        · exact keyInv.survives commit before mutates
        · rw [mem_singleton.mp now] at mutates
          exact absurd mutates notMutated }

/-- The pending versions and the snapshots of the others survive a commit. -/
lemma SerialInv.txnInv_committed (known : store.txns txnId = some txn) (ne : other ≠ txnId)
    (lookup : store.txns other = some found) :
    TxnInv (log.addCommit txnId store.globalTs) (store.committed txn txnId) other found := by
  have globalTs : (store.committed txn txnId).globalTs = store.globalTs + 1 :=
    (Store.forRecords_fields store.tick _ txn.writeRecords).1
  have own := inv.txns other found lookup
  refine own.of_frame rfl (CallLog.mapAt_addCommit log txnId own.started)
    (by rw [globalTs]; exact le_of_lt (Int.lt_succ _)) ?_ ?_
  · intro key version isPending
    obtain ⟨owner, notCommitted⟩ := Version.pendingOf_iff.mp isPending
    rcases inv.committed_cases known key with ⟨old, oldMem, oldPending, _, marked⟩ | ⟨_, _, same⟩
    · rw [marked]
      constructor
      · intro mem
        rcases inv.mem_marked oldMem mem with ⟨settled, _⟩ | rfl
        · exact settled
        · cases notCommitted
      · intro mem
        refine mem_markCommitted.mpr (.inl ⟨mem, ?_⟩)
        intro hit
        have sameVersion : version = old :=
          inj_on_of_nodup_map (inv.keys key).nodesNodup mem oldMem hit
        rw [sameVersion, (Version.pendingOf_iff.mp oldPending).1] at owner
        exact ne owner.symm
    · rw [same]
  · intro key
    rcases inv.committed_cases known key with ⟨old, oldMem, oldPending, _, marked⟩ | ⟨_, _, same⟩
    · rw [marked]
      have hidden : ¬ store.globalTs ≤ found.startTs := not_le.mpr own.started
      simp only [snapshotValue, bestVersion]
      rw [markCommitted_filter]
      intro version mem hit
      have sameVersion : version = old :=
        inj_on_of_nodup_map (inv.keys key).nodesNodup mem oldMem hit
      rw [sameVersion]
      exact ⟨by simp [(Version.pendingOf_iff.mp oldPending).2], by simp [isVisible, hidden]⟩
    · rw [same]

lemma serialInv_committed (known : store.txns txnId = some txn)
    (noConflict : store.conflicts txn txnId = false) :
    SerialInv (log.addCommit txnId store.globalTs) (store.committed txn txnId) := by
  have own := inv.txns txnId txn known
  rcases Store.forRecords_fields store.tick
    (fun node => markCommitted node store.globalTs) txn.writeRecords with
    ⟨globalTs, nextTxnId, _, oldTxns⟩
  have txns : (store.committed txn txnId).txns = update store.txns txnId none := by
    simp only [Store.committed, Store.setTxn, oldTxns]
    rfl
  have agree : ∀ query, Touches (log.scripts txnId) query →
      log.mapAt txn.startTs query = log.committedMap query :=
    fun _ touched => inv.agree_of_not_conflicts known noConflict touched
  exact {
    sorted := by
      simp only [CallLog.addCommit, map_append, map_cons, map_nil, pairwise_append]
      refine ⟨inv.sorted, pairwise_singleton _ _, ?_⟩
      intro earlier mem now isNow
      obtain ⟨commit, commitMem, rfl⟩ := mem_map.mp mem
      rw [mem_singleton.mp isNow]
      exact inv.past commit commitMem
    past := by
      have ticked : (store.committed txn txnId).globalTs = store.globalTs + 1 := globalTs
      intro commit mem
      rw [ticked]
      rcases mem_append.mp mem with before | now
      · exact lt_trans (inv.past commit before) (Int.lt_succ _)
      · rw [mem_singleton.mp now]
        exact Int.lt_succ _
    closed := by
      have sameNext : (store.committed txn txnId).nextTxnId = store.nextTxnId := nextTxnId
      have born : txnId < store.nextTxnId := by
        by_contra unborn
        rw [(inv.unborn txnId (not_lt.mp unborn)).1] at known
        cases known
      intro commit mem
      rw [txns, sameNext]
      rcases mem_append.mp mem with before | now
      · obtain ⟨gone, isBorn⟩ := inv.closed commit before
        by_cases same : commit.1 = txnId
        · exact ⟨by simp [same], isBorn⟩
        · exact ⟨by simp [same, gone], isBorn⟩
      · rw [mem_singleton.mp now]
        exact ⟨by simp, born⟩
    unborn := by
      intro other later
      have stillLater : store.nextTxnId ≤ other := by
        rw [← show (store.committed txn txnId).nextTxnId = store.nextTxnId from nextTxnId]
        exact later
      obtain ⟨gone, empty⟩ := inv.unborn other stillLater
      rw [txns]
      by_cases same : other = txnId
      · exact ⟨by simp [same], empty⟩
      · exact ⟨by simp [same, gone], empty⟩
    keys := inv.keyInv_committed known noConflict
    txns := by
      intro other found lookup
      rw [txns] at lookup
      have ne : other ≠ txnId := by
        intro same
        simp [same] at lookup
      rw [update_of_ne ne] at lookup
      exact inv.txnInv_committed known ne lookup
    serial := by
      have grown : (log.addCommit txnId store.globalTs).committedScripts =
          log.committedScripts ++ [log.scripts txnId] := by
        simp [CallLog.committedScripts, CallLog.addCommit]
      rw [grown, replaysSerially_concat]
      exact ⟨inv.serial, own.replays.congr agree⟩ }

end

/-! ## Garbage collection -/

lemma Store.versions_runGarbageCollection (store : Store) (key : KeyType) :
    store.runGarbageCollection.versions key =
      sweepChain store.activeStarts (store.versions key) := by
  simp only [Store.runGarbageCollection, Store.versions]
  cases store.table key <;> rfl

/-- Committed versions of one chain have distinct timestamps. -/
lemma SerialInv.eq_of_commitTs_eq (inv : SerialInv log store)
    (leftMem : left ∈ store.versions key) (rightMem : right ∈ store.versions key)
    (leftCommitted : left.committed = true) (rightCommitted : right.committed = true)
    (sameTs : left.commitTs = right.commitTs) : left = right := by
  have keyInv := inv.keys key
  have timesNodup : (log.commits.map Prod.snd).Nodup := inv.sorted.imp ne_of_lt
  have sameCommit : (left.txnId, left.commitTs) = (right.txnId, right.commitTs) :=
    inj_on_of_nodup_map timesNodup (keyInv.logged left leftMem leftCommitted)
      (keyInv.logged right rightMem rightCommitted) sameTs
  exact inj_on_of_nodup_map keyInv.txnsNodup leftMem rightMem (Prod.mk.inj sameCommit).1

/-- A sweep keeps the version a reader resolves to, if every version that outdates a
swept one for that reader is itself visible to it. -/
lemma SerialInv.argmax_sweep (inv : SerialInv log store) (key : KeyType)
    (visible : Version → Bool) (closed : ∀ version ∈ store.versions key, visible version = true →
      ∀ newer : Version, (∀ start ∈ store.activeStarts, version.commitTs ≤ start →
        newer.commitTs ≤ start) → visible newer = true) :
    ((sweepChain store.activeStarts (store.versions key)).filter fun version =>
      version.committed && visible version).argmax (·.commitTs) =
    ((store.versions key).filter fun version =>
      version.committed && visible version).argmax (·.commitTs) := by
  apply argmax_eq_of_kept
  · intro version mem
    obtain ⟨kept, passes⟩ := mem_filter.mp mem
    exact mem_filter.mpr ⟨(sweepChain_sublist _ _).subset kept, passes⟩
  · intro left leftMem right rightMem sameTs
    obtain ⟨leftMem, leftPasses⟩ := mem_filter.mp leftMem
    obtain ⟨rightMem, rightPasses⟩ := mem_filter.mp rightMem
    exact inv.eq_of_commitTs_eq leftMem rightMem (Bool.and_eq_true_iff.mp leftPasses).1
      (Bool.and_eq_true_iff.mp rightPasses).1 sameTs
  · intro best found
    obtain ⟨bestMem, passes⟩ := mem_filter.mp (argmax_mem found)
    refine mem_filter.mpr ⟨?_, passes⟩
    by_contra gone
    obtain ⟨isCommitted, newer, newerMem, newerCommitted, otherNode, later, unneeded⟩ :=
      exists_newer_of_not_mem_sweepChain (inv.keys key).nodesNodup bestMem gone
    have competes : newer ∈ (store.versions key).filter fun version =>
        version.committed && visible version :=
      mem_filter.mpr ⟨newerMem, Bool.and_eq_true_iff.mpr ⟨newerCommitted,
        closed best bestMem (Bool.and_eq_true_iff.mp passes).2 newer unneeded⟩⟩
    have largest : newer.commitTs ≤ best.commitTs := le_of_mem_argmax competes found
    rw [inv.eq_of_commitTs_eq newerMem bestMem newerCommitted isCommitted
      (le_antisymm largest later)] at otherNode
    exact otherNode rfl

lemma SerialInv.newest_sweep (inv : SerialInv log store) (key : KeyType) :
    ((sweepChain store.activeStarts (store.versions key)).filter
      (·.committed)).argmax (·.commitTs) =
    ((store.versions key).filter (·.committed)).argmax (·.commitTs) := by
  have all := inv.argmax_sweep key (fun _ => true) fun _ _ _ _ _ => rfl
  simpa using all

lemma serialInv_runGarbageCollection (inv : SerialInv log store) :
    SerialInv log store.runGarbageCollection where
  sorted := inv.sorted
  past := inv.past
  closed := inv.closed
  unborn := inv.unborn
  keys key := by
    have old := inv.keys key
    have kept := sweepChain_sublist store.activeStarts (store.versions key)
    have versions := store.versions_runGarbageCollection key
    exact {
      nodesNodup := by rw [versions]; exact old.nodesNodup.sublist (kept.map _)
      nodesFresh := by
        rw [versions]
        intro version mem
        exact old.nodesFresh version (kept.subset mem)
      txnsNodup := by rw [versions]; exact old.txnsNodup.sublist (kept.map _)
      pending := by
        rw [versions]
        intro version mem
        exact old.pending version (kept.subset mem)
      logged := by
        rw [versions]
        intro version mem
        exact old.logged version (kept.subset mem)
      newest := by
        rw [← old.newest, Store.newest, Store.newest, versions, inv.newest_sweep key]
      survives := by
        rw [versions]
        intro commit commitMem mutated
        obtain ⟨version, mem, isCommitted, newer⟩ := old.survives commit commitMem mutated
        have competes := mem_filter.mpr ⟨mem, isCommitted⟩
        cases found : ((store.versions key).filter (·.committed)).argmax (·.commitTs) with
        | none =>
          rw [argmax_eq_none.mp found] at competes
          cases competes
        | some best =>
          have largest : version.commitTs ≤ best.commitTs := le_of_mem_argmax competes found
          rw [← inv.newest_sweep key] at found
          obtain ⟨bestMem, bestCommitted⟩ := mem_filter.mp (argmax_mem found)
          exact ⟨best, bestMem, bestCommitted, le_trans newer largest⟩ }
  txns other txn known := by
    have active : txn.startTs ∈ store.activeStarts := by
      have born : other < store.nextTxnId := by
        by_contra unborn
        have gone := (inv.unborn other (not_lt.mp unborn)).1
        have stillRegistered : store.txns other = some txn := known
        rw [gone] at stillRegistered
        cases stillRegistered
      exact mem_map_of_mem (mem_filterMap.mpr ⟨other, mem_range.mpr born, known⟩)
    refine (inv.txns other txn known).of_frame rfl rfl le_rfl ?_ ?_
    · intro key version isPending
      rw [Store.versions_runGarbageCollection]
      constructor
      · exact fun mem => (sweepChain_sublist _ _).subset mem
      · intro mem
        by_contra gone
        have swept := (exists_newer_of_not_mem_sweepChain (inv.keys key).nodesNodup mem gone).1
        rw [(Version.pendingOf_iff.mp isPending).2] at swept
        cases swept
    · intro key
      rw [Store.versions_runGarbageCollection]
      simp only [snapshotValue, bestVersion]
      rw [inv.argmax_sweep key fun version =>
        isVisible version .serializableSnapshot txn.startTs]
      intro version _ isVisible newer unneeded
      exact decide_eq_true (unneeded txn.startTs active (of_decide_eq_true isVisible))
  serial := inv.serial

/-! ## Runs -/

/-- Every transaction is started at `SERIALIZABLE_SNAPSHOT`. -/
def Call.serializable : Call → Prop
  | .begin level => level = .serializableSnapshot
  | _ => True

lemma setTxn_self (store : Store) (txnId : TxnId) (txn : Option Transaction) :
    (store.setTxn txnId txn).txns txnId = txn := by
  simp [Store.setTxn]

section

variable (inv : SerialInv log store) (known : store.txns txnId = some txn)
include inv known

lemma serialInv_read (key : KeyType) : SerialInv (log.note txnId (.read key)
        (.value (readChain (store.versions key) txnId txn.isolation txn.startTs)))
      (store.setTxn txnId (some (txn.noteRead key))) := by
  have noted := serialInv_noteRead inv known key
  rw [inv.readChain_eq known key]
  have isRead : key ∈ (txn.noteRead key).readSet := Finset.mem_insert_self _ _
  have logged := serialInv_logRead noted (setTxn_self ..) isRead
  exact logged

lemma serialInv_write (key : KeyType) (value : Bytes) :
    SerialInv (log.note txnId (.write key value) .done)
      (store.writeInternal txn txnId key false value) := by
  obtain ⟨noted, written, result, spec⟩ := pendingWrite_writeInternal inv known key false value
  exact serialInv_pendingWrite spec inv known rfl rfl (fun _ => result.symm) rfl

lemma serialInv_delete (key : KeyType) : SerialInv (log.note txnId (.delete key) (.existed
        (readChain (store.versions key) txnId txn.isolation txn.startTs).isSome))
      ((store.setTxn txnId (some (txn.noteRead key))).writeInternal (txn.noteRead key)
        txnId key true []) := by
  have noted := serialInv_noteRead inv known key
  have lookup := setTxn_self store txnId (some (txn.noteRead key))
  obtain ⟨after, written, result, spec⟩ := pendingWrite_writeInternal noted lookup key true []
  rw [inv.readChain_eq known key]
  exact serialInv_pendingWrite spec noted lookup rfl rfl (fun _ => result.symm) rfl

end

/-- Every call keeps the invariant. -/
lemma serialInv_exec (inv : SerialInv log store) (permitted : call.serializable)
    (executed : store.exec call = some (reply, after)) :
    SerialInv (log.record call reply) after := by
  cases call with
  | begin level =>
    cases permitted
    cases executed
    exact serialInv_begin inv
  | read txnId key =>
    cases known : store.txns txnId with
    | none => simp [Store.exec, Store.read, known] at executed
    | some txn =>
      simp only [Store.exec, store.read_eq known, map_some,
        some.injEq, Prod.mk.injEq] at executed
      obtain ⟨rfl, rfl⟩ := executed
      exact serialInv_read inv known key
  | write txnId key value =>
    cases known : store.txns txnId with
    | none => simp [Store.exec, Store.write, known] at executed
    | some txn =>
      simp only [Store.exec, Store.write, known, map_some,
        some.injEq, Prod.mk.injEq] at executed
      obtain ⟨rfl, rfl⟩ := executed
      exact serialInv_write inv known key value
  | delete txnId key =>
    cases known : store.txns txnId with
    | none => simp [Store.exec, Store.delete, Store.read, known] at executed
    | some txn =>
      simp only [Store.exec, Store.delete, store.read_eq known, setTxn_self,
        map_some, some.injEq, Prod.mk.injEq] at executed
      obtain ⟨rfl, rfl⟩ := executed
      exact serialInv_delete inv known key
  | commit txnId =>
    cases known : store.txns txnId with
    | none => simp [Store.exec, Store.commit, known] at executed
    | some txn =>
      cases verdict : store.conflicts txn txnId with
      | true =>
        simp only [Store.exec, Store.commit, known, verdict, if_true,
          map_some, some.injEq, Prod.mk.injEq] at executed
        obtain ⟨rfl, rfl⟩ := executed
        exact serialInv_conflicted inv known
      | false =>
        simp only [Store.exec, Store.commit, known, verdict, Bool.false_eq_true,
          if_false, map_some, some.injEq, Prod.mk.injEq] at executed
        obtain ⟨rfl, rfl⟩ := executed
        exact serialInv_committed inv known verdict
  | abort txnId =>
    cases executed
    exact serialInv_abort inv txnId
  | runGarbageCollection =>
    cases executed
    exact serialInv_runGarbageCollection inv

lemma serialInv_of_run (run : CallRun Call.serializable log store) : SerialInv log store := by
  induction run with
  | start => exact serialInv_init
  | step _ permitted executed ih => exact serialInv_exec ih permitted executed

/-- Serializability: in every run of atomic calls whose transactions are all
`SERIALIZABLE_SNAPSHOT`, the commit timestamps grow with the order of the commits, and
running the scripts of the committed transactions in that order on an empty map gives
every read and delete the reply it had and ends with the newest committed version of
every key. -/
theorem serializable_snapshot_serializable {log : CallLog} {store : Store}
    (run : CallRun Call.serializable log store) :
    (log.commits.map Prod.snd).Pairwise (· < ·) ∧
    ReplaysSerially (fun _ => none) (log.commits.map fun commit => log.scripts commit.1) ∧
    ∀ key, applySerially (fun _ => none)
      (log.commits.map fun commit => log.scripts commit.1) key = store.newest key := by
  have inv := serialInv_of_run run
  exact ⟨inv.sorted, inv.serial, fun key => (inv.keys key).newest.symm⟩

/-- Calls in order, if none of them throws. -/
def runCalls : List Call → CallLog × Store → Option (CallLog × Store)
  | [], state => some state
  | call :: rest, (log, store) =>
    match store.exec call with
    | some (reply, after) => runCalls rest (log.record call reply, after)
    | none => none

lemma callRun_of_runCalls {allowed : Call → Prop} (permitted : ∀ call ∈ calls, allowed call)
    (ran : runCalls calls before = some after) (run : CallRun allowed before.1 before.2) :
    CallRun allowed after.1 after.2 := by
  induction calls generalizing before with
  | nil =>
    cases ran
    exact run
  | cons call rest ih =>
    simp only [runCalls] at ran
    split at ran
    next reply store executed =>
      exact ih (fun other mem => permitted other (by simp [mem])) ran
        (run.step (permitted call (by simp)) executed)
    · cases ran

/-- Two transactions read and write one key, and only the first may commit. -/
def racingWriters : List Call :=
  [.begin .serializableSnapshot, .begin .serializableSnapshot, .read 0 1, .read 1 1,
    .write 0 1 [10], .write 1 1 [20], .commit 0, .commit 1, .runGarbageCollection,
    .begin .serializableSnapshot, .delete 2 1, .read 2 1, .commit 2]

theorem serializable_snapshot_serializable_racingWriters : ∃ log store,
    runCalls racingWriters ({}, {}) = some (log, store) ∧ log.commits = [(0, 4), (2, 7)] ∧
    log.scripts 2 = [(.delete 1, .existed true), (.read 1, .value none)] ∧
    ReplaysSerially (fun _ => none) [log.scripts 0, log.scripts 2] := by
  have observed : (runCalls racingWriters ({}, {})).any fun state =>
      decide (state.1.commits = [(0, 4), (2, 7)]) &&
      decide (state.1.scripts 2 = [(.delete 1, .existed true), (.read 1, .value none)]) := by
    decide +kernel
  rcases (Option.any_eq_true _ _).mp observed with ⟨⟨log, store⟩, ran, observed⟩
  simp only [Bool.and_eq_true, decide_eq_true_eq] at observed
  have permitted : ∀ call ∈ racingWriters, call.serializable := by
    simp [racingWriters, Call.serializable]
  have run : CallRun Call.serializable log store := callRun_of_runCalls permitted ran .start
  have replays := (serializable_snapshot_serializable run).2.1
  rw [observed.1] at replays
  exact ⟨log, store, ran, observed.1, observed.2, replays⟩

end DbEngine.Mvcc
