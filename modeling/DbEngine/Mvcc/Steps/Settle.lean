import DbEngine.Mvcc.Steps.Commit

/-!
# Installing, rolling back and sweeping keep the invariant

What happens to a transaction's versions once its outcome is decided, and what a
garbage-collection pass does to committed ones.
-/

namespace DbEngine.Mvcc

variable {machine : Machine} {history : History} {txnId : TxnId}
variable {key : KeyType} {chain : VersionChain}

/-! ## Installing -/

variable {commitTs : Int} {record : WriteRecord} {todo : List WriteRecord} {held : List KeyType}
  {success : Bool} {txn : Transaction}

/-- The version that a record designates is the only one of its transaction. -/
lemma Inv.designated (inv : Inv machine history)
    (designates : Designates machine txnId (record :: todo))
    (lookup : machine.table record.key = some chain) :
    ∃ target ∈ chain.versions, target.node = record.node ∧ target.txnId = txnId ∧
      target.committed = false ∧ ∀ version ∈ chain.versions,
        version.node = record.node ∨ version.txnId = txnId → version = target := by
  have old := inv.chains record.key chain lookup
  obtain ⟨found, lookup', target, mem, node, owner, pending⟩ := designates record mem_cons_self
  rw [lookup] at lookup'
  cases lookup'
  refine ⟨target, mem, node, owner, pending, fun version versionMem same => ?_⟩
  rcases same with same | same
  · exact inj_on_of_nodup_map old.nodesNodup versionMem mem (same.trans node.symm)
  · exact old.eq_of_txnId_eq versionMem mem (same.trans owner.symm)

/-- The other records are on other chains. -/
lemma Designates.tail (designates : Designates machine txnId (record :: todo))
    (nodup : (recordKeys (record :: todo)).Nodup) (updated : VersionChain) :
    Designates (machine.setChain record.key updated) txnId todo := by
  intro later mem
  have ne : later.key ≠ record.key := by
    intro same
    apply (nodup_cons.mp nodup).1
    exact same ▸ mem_map_of_mem mem
  obtain ⟨found, lookup, rest⟩ := designates later (mem_cons_of_mem _ mem)
  exact ⟨found, by simp [ne, lookup], rest⟩

/-- A write is settled, or its record is still to come. -/
lemma settled_or_later {settled settled' : KeyType → Bool} (here : settled' record.key = true)
    (elsewhere : ∀ query, query ≠ record.key → settled' query = settled query)
    (before : settled key = true ∨ key ∈ recordKeys (record :: todo)) :
    settled' key = true ∨ key ∈ recordKeys todo := by
  by_cases same : key = record.key
  · exact .inl (same ▸ here)
  · rw [elsewhere key same]
    exact before.imp_right fun mem => (mem_cons.mp mem).resolve_left same

lemma inv_markVersion_cons (inv : Inv machine history)
    (thread : machine.thread txnId = .marking commitTs (record :: todo) held)
    (lookup : machine.table record.key = some chain) :
    Inv ((machine.setChain record.key { chain with
        versions := markCommitted record.node commitTs chain.versions }).setThread txnId
          (.marking commitTs todo held)) (history.record (.installed txnId record.key)) := by
  have own := inv.own thread
  have marking : MarkingTxn machine history txnId commitTs (record :: todo) held := own.position
  have old := inv.chains record.key chain lookup
  obtain ⟨target, targetMem, targetNode, targetOwner, targetPending, unique⟩ :=
    inv.designated marking.designates lookup
  have mutex : chain.mutex = some txnId := by
    have held := (marking.remaining record.key (by simp [recordKeys])).2
    obtain ⟨found, lookup', locked⟩ := own.locked record.key held
    rw [lookup] at lookup'
    cases lookup'
    exact locked
  have nodup := nodup_cons.mp marking.keysNodup
  have elsewhere (query : KeyType) (ne : query ≠ record.key) :
      (history.record (.installed txnId record.key)).installed txnId query =
        history.installed txnId query := by
    simp [History.record, ne]
  refine inv.of_chain (inv.born_of thread rfl) lookup rfl rfl rfl
    (fun other ne => ForeignTo.record rfl ne)
    (fun query ne => ⟨rfl, elsewhere query ne⟩) ?_ ?_ ⟨own.heldNodup, ?_, ?_⟩ ?_ ?_
  · intro other ne locked
    exact ne (Option.some.inj (locked.symm.trans mutex))
  · intro version mem other
    refine mem_markCommitted.mpr (.inl ⟨mem, fun sameNode => ?_⟩)
    rw [unique version mem (.inl sameNode), targetPending] at other
    cases other targetOwner
  · intro query mem
    obtain ⟨found, lookup', locked⟩ := own.locked query mem
    by_cases same : query = record.key
    · subst same
      exact ⟨_, Function.update_self .., mutex⟩
    · exact ⟨found, by simp [same, lookup'], locked⟩
  · exact {
      registered := marking.registered
      committed := marking.committed
      notRolledBack := marking.notRolledBack
      keysNodup := nodup.2
      installed := fun query written =>
        settled_or_later (by simp [History.record]) elsewhere (marking.installed query written)
      remaining := by
        intro query mem
        rw [elsewhere query fun same => nodup.1 (same ▸ mem)]
        exact marking.remaining query (mem_cons_of_mem _ mem)
      designates := marking.designates.tail marking.keysNodup _ }
  · -- The chain: one version turns committed, with the drawn timestamp.
    refine .of_versions ?_ ?_ fun version mem => ?_
    · simp only [markCommitted_map_node]
      exact old.nodesNodup
    · simp only [markCommitted_map_txnId]
      exact old.txnsNodup
    · rcases mem_markCommitted.mp mem with ⟨oldMem, ne⟩ | ⟨found, oldMem, same, rfl⟩
      · apply (old.version oldMem).of_foreign le_rfl
        apply ForeignTo.record rfl
        intro owner
        exact ne (unique version oldMem (.inr owner) ▸ targetNode)
      · have kept := old.version oldMem
        rw [unique found oldMem (.inl same)] at kept ⊢
        refine ⟨kept.fresh, kept.written, kept.notRolledBack, ?_, fun _ => ?_⟩
        · simp [History.record, targetOwner]
        · exact (congrArg history.committed targetOwner).trans marking.committed
  · intro otherCommit _ committed
    rw [marking.committed] at committed
    exact ⟨_, mem_markCommitted.mpr (.inr ⟨target, targetMem, targetNode, rfl⟩), rfl,
      (Option.some.inj committed).ge⟩

lemma inv_markVersion_nil (inv : Inv machine history)
    (thread : machine.thread txnId = .marking commitTs [] held) :
    Inv (machine.setThread txnId (.releasing held true)) history := by
  have own := inv.own thread
  have marking : MarkingTxn machine history txnId commitTs [] held := own.position
  refine inv.setThread (inv.born_of thread rfl) ⟨own.heldNodup, own.locked, ?_⟩
  refine ⟨marking.registered, .inl ⟨by rw [marking.committed]; rfl, ?_⟩⟩
  intro query written
  rcases marking.installed query written with installed | remaining
  · exact installed
  · cases remaining

/-! ## Releasing the locks -/

lemma inv_unlockChain_cons (inv : Inv machine history)
    (thread : machine.thread txnId = .releasing (key :: held) success)
    (lookup : machine.table key = some chain) :
    Inv ((machine.setChain key { chain with mutex := none }).setThread txnId
      (.releasing held success)) history := by
  have own := inv.own thread
  have nodup := own.heldNodup
  simp only [Phase.held, nodup_cons] at nodup
  have mutex : chain.mutex = some txnId := by
    obtain ⟨found, lookup', locked⟩ := own.locked key (by simp [Phase.held])
    rw [lookup] at lookup'
    cases lookup'
    exact locked
  refine inv.of_mutex (inv.born_of thread rfl) lookup ?_ ?_
  · intro other ne locked
    rw [mutex] at locked
    exact ne (Option.some.inj locked).symm
  · refine ⟨nodup.2, ?_, ?_⟩
    · intro query mem
      have ne : query ≠ key := by
        intro same
        subst same
        exact nodup.1 mem
      obtain ⟨found, lookup', locked⟩ := own.locked query (mem_cons_of_mem _ mem)
      exact ⟨found, by simp [ne, lookup'], locked⟩
    · have position := own.position
      cases success with
      | true => exact position
      | false =>
        obtain ⟨txn, active⟩ := position
        refine ⟨txn, active.registered, active.started, active.unsettled,
          active.keysNodup, active.mem_keys, active.writeSet, ?_⟩
        intro record mem
        obtain ⟨found, lookup', version, rest⟩ := active.designates record mem
        by_cases same : record.key = key
        · rw [same, lookup] at lookup'
          cases lookup'
          exact ⟨{ chain with mutex := none }, by simp [same], version, rest⟩
        · exact ⟨found, by simp [same, lookup'], version, rest⟩

lemma erasing_of_active (active : ActiveTxn machine history txnId txn) :
    ErasingTxn machine history txnId txn.writeRecords where
  notCommitted := active.unsettled.notCommitted
  notInstalled := active.unsettled.notInstalled
  keysNodup := active.keysNodup
  erased query written := Or.inr ((active.mem_keys query).mpr written)
  remaining query _ := active.unsettled.notRolledBack query
  designates := active.designates

section

variable (inv : Inv machine history)
include inv

lemma inv_unlockChain_nil (thread : machine.thread txnId = .releasing [] success)
    (known : machine.txns txnId = some txn) : Inv (machine.setThread txnId
      (if success then .closing else .erasing txn.writeRecords)) history := by
  have own := inv.own thread
  refine inv.setThread (inv.born_of thread rfl) ?_
  cases success with
  | true => exact ⟨nodup_nil, by simp [Phase.held], own.position.2⟩
  | false =>
    obtain ⟨found, active⟩ := own.position
    have same := active.registered
    rw [known] at same
    cases same
    exact ⟨nodup_nil, by simp [Phase.held], erasing_of_active active⟩

/-! ## Rolling back -/

lemma inv_abort (thread : machine.thread txnId = .idle) (known : machine.txns txnId = some txn) :
    Inv ((machine.setTxn txnId none).setThread txnId (.erasing txn.writeRecords)) history := by
  have erasing := erasing_of_active (inv.active_of_idle thread known)
  refine inv.setTxn_setThread (inv.born_of thread rfl) ⟨nodup_nil, by simp [Phase.held], ?_⟩
  exact ⟨erasing.notCommitted, erasing.notInstalled, erasing.keysNodup, erasing.erased,
    erasing.remaining, erasing.designates⟩

lemma inv_eraseVersion_cons (thread : machine.thread txnId = .erasing (record :: todo))
    (lookup : machine.table record.key = some chain) (unlocked : chain.mutex = none) :
    Inv ((machine.setChain record.key { chain with
        versions := eraseNode record.node chain.versions }).setThread txnId
          (.erasing todo))
      (history.record (.rolledBack txnId record.key)) := by
  have erasing : ErasingTxn machine history txnId (record :: todo) := (inv.own thread).position
  have old := inv.chains record.key chain lookup
  obtain ⟨target, targetMem, targetNode, targetOwner, targetPending, unique⟩ :=
    inv.designated erasing.designates lookup
  have nodup := nodup_cons.mp erasing.keysNodup
  have elsewhere (query : KeyType) (ne : query ≠ record.key) :
      (history.record (.rolledBack txnId record.key)).rolledBack txnId query =
        history.rolledBack txnId query := by
    simp [History.record, ne]
  refine inv.of_chain (inv.born_of thread rfl) lookup rfl rfl rfl
    (fun other ne => ForeignTo.record rfl ne)
    (fun query ne => ⟨elsewhere query ne, rfl⟩) (by simp [unlocked]) ?_
    ⟨nodup_nil, by simp [Phase.held], ?_⟩ ?_ ?_
  · intro version mem other
    refine (mem_eraseNode old.nodesNodup).mpr ⟨mem, fun sameNode => ?_⟩
    rw [unique version mem (.inl sameNode), targetPending] at other
    cases other targetOwner
  · exact {
      notCommitted := erasing.notCommitted
      notInstalled := erasing.notInstalled
      keysNodup := nodup.2
      erased := fun query written =>
        settled_or_later (by simp [History.record]) elsewhere (erasing.erased query written)
      remaining := by
        intro query mem
        rw [elsewhere query fun same => nodup.1 (same ▸ mem)]
        exact erasing.remaining query (mem_cons_of_mem _ mem)
      designates := erasing.designates.tail erasing.keysNodup _ }
  · have sublist := eraseNode_sublist record.node chain.versions
    refine .of_versions (old.nodesNodup.sublist (sublist.map _))
      (old.txnsNodup.sublist (sublist.map _)) fun version mem => ?_
    obtain ⟨oldMem, ne⟩ := (mem_eraseNode old.nodesNodup).mp mem
    apply (old.version oldMem).of_foreign le_rfl
    apply ForeignTo.record rfl
    intro owner
    exact ne (unique version oldMem (.inr owner) ▸ targetNode)
  · intro commitTs installed
    cases (erasing.notInstalled record.key).symm.trans installed

lemma inv_eraseVersion_nil (thread : machine.thread txnId = .erasing []) :
    Inv (machine.setThread txnId .closing) history := by
  have own := inv.own thread
  have erasing : ErasingTxn machine history txnId [] := own.position
  refine inv.setThread (inv.born_of thread rfl) ⟨nodup_nil, by simp [Phase.held], ?_⟩
  refine Or.inr ⟨erasing.notCommitted, erasing.notInstalled, ?_⟩
  intro query written
  rcases erasing.erased query written with erased | remaining
  · exact erased
  · cases remaining

lemma inv_close (thread : machine.thread txnId = .closing) :
    Inv ((machine.setTxn txnId none).setThread txnId .finished) history := by
  have own := inv.own thread
  exact inv.setTxn_setThread (inv.born_of thread rfl)
    ⟨nodup_nil, by simp [Phase.held], own.position⟩

/-! ## Garbage collection -/

/-- Collecting timestamps touches nothing the invariant speaks of. -/
lemma inv_setCollector (collector : Nat → Collection) : Inv { machine with collector } history where
  unborn := inv.unborn
  threads other := by
    have same : Undisturbed other machine history { machine with collector } history :=
      Undisturbed.of_table_eq rfl rfl
    exact (inv.threads other).of_undisturbed same
  chains query found lookup :=
    (inv.chains query found lookup).of_sublist le_rfl (List.Sublist.refl _)
  survives := inv.survives
  clock := inv.clock
  firstCommitter := inv.firstCommitter

end

/-- A sweep keeps, for every committed version that is visible, a visible one at least as
new, when the versions it prefers to a visible one are visible too. -/
lemma ChainInv.exists_visible_mem_sweepChain (chainInv : ChainInv machine history key chain)
    (clock : ClockInv history now) (starts : List Int) {visible : Version → Bool}
    (closed : ∀ older ∈ chain.versions, ∀ newer ∈ chain.versions,
      newer.committed = true → visible older = true →
      (∀ start ∈ starts, older.commitTs ≤ start → newer.commitTs ≤ start) → visible newer = true)
    {version : Version} (mem : version ∈ chain.versions) (isCommitted : version.committed = true)
    (isVisible : visible version = true) :
    ∃ newest ∈ sweepChain starts chain.versions, newest.committed = true ∧
      visible newest = true ∧ version.commitTs ≤ newest.commitTs := by
  have candidate : version ∈ chain.versions.filter fun version =>
      version.committed && visible version :=
    mem_filter.mpr ⟨mem, Bool.and_eq_true_iff.mpr ⟨isCommitted, isVisible⟩⟩
  cases best : (chain.versions.filter fun version =>
      version.committed && visible version).argmax Version.commitTs with
  | none =>
    rw [argmax_eq_none] at best
    rw [best] at candidate
    cases candidate
  | some newest =>
    obtain ⟨newestMem, passes⟩ := mem_filter.mp (argmax_mem best)
    obtain ⟨newestCommitted, newestVisible⟩ := Bool.and_eq_true_iff.mp passes
    refine ⟨newest, ?_, newestCommitted, newestVisible, le_of_mem_argmax candidate best⟩
    by_contra gone
    obtain ⟨_, newer, newerMem, newerCommitted, ne, later, unneeded⟩ :=
      exists_newer_of_not_mem_sweepChain chainInv.nodesNodup newestMem gone
    have newerVisible := closed newest newestMem newer newerMem newerCommitted
      newestVisible unneeded
    have atMost : newer.commitTs ≤ newest.commitTs := le_of_mem_argmax (mem_filter.mpr
        ⟨newerMem, Bool.and_eq_true_iff.mpr ⟨newerCommitted, newerVisible⟩⟩) best
    -- Equal commit timestamps would make them one version.
    have same := chainInv.eq_of_commitTs_eq clock newerMem newestMem newerCommitted
      newestCommitted (le_antisymm atMost later)
    exact ne (by rw [same])

lemma inv_gcSweep (inv : Inv machine history) (lookup : machine.table key = some chain)
    (unlocked : chain.mutex = none) :
    Inv (machine.setChain key { chain with
      versions := sweepChain starts chain.versions }) history where
  unborn := inv.unborn
  threads other := by
    have undisturbed : Undisturbed other machine history (machine.setChain key
        { chain with versions := sweepChain starts chain.versions }) history := by
      refine Undisturbed.of_update (ForeignTo.refl other history) rfl rfl ?_
      intro found lookup'
      rw [lookup] at lookup'
      cases lookup'
      refine ⟨by simp [unlocked], ?_⟩
      intro version mem _ pending
      by_contra gone
      have committed := (exists_newer_of_not_mem_sweepChain
        (inv.chains key chain lookup).nodesNodup mem gone).1
      rw [pending] at committed
      cases committed
    exact (inv.threads other).of_undisturbed undisturbed
  chains := inv.chains_of_update rfl le_rfl (fun _ _ _ => ⟨rfl, rfl, rfl⟩) rfl
    ((inv.chains key chain lookup).of_sublist le_rfl
      (sweepChain_sublist starts chain.versions))
  survives := by
    refine inv.survives_of_update rfl (fun _ _ _ => rfl) rfl ?_
    intro other commitTs installed committed
    obtain ⟨found, lookup', version, mem, isCommitted, newer⟩ :=
      inv.survives other key commitTs installed committed
    rw [lookup] at lookup'
    cases lookup'
    rcases (inv.chains key chain lookup).exists_visible_mem_sweepChain inv.clock starts
      (fun _ _ _ _ _ _ _ => rfl) mem isCommitted rfl with
      ⟨newest, newestMem, newestCommitted, _, later⟩
    exact ⟨newest, newestMem, newestCommitted, le_trans newer later⟩
  clock := inv.clock
  firstCommitter := inv.firstCommitter

end DbEngine.Mvcc
