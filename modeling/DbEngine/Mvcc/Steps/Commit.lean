import DbEngine.Mvcc.Steps.Active

/-!
# Committing keeps the invariant, up to the commit point

`Commit` collects its chains, locks them, validates and draws its timestamp.  The
last of these is where first-committer-wins is decided: a validated transaction holds
the locks of everything it wrote, so an earlier committed writer of one of its keys
has been installed there, and validation has seen that version or a newer one.
-/

namespace DbEngine.Mvcc

variable {machine : Machine} {history : History} {txnId : TxnId}
variable {key : KeyType} {chain : VersionChain}

/-! ## Commit: collecting and locking the chains -/

variable {txn : Transaction} {todo found held : List KeyType} {mutex : Option TxnId}
  {commitTs : Int} {other : TxnId}

lemma mem_checkKeys (mem : key ∈ txn.writeSet) : key ∈ txn.checkKeys := by
  unfold Transaction.checkKeys
  split <;> simp [mem]

lemma inv_beginCommit (inv : Inv machine history) (thread : machine.thread txnId = .idle)
    (known : machine.txns txnId = some txn) :
    Inv (machine.setThread txnId (.lookingUp txn.checkKeys [])) history := by
  refine inv.setThread (inv.born_of thread rfl) ?_
  refine ⟨nodup_nil, by simp [Phase.held], txn, inv.active_of_idle thread known, ?_⟩
  intro query mem
  exact .inl (mem_checkKeys mem)

/-- A key that a transaction wrote has a chain. -/
lemma ActiveTxn.table_isSome (active : ActiveTxn machine history txnId txn)
    (mem : key ∈ txn.writeSet) : (machine.table key).isSome := by
  have recorded := (active.mem_keys key).mpr ((active.writeSet key).mp mem)
  obtain ⟨record, recordMem, rfl⟩ := mem_map.mp recorded
  obtain ⟨chain, lookup, _⟩ := active.designates record recordMem
  rw [lookup]
  rfl

lemma inv_lookupChain_cons (inv : Inv machine history)
    (thread : machine.thread txnId = .lookingUp (key :: todo) found) :
    Inv (machine.setThread txnId (.lookingUp todo
      (if (machine.table key).isSome then found ++ [key] else found))) history := by
  obtain ⟨txn, active, covered⟩ := (inv.own thread).position
  refine inv.setThread (inv.born_of thread rfl) ?_
  refine ⟨nodup_nil, by simp [Phase.held], txn, active, ?_⟩
  intro query mem
  rcases covered query mem with inTodo | inFound
  · rcases mem_cons.mp inTodo with equal | later
    · subst equal
      right
      rw [if_pos (active.table_isSome mem)]
      simp
    · exact .inl later
  · right
    split <;> simp [inFound]

lemma inv_lookupChain_nil (inv : Inv machine history)
    (thread : machine.thread txnId = .lookingUp [] found) :
    Inv (machine.setThread txnId (.locking found [])) history := by
  obtain ⟨txn, active, covered⟩ := (inv.own thread).position
  refine inv.setThread (inv.born_of thread rfl) ?_
  refine ⟨nodup_nil, by simp [Phase.held], txn, active, ?_⟩
  intro query mem
  rcases covered query mem with inTodo | inFound
  · cases inTodo
  · exact .inl inFound

/-- A silent step on one chain that keeps its versions: taking or releasing the
mutex. -/
lemma Inv.of_mutex (inv : Inv machine history) {phase : Phase}
    (born : txnId < machine.nextTxnId) (lookup : machine.table key = some chain)
    (mine : ∀ other, other ≠ txnId → chain.mutex ≠ some other)
    (actor : ThreadInv (machine.setChain key { chain with mutex }) history txnId phase) :
    Inv ((machine.setChain key { chain with mutex }).setThread txnId phase) history := by
  refine inv.of_chain born lookup rfl rfl rfl (fun other _ => ForeignTo.refl other history)
    (fun _ _ => ⟨rfl, rfl⟩) mine (fun _ mem _ => mem) actor
    ((inv.chains key chain lookup).of_sublist le_rfl (List.Sublist.refl _)) ?_
  intro commitTs installed committed
  obtain ⟨found, lookup', rest⟩ := inv.survives txnId key commitTs installed committed
  rw [lookup] at lookup'
  cases lookup'
  exact rest

/-- The transaction's own view of a chain whose mutex it takes or releases. -/
lemma Undisturbed.of_mutex (lookup : machine.table key = some chain)
    (notMine : chain.mutex ≠ some txnId) :
    Undisturbed txnId machine history (machine.setChain key { chain with mutex }) history := by
  refine Undisturbed.of_update (ForeignTo.refl txnId history) rfl rfl ?_
  intro found lookup'
  rw [lookup] at lookup'
  cases lookup'
  exact ⟨fun locked => absurd locked notMine, fun _ mem _ _ => mem⟩

section

variable (inv : Inv machine history)
include inv

lemma inv_lockChain (thread : machine.thread txnId = .locking (key :: todo) held)
    (lookup : machine.table key = some chain) (unlocked : chain.mutex = none) :
    Inv ((machine.setChain key { chain with mutex := some txnId }).setThread txnId
      (.locking todo (held ++ [key]))) history := by
  have own := inv.own thread
  obtain ⟨txn, active, covered⟩ := own.position
  have notHeld : key ∉ held := by
    intro mem
    obtain ⟨found, lookup', locked⟩ := own.locked key mem
    rw [lookup] at lookup'
    cases lookup'
    rw [unlocked] at locked
    cases locked
  have undisturbed : Undisturbed txnId machine history
      (machine.setChain key { chain with mutex := some txnId }) history :=
    Undisturbed.of_mutex lookup (by simp [unlocked])
  refine inv.of_mutex (inv.born_of thread rfl) lookup (by simp [unlocked]) ?_
  refine ⟨?_, ?_, txn, active.of_undisturbed undisturbed, ?_⟩
  · rw [Phase.held, ← concat_eq_append]
    exact List.Nodup.concat notHeld own.heldNodup
  · intro query mem
    simp only [Phase.held, mem_append, mem_singleton] at mem
    by_cases same : query = key
    · subst same
      exact ⟨{ chain with mutex := some txnId }, by simp, rfl⟩
    · rcases mem with earlier | equal
      · obtain ⟨found, lookup', locked⟩ := own.locked query earlier
        exact ⟨found, by simp [same, lookup'], locked⟩
      · exact absurd equal same
  · intro query mem
    rcases covered query mem with inTodo | inHeld
    · rcases mem_cons.mp inTodo with equal | later
      · subst equal
        right
        simp
      · exact .inl later
    · right
      simp [inHeld]

lemma inv_validate (thread : machine.thread txnId = .locking [] held)
    (known : machine.txns txnId = some txn) : Inv (machine.setThread txnId (if held.any fun key =>
          chainConflicts ((machine.table key).getD {}).versions txnId txn.startTs
        then .releasing held false else .validated held)) history := by
  have own := inv.own thread
  obtain ⟨found, active, covered⟩ := own.position
  have same := active.registered
  rw [known] at same
  cases same
  refine inv.setThread (inv.born_of thread rfl) ?_
  split
  next conflict => exact ⟨own.heldNodup, own.locked, txn, active⟩
  next clean =>
    refine ⟨own.heldNodup, own.locked, txn, active, ?_⟩
    intro query mem
    have inHeld : query ∈ held := by
      rcases covered query mem with inTodo | inHeld
      · cases inTodo
      · exact inHeld
    refine ⟨inHeld, ?_⟩
    intro chain lookup version versionMem isCommitted
    have noConflict : chainConflicts chain.versions txnId txn.startTs = false := by
      have any := Bool.eq_false_iff.mpr clean
      rw [any_eq_false] at any
      have here := any query inHeld
      rw [lookup, getD_some] at here
      exact Bool.eq_false_iff.mpr here
    refine chainConflicts_eq_false.mp noConflict version versionMem isCommitted ?_
    intro owner
    rw [(inv.chains query chain lookup).pending_of_unsettled active.unsettled versionMem
      owner] at isCommitted
    cases isCommitted

/-! ## Commit: the commit point -/

/-- Where a committed write can be found: on its chain, or about to be marked by a
transaction that still holds the chain's lock. -/
lemma Inv.installed_or_locked (committed : history.committed txnId = some commitTs)
    (written : (history.written txnId key).isSome) : history.installed txnId key = true ∨
      ∃ chain, machine.table key = some chain ∧ chain.mutex = some txnId := by
  have own := inv.threads txnId
  have notUnsettled : ¬ Unsettled history txnId := by
    intro unsettled
    rw [unsettled.notCommitted] at committed
    cases committed
  have settled : Settled history txnId → history.installed txnId key = true := by
    intro settled
    rcases settled with ⟨_, installed⟩ | ⟨notCommitted, _⟩
    · exact installed key written
    · rw [notCommitted] at committed
      cases committed
  cases phase : machine.thread txnId with
  | marking ts todo held =>
    rw [phase] at own
    rcases own.position.installed key written with installed | remaining
    · exact .inl installed
    · right
      obtain ⟨chain, lookup, locked⟩ := own.locked key (own.position.remaining key remaining).2
      exact ⟨chain, lookup, locked⟩
  | unborn | drawnId level | drawnTs level startTs =>
    rw [phase] at own
    exact absurd own.position.2.1 notUnsettled
  | idle =>
    rw [phase] at own
    obtain ⟨txn, active⟩ := own.position
    exact absurd active.unsettled notUnsettled
  | lookingUp todo found | locking todo held | validated held =>
    rw [phase] at own
    obtain ⟨txn, active, _⟩ := own.position
    exact absurd active.unsettled notUnsettled
  | releasing held success =>
    rw [phase] at own
    cases success with
    | true => exact .inl (settled own.position.2)
    | false =>
      obtain ⟨txn, active⟩ := own.position
      exact absurd active.unsettled notUnsettled
  | erasing todo =>
    rw [phase] at own
    rw [own.position.notCommitted] at committed
    cases committed
  | closing | finished =>
    rw [phase] at own
    exact .inl (settled own.position)

/-- A transaction that holds a key's lock and sees nothing newer than its start on the
chain starts after every earlier committed writer of the key. -/
lemma Inv.commit_lt_start_of_held {level : IsolationLevel} {startTs : Int}
    (started : history.started txnId = some (level, startTs))
    (lookup : machine.table key = some chain) (mutex : chain.mutex = some txnId)
    (bounded : ∀ version ∈ chain.versions, version.committed = true → version.commitTs ≤ startTs)
    (different : other ≠ txnId) (otherWritten : (history.written other key).isSome)
    (committed : history.committed other = some commitTs) : commitTs < startTs := by
  rcases inv.installed_or_locked committed otherWritten with installed | locked
  · obtain ⟨chain', lookup', version, mem, isCommitted, newer⟩ :=
      inv.survives other key commitTs installed committed
    rw [lookup] at lookup'
    cases lookup'
    have atMost := bounded version mem isCommitted
    have ne := inv.clock.commit_ne_start committed started
    omega
  · obtain ⟨chain', lookup', mutex'⟩ := locked
    rw [lookup] at lookup'
    cases lookup'
    rw [mutex] at mutex'
    exact absurd (Option.some.inj mutex').symm different

/-- A validated writer starts after every earlier committed writer of its keys. -/
lemma Inv.commit_lt_start_of_validated (thread : machine.thread txnId = .validated held)
    (known : machine.txns txnId = some txn) (written : (history.written txnId key).isSome)
    (ne : other ≠ txnId) (otherWritten : (history.written other key).isSome)
    (committed : history.committed other = some commitTs) : commitTs < txn.startTs := by
  have own := inv.own thread
  obtain ⟨found, active, covered⟩ := own.position
  have same := active.registered
  rw [known] at same
  cases same
  obtain ⟨inHeld, bounded⟩ := covered key ((active.writeSet key).mpr written)
  obtain ⟨chain, lookup, mutex⟩ := own.locked key inHeld
  exact inv.commit_lt_start_of_held active.started lookup mutex (bounded chain lookup)
    ne otherWritten committed

lemma inv_drawCommitTs (thread : machine.thread txnId = .validated held)
    (registered : machine.txns txnId = some txn) :
    Inv (machine.tick.setThread txnId (.marking machine.globalTs txn.writeRecords held))
      (history.record (.committed txnId machine.globalTs)) := by
  have own := inv.own thread
  obtain ⟨found, active, covered⟩ := own.position
  have same := active.registered
  rw [registered] at same
  cases same
  have committedElse : ∀ other, other ≠ txnId →
      (history.record (.committed txnId machine.globalTs)).committed other =
        history.committed other := by
    intro other ne
    simp [History.record, ne]
  refine {
    unborn := inv.unborn_of_actor txnId (inv.born_of thread rfl) rfl fun other ne => by simp [ne]
    threads := ?_
    chains := ?_
    survives := ?_
    clock := inv.clock.record_committed active.started
    firstCommitter := ?_ }
  · refine threads_of_actor txnId inv.threads ?_ ?_
    · intro other ne
      refine ⟨by simp [ne], Undisturbed.of_foreign ?_ rfl rfl⟩
      exact ForeignTo.record rfl ne
    · simp only [Machine.setThread_thread, Function.update_self]
      refine ⟨own.heldNodup, own.locked, ?_⟩
      exact {
        registered := by simp [registered]
        committed := by simp [History.record]
        notRolledBack := active.unsettled.notRolledBack
        keysNodup := active.keysNodup
        installed := fun query written => Or.inr ((active.mem_keys query).mpr written)
        remaining := fun query mem => ⟨active.unsettled.notInstalled query,
          (covered query ((active.writeSet query).mpr
            ((active.mem_keys query).mp mem))).1⟩
        designates := active.designates }
  · intro query found lookup
    have inv' := inv.chains query found lookup
    refine inv'.of_agree le_rfl ?_
    intro version mem
    refine ⟨rfl, rfl, rfl, ?_⟩
    intro isCommitted
    apply committedElse
    intro owner
    rw [inv'.pending_of_unsettled active.unsettled mem owner] at isCommitted
    cases isCommitted
  · intro other query commitTs installed committed
    have ne : other ≠ txnId := by
      intro same
      subst same
      rw [show (history.record _).installed other query = history.installed other query
        from rfl, active.unsettled.notInstalled query] at installed
      cases installed
    rw [committedElse other ne] at committed
    exact inv.survives other query commitTs installed committed
  · intro left right query leftCommit rightCommit leftStart rightStart ne
      leftWritten rightWritten leftCommitted rightCommitted leftStarted rightStarted
    have started : (history.started txnId).map Prod.snd = some txn.startTs := by
      rw [active.started]
      rfl
    by_cases leftSame : left = txnId
    · subst leftSame
      rw [committedElse right ne.symm] at rightCommitted
      right
      have equal : leftStart = txn.startTs := Option.some.inj (leftStarted.symm.trans started)
      rw [equal]
      exact inv.commit_lt_start_of_validated thread registered leftWritten
        ne.symm rightWritten rightCommitted
    · rw [committedElse left leftSame] at leftCommitted
      by_cases rightSame : right = txnId
      · subst rightSame
        left
        have equal : rightStart = txn.startTs := Option.some.inj (rightStarted.symm.trans started)
        rw [equal]
        exact inv.commit_lt_start_of_validated thread registered rightWritten
          ne leftWritten leftCommitted
      · rw [committedElse right rightSame] at rightCommitted
        exact inv.firstCommitter ne leftWritten rightWritten leftCommitted
          rightCommitted leftStarted rightStarted

end

end DbEngine.Mvcc
