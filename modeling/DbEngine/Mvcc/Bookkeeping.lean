import DbEngine.Mvcc.FirstCommitter

/-!
# Version bookkeeping

The write records of the transactions and the uncommitted versions in the chains are the
same thing seen from two sides.  So whatever `Abort` and a conflicting `Commit` erase
through their records are pending versions of their own transaction, and nobody else's
reads depend on those, `READ_UNCOMMITTED` apart.
-/

namespace DbEngine.Mvcc

/-- The thread has neither begun to install its transaction's versions nor to erase them. -/
def Phase.Undecided : Phase → Prop
  | .idle | .lookingUp .. | .locking .. | .validated _ | .releasing _ false => True
  | _ => False

/-- The records of a transaction whose versions are still pending: all of them until the
outcome is decided, then those that the thread has not yet come to. -/
def Machine.outstanding (machine : Machine) (txnId : TxnId) : List WriteRecord :=
  match machine.thread txnId with
  | .idle | .lookingUp .. | .locking .. | .validated _ | .releasing _ false =>
    ((machine.txns txnId).map (·.writeRecords)).getD []
  | .marking _ todo _ | .erasing todo => todo
  | _ => []

/-- The versions of a key. -/
def Machine.versions (machine : Machine) (key : KeyType) : List Version :=
  ((machine.table key).getD {}).versions

/-- Records and pending versions match one to one. -/
structure Bookkeeping (machine : Machine) : Prop where
  /-- An undecided transaction has one record for each key of its write set. -/
  records : ∀ {txnId txn}, machine.txns txnId = some txn →
    (machine.thread txnId).Undecided →
    machine.outstanding txnId = txn.writeRecords ∧ (recordKeys txn.writeRecords).Nodup ∧
      ∀ key, key ∈ recordKeys txn.writeRecords ↔ key ∈ txn.writeSet
  /-- A node is the identity of one version of a chain. -/
  nodes : ∀ key, ((machine.versions key).map Version.node).Nodup
  /-- A transaction has at most one outstanding record for a key. -/
  once : ∀ txnId, (recordKeys (machine.outstanding txnId)).Nodup
  /-- A record's iterator designates a pending version of its transaction. -/
  designates : ∀ txnId, Designates machine txnId (machine.outstanding txnId)
  /-- A pending version belongs to a record of the transaction that wrote it, and to no
  other transaction's. -/
  owned : ∀ {key version}, version ∈ machine.versions key → version.committed = false →
    ⟨key, version.node⟩ ∈ machine.outstanding version.txnId ∧
      ∀ other, ⟨key, version.node⟩ ∈ machine.outstanding other → other = version.txnId
  /-- A committed version was written before it was committed. -/
  ordered : ∀ {key version}, version ∈ machine.versions key → version.committed = true →
    version.seq < version.commitTs

variable {machine machine' : Machine} {history : History} {txnId : TxnId} {key : KeyType}

lemma Inv.chainInv (inv : Inv machine history) (mem : version ∈ machine.versions key) :
    ∃ chain, machine.table key = some chain ∧ version ∈ chain.versions ∧
      ChainInv machine history key chain := by
  rw [Machine.versions] at mem
  cases lookup : machine.table key with
  | none =>
    rw [lookup] at mem
    cases mem
  | some chain =>
    rw [lookup] at mem
    exact ⟨chain, rfl, mem, inv.chains key chain lookup⟩

/-- An undecided thread's transaction is active. -/
lemma Inv.active (inv : Inv machine history) (undecided : (machine.thread txnId).Undecided) :
    ∃ txn, ActiveTxn machine history txnId txn := by
  have position := (inv.threads txnId).position
  cases phase : machine.thread txnId with
  | idle =>
    rw [phase] at position
    exact position
  | lookingUp | locking | validated =>
    rw [phase] at position
    obtain ⟨txn, active, -⟩ := position
    exact ⟨txn, active⟩
  | releasing held success =>
    rw [phase] at position undecided
    cases success with
    | true => exact undecided.elim
    | false => exact position
  | _ =>
    rw [phase] at undecided
    exact undecided.elim

lemma outstanding_of_active (active : ActiveTxn machine history txnId txn)
    (undecided : (machine.thread txnId).Undecided) :
    machine.outstanding txnId = txn.writeRecords := by
  rw [Machine.outstanding]
  cases phase : machine.thread txnId with
  | idle | lookingUp | locking | validated => simp [active.registered]
  | releasing held success =>
    cases success with
    | true =>
      rw [phase] at undecided
      exact undecided.elim
    | false => simp [active.registered]
  | _ =>
    rw [phase] at undecided
    exact undecided.elim

/-- A settled transaction has nothing outstanding. -/
lemma Settled.outstanding (settled : Settled history txnId) (key : KeyType)
    (written : (history.written txnId key).isSome)
    (notInstalled : history.installed txnId key = false)
    (notRolledBack : history.rolledBack txnId key = false) : key ∈ recordKeys [] := by
  rcases settled with ⟨-, installed⟩ | ⟨-, -, rolledBack⟩
  · rw [installed key written] at notInstalled
    cases notInstalled
  · rw [rolledBack key written] at notRolledBack
    cases notRolledBack

/-- What the outstanding records are, whatever the thread is doing. -/
lemma Inv.outstanding (inv : Inv machine history) (txnId : TxnId) :
    (recordKeys (machine.outstanding txnId)).Nodup ∧
      Designates machine txnId (machine.outstanding txnId) ∧
      ∀ key, (history.written txnId key).isSome → history.installed txnId key = false →
        history.rolledBack txnId key = false → key ∈ recordKeys (machine.outstanding txnId) := by
  by_cases undecided : (machine.thread txnId).Undecided
  · obtain ⟨txn, active⟩ := inv.active undecided
    rw [outstanding_of_active active undecided]
    exact ⟨active.keysNodup, active.designates, fun key written _ _ =>
      (active.mem_keys key).mpr written⟩
  · have position := (inv.threads txnId).position
    rw [Machine.outstanding]
    cases phase : machine.thread txnId with
    | unborn | drawnId | drawnTs =>
      rw [phase] at position
      refine ⟨nodup_nil, nofun, ?_⟩
      intro key written
      rw [position.2.2 key] at written
      cases written
    | marking commitTs todo held =>
      rw [phase] at position
      refine ⟨position.keysNodup, position.designates, ?_⟩
      intro key written notInstalled _
      rcases position.installed key written with installed | waiting
      · rw [installed] at notInstalled
        cases notInstalled
      · exact waiting
    | erasing todo =>
      rw [phase] at position
      refine ⟨position.keysNodup, position.designates, ?_⟩
      intro key written _ notRolledBack
      rcases position.erased key written with erased | waiting
      · rw [erased] at notRolledBack
        cases notRolledBack
      · exact waiting
    | releasing held success =>
      rw [phase] at position undecided
      cases success with
      | true => exact ⟨nodup_nil, nofun, fun key => position.2.outstanding key⟩
      | false => exact absurd trivial undecided
    | closing | finished =>
      rw [phase] at position
      exact ⟨nodup_nil, nofun, fun key => position.outstanding key⟩
    | _ =>
      rw [phase] at undecided
      exact absurd trivial undecided

lemma Inv.bookkeeping (inv : Inv machine history) : Bookkeeping machine where
  records := by
    intro txnId txn known undecided
    obtain ⟨found, active⟩ := inv.active undecided
    have same : found = txn := Option.some.inj (active.registered.symm.trans known)
    subst same
    exact ⟨outstanding_of_active active undecided, active.keysNodup, fun key =>
      (active.mem_keys key).trans (active.writeSet key).symm⟩
  nodes := by
    intro key
    rw [Machine.versions]
    cases lookup : machine.table key with
    | none => exact nodup_nil
    | some chain => exact (inv.chains key chain lookup).nodesNodup
  once txnId := (inv.outstanding txnId).1
  designates txnId := (inv.outstanding txnId).2.1
  owned := by
    intro key version mem pending
    obtain ⟨chain, lookup, mem, chainInv⟩ := inv.chainInv mem
    have notInstalled := chainInv.installed version mem
    rw [pending] at notInstalled
    have written : (history.written version.txnId key).isSome := by
      rw [chainInv.written version mem]
      rfl
    constructor
    · have listed := (inv.outstanding version.txnId).2.2 key written notInstalled.symm
        (chainInv.notRolledBack version mem)
      obtain ⟨record, outstanding, sameKey⟩ := mem_map.mp listed
      -- The record's own version is this one: a transaction has one version on a chain.
      obtain ⟨chain', lookup', designated, present, sameNode, sameTxn, -⟩ :=
        (inv.outstanding version.txnId).2.1 record outstanding
      rw [sameKey, lookup] at lookup'
      cases lookup'
      rw [chainInv.eq_of_txnId_eq present mem sameTxn] at sameNode
      rw [← sameKey, sameNode]
      exact outstanding
    · intro other outstanding
      obtain ⟨chain', lookup', designated, present, sameNode, sameTxn, -⟩ :=
        (inv.outstanding other).2.1 _ outstanding
      rw [lookup] at lookup'
      cases lookup'
      have same := inj_on_of_nodup_map chainInv.nodesNodup present mem sameNode
      rw [← sameTxn, same]
  ordered := by
    intro key version mem isCommitted
    obtain ⟨chain, lookup, mem, chainInv⟩ := inv.chainInv mem
    have committed := chainInv.commitTs version mem isCommitted
    exact (inv.clock.committed committed).2.2 key _ (chainInv.written version mem)

/-! ## Abort and a failed commit -/

/-- The steps that `Abort` and a conflicting `Commit` consist of. -/
def Action.undoes (txnId : TxnId) : Action → Prop
  | .beginCommit actor | .lookupChain actor | .lockChain actor | .validate actor
  | .unlockChain actor | .abort actor | .eraseVersion actor | .close actor => actor = txnId
  | _ => False

/-- Nothing goes but pending versions of the transaction, and nobody else's reads change. -/
structure RemovesOwn (txnId : TxnId) (machine machine' : Machine) : Prop where
  removed : ∀ key, machine'.versions key = machine.versions key ∨
    machine'.versions key = (machine.versions key).filter fun version =>
      !version.pendingOf txnId
  reads : ∀ {reader : TxnId} {level : IsolationLevel}, reader ≠ txnId →
    level ≠ .readUncommitted → ∀ key startTs,
      readChain (machine'.versions key) reader level startTs =
        readChain (machine.versions key) reader level startTs

/-- What somebody else reads does not depend on a transaction's pending versions. -/
lemma readChain_filter_pending (ne : reader ≠ txnId) (committedOnly : level ≠ .readUncommitted)
    (versions : List Version) (startTs : Int) :
    readChain (versions.filter fun version => !version.pendingOf txnId) reader level startTs =
      readChain versions reader level startTs := by
  have own : (versions.filter fun version => !version.pendingOf txnId).find?
      (·.pendingOf reader) = versions.find? (·.pendingOf reader) := by
    rw [List.find?_filter]
    apply congrArg (versions.find? ·)
    funext version
    cases pending : version.pendingOf reader with
    | false => simp
    | true =>
      have owner := (Version.pendingOf_iff.mp pending).1
      simp [Version.pendingOf, owner, ne]
  have visible (test : Version → Bool) :
      (versions.filter fun version => !version.pendingOf txnId).filter
          (fun version => version.committed && test version) =
        versions.filter fun version => version.committed && test version := by
    rw [filter_filter]
    apply filter_congr
    intro version _
    cases committed : version.committed with
    | false => rfl
    | true => simp [Version.pendingOf, committed]
  have best : bestVersion (versions.filter fun version => !version.pendingOf txnId) level
      startTs = bestVersion versions level startTs := by
    cases level with
    | readUncommitted => exact absurd rfl committedOnly
    | _ => simp only [bestVersion, visible]
  rw [readChain, readChain, own, best]

lemma eraseNode_eq_filter (nodup : (versions.map Version.node).Nodup) :
    eraseNode node versions = versions.filter fun version => decide (version.node ≠ node) := by
  induction versions with
  | nil => rfl
  | cons first rest ih =>
    rw [map_cons, nodup_cons] at nodup
    by_cases here : first.node = node
    · have others : ∀ version ∈ rest, decide (version.node ≠ node) = true := by
        intro version mem
        apply decide_eq_true
        intro same
        exact nodup.1 (mem_map.mpr ⟨version, mem, same.trans here.symm⟩)
      rw [eraseNode, List.eraseP_cons_of_pos (by simpa using here),
        filter_cons_of_neg (by simpa using here), filter_eq_self.mpr others]
    · rw [List.filter_cons_of_pos (by simpa using here), ← ih nodup.2, eraseNode,
        List.eraseP_cons_of_neg (by simpa using here)]
      rfl

lemma versions_setChain (machine : Machine) (key query : KeyType) (chain : VersionChain) :
    (machine.setChain key chain).versions query =
      if query = key then chain.versions else machine.versions query := by
  rw [Machine.versions, Machine.setChain_table]
  split
  next same =>
    rw [same, Function.update_self]
    rfl
  next other =>
    rw [Function.update_of_ne other]
    rfl

/-- A change of versions of this kind is all right. -/
lemma removesOwn_of_removed (removed : ∀ key, machine'.versions key = machine.versions key ∨
      machine'.versions key = (machine.versions key).filter fun version =>
        !version.pendingOf txnId) : RemovesOwn txnId machine machine' where
  removed
  reads ne committedOnly key startTs := by
    rcases removed key with same | filtered
    · rw [same]
    · rw [filtered]
      exact readChain_filter_pending ne committedOnly _ _

/-- Locking and unlocking leave the versions. -/
lemma versions_relock (lookup : machine.table key = some chain) (mutex : Option TxnId)
    (query : KeyType) :
    (machine.setChain key { chain with mutex }).versions query = machine.versions query := by
  rw [versions_setChain]
  split
  next same =>
    rw [same, Machine.versions, lookup]
    rfl
  · rfl

lemma removesOwn_step (inv : Inv machine history)
    (stepped : machine.step action = some (event, machine')) (undoes : action.undoes txnId) :
    RemovesOwn txnId machine machine' := by
  apply removesOwn_of_removed
  intro query
  cases transition_of_step stepped with
  | beginCommit | lookupKey | lookupDone | validate | unlockDone | abort | eraseDone | close =>
    exact .inl rfl
  | lockChain _ lookup | unlockChain _ lookup =>
    exact .inl (versions_relock lookup _ query)
  | @eraseVersion actor record todo chain thread lookup =>
    have same : actor = txnId := undoes
    subst same
    have versions : (machine.versions record.key) = chain.versions := by
      rw [Machine.versions, lookup]
      rfl
    have chainInv := inv.chains record.key chain lookup
    have position := (inv.own thread).position
    obtain ⟨chain', lookup', designated, present, sameNode, sameTxn, pending⟩ :=
      position.designates record mem_cons_self
    rw [lookup] at lookup'
    cases lookup'
    have erased : eraseNode record.node chain.versions =
        chain.versions.filter fun version => !version.pendingOf actor := by
      rw [eraseNode_eq_filter chainInv.nodesNodup]
      apply filter_congr
      intro version mem
      by_cases here : version.node = record.node
      · have is := inj_on_of_nodup_map chainInv.nodesNodup mem present (here.trans sameNode.symm)
        simp [is, Version.pendingOf, sameNode, sameTxn, pending]
      · have foreign : version.pendingOf actor = false := by
          rw [Bool.eq_false_iff]
          intro isPending
          have owner := (Version.pendingOf_iff.mp isPending).1
          have is := chainInv.eq_of_txnId_eq mem present (owner.trans sameTxn.symm)
          exact here (is ▸ sameNode)
        simp [here, foreign]
    by_cases here : query = record.key
    · right
      rw [here, versions, ← erased]
      exact (versions_setChain machine record.key record.key _).trans (if_pos rfl)
    · left
      exact (versions_setChain machine record.key query _).trans (if_neg here)
  | collector _ isGc =>
    cases action with
    | gcBegin | gcCollect | gcSweep | gcEnd => exact undoes.elim
    | _ => cases isGc
  | _ => exact undoes.elim

/-- For every interleaving of any calls at any isolation levels and of garbage-collection
passes: records and pending versions match; a transaction that is done has no pending
version; and the steps of `Abort` and of a conflicting `Commit` remove nothing but pending
versions of their own transaction and change nobody else's reads above `READ_UNCOMMITTED`. -/
theorem bookkeeping_exact {allowed : Action → Prop}
    (reachable : Reachable allowed (machine, history)) :
    Bookkeeping machine ∧
      (∀ txnId, machine.thread txnId = .closing ∨ machine.thread txnId = .finished →
        ∀ key, ∀ version ∈ machine.versions key, version.pendingOf txnId = false) ∧
      ∀ txnId action event machine', action.undoes txnId →
        machine.step action = some (event, machine') → RemovesOwn txnId machine machine' := by
  have inv : Inv machine history := inv_of_reachable reachable
  have bookkeeping := inv.bookkeeping
  refine ⟨bookkeeping, ?_, fun txnId action event machine' undoes stepped =>
    removesOwn_step inv stepped undoes⟩
  intro txnId done key version member
  rw [Bool.eq_false_iff]
  intro isPending
  rcases Version.pendingOf_iff.mp isPending with ⟨rfl, pending⟩
  have outstanding := (bookkeeping.owned member pending).1
  have none : machine.outstanding version.txnId = [] := by
    rw [Machine.outstanding]
    rcases done with phase | phase <;> rw [phase]
  rw [none] at outstanding
  cases outstanding

/-- Two transactions write a key and one of them is about to erase its version. -/
def abortingWriter : List Action :=
  [.drawTxnId .snapshot, .drawStartTs 0, .register 0, .write 0 7 false [1],
    .drawTxnId .snapshot, .drawStartTs 1, .register 1, .write 1 7 false [2], .abort 0]

theorem bookkeeping_exact_abortingWriter : ∃ machine history machine',
    runSchedule abortingWriter ({}, {}) = some (machine, history) ∧
    (machine.versions 7).length = 2 ∧ (machine'.versions 7).length = 1 ∧
    machine.step (.eraseVersion 0) = some (.rolledBack 0 7, machine') ∧
    Bookkeeping machine ∧ RemovesOwn 0 machine machine' := by
  have observed : (runSchedule abortingWriter ({}, {})).any fun state =>
      (state.1.step (.eraseVersion 0)).any fun next =>
        decide (next.1 = .rolledBack 0 7 ∧ (state.1.versions 7).length = 2 ∧
          (next.2.versions 7).length = 1) := by
    decide +kernel
  rcases (Option.any_eq_true _ _).mp observed with ⟨⟨machine, history⟩, ran, observed⟩
  rcases (Option.any_eq_true _ _).mp observed with ⟨⟨event, machine'⟩, stepped, observed⟩
  rcases of_decide_eq_true observed with ⟨isErase, before, after⟩
  subst isErase
  have reachable : Reachable (fun _ => True) (machine, history) :=
    reachable_of_runSchedule (fun _ _ => trivial) ran .refl
  rcases bookkeeping_exact reachable with ⟨bookkeeping, -, removes⟩
  exact ⟨machine, history, machine', ran, before, after, stepped, bookkeeping,
    removes 0 (.eraseVersion 0) _ machine' rfl stepped⟩

end DbEngine.Mvcc
