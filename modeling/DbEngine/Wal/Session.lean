import DbEngine.Lib.StateCalls
import DbEngine.Wal.Recovery

/-!
# Sessions

What an engine that logs keeps between its calls: the tree agrees with the log, each active
transaction has its chain of updates, nothing else is to be undone, and the last checkpoint
lists what a recovery would have to undo.
-/

namespace DbEngine.Wal

open Lib AList LogRecord WALBPlusTreeEngine

variable {policy : Policy} {log : List LogRecord} {record : LogRecord} {txnId : TxnId}
  {state : TxnState} {engine : WALBPlusTreeEngine}

/-! ## The chain of an active transaction -/

/-- Whether a record is an update by a transaction. -/
def LogRecord.isUpdateBy (txnId : TxnId) : LogRecord → Bool
  | .update owner _ _ _ _ => owner == txnId
  | _ => false

/-- The LSNs of the updates by a transaction since its `BEGIN`, newest first. -/
def updatesSince (txnId : TxnId) (first : Lsn) (log : List LogRecord) : List Lsn :=
  ((range log.length).filter fun lsn =>
    decide (first < lsn) && (log[lsn]?.any (isUpdateBy txnId))).reverse

/-- Following `prev_lsn` from a record back to the `BEGIN` at `first` visits these updates,
whose undo entries are in the undo log. -/
inductive Chain (log : List LogRecord) (txnId : TxnId) (first : Lsn) :
    Lsn → List Lsn → List UndoEntry → Prop where
  | begin (found : log[first]? = some (.begin txnId)) : Chain log txnId first first [] []
  | update {lsn next : Lsn}
      (found : log[lsn]? = some (.update txnId (some next) op key oldValue))
      (earlier : next < lsn) (restores : (computeCompensation op oldValue).value = oldValue)
      (before : Chain log txnId first next visited rest) :
      Chain log txnId first lsn (lsn :: visited)
        ({ op, key, oldValue, undoNextLsn := some next } :: rest)

/-- What undoing an entry restores. -/
def UndoEntry.image (entry : UndoEntry) : KeyType × Option Bytes := (entry.key, entry.oldValue)

/-- The log knows an active transaction: the chain from its last record visits exactly the
updates it made since its own `BEGIN`. -/
structure Tracks (log : List LogRecord) (txnId : TxnId) (state : TxnState) : Prop where
  live : (logState log).live txnId = true
  pending : (logState log).pending txnId = state.undoLog.map UndoEntry.image
  chain : ∃ first lsn, state.lastLsn = some lsn ∧
    (∀ later, first < later → log[later]? ≠ some (.begin txnId)) ∧
    Chain log txnId first lsn (updatesSince txnId first log) state.undoLog

lemma updatesSince_of_length_le (bound : log.length ≤ first + 1) :
    updatesSince txnId first log = [] := by
  rw [updatesSince, List.reverse_eq_nil_iff, filter_eq_nil_iff]
  intro lsn mem
  have inLog := mem_range.mp mem
  simp [Nat.not_lt.mpr (Nat.le_of_lt_succ (inLog.trans_le bound))]

lemma updatesSince_concat (bound : first < log.length) (record : LogRecord) :
    updatesSince txnId first (log ++ [record]) =
      if record.isUpdateBy txnId then log.length :: updatesSince txnId first log
      else updatesSince txnId first log := by
  have same : (range log.length).filter (fun lsn => decide (first < lsn) &&
      ((log ++ [record])[lsn]?.any (isUpdateBy txnId))) =
      (range log.length).filter (fun lsn => decide (first < lsn) &&
        (log[lsn]?.any (isUpdateBy txnId))) := by
    apply filter_congr
    intro lsn mem
    rw [getElem?_append_left (mem_range.mp mem)]
  rw [updatesSince, length_append, length_singleton, range_succ,
    filter_append, same, List.reverse_append]
  cases ours : record.isUpdateBy txnId <;> simp [bound, ours, updatesSince]

namespace Chain

variable {first lsn : Lsn} {visited : List Lsn} {undoLog : List UndoEntry}

section

variable (chain : Chain log txnId first lsn visited undoLog)
include chain

lemma append (more : List LogRecord) : Chain (log ++ more) txnId first lsn visited undoLog := by
  have kept {lsn : Lsn} {record : LogRecord} (found : log[lsn]? = some record) :
      (log ++ more)[lsn]? = some record := by
    rw [getElem?_append_left (getElem?_eq_some_iff.mp found).1]
    exact found
  induction chain with
  | begin found => exact .begin (kept found)
  | update found earlier restores _ ih => exact .update (kept found) earlier restores ih

lemma resume : Resume log txnId lsn (undoLog.map UndoEntry.image) := by
  induction chain with
  | begin found => exact .begin found
  | update found earlier restores _ ih => exact .update found earlier restores ih

lemma first_lt_length : first < log.length := by
  induction chain with
  | begin found => exact (getElem?_eq_some_iff.mp found).1
  | update _ _ _ _ ih => exact ih

lemma last_record : ∃ record, log[lsn]? = some record ∧ record.undoneBy = some txnId := by
  cases chain with
  | begin found | update found => exact ⟨_, found, rfl⟩

end

end Chain

/-- Records that are not the transaction's do not concern it. -/
lemma Tracks.concat_of_ne (tracks : Tracks log txnId state)
    (other : record.undoneBy ≠ some txnId) (running : ∀ prevLsn, record ≠ .commit txnId prevLsn) :
    Tracks (log ++ [record]) txnId state where
  live := by
    have live := tracks.live
    rw [logState_concat]
    cases record with
    | begin owner | update owner | clr owner =>
      have ne : txnId ≠ owner := by
        intro same
        subst same
        exact other rfl
      simpa [LogRecord.entry, TransactionLog.State.step, ne] using live
    | commit owner prevLsn =>
      have ne : txnId ≠ owner := by
        intro same
        subst same
        exact running prevLsn rfl
      simpa [LogRecord.entry, TransactionLog.State.step, ne] using live
    | _ => exact live
  pending := by
    rw [pending_concat_of_ne log other running]
    exact tracks.pending
  chain := by
    obtain ⟨first, lsn, last, unique, chain⟩ := tracks.chain
    refine ⟨first, lsn, last, ?_, ?_⟩
    · intro later beyond found
      rcases Nat.lt_or_ge later log.length with old | new
      · rw [getElem?_append_left old] at found
        exact unique later beyond found
      · rw [List.getElem?_append_right new] at found
        rcases mem_singleton.mp (mem_of_getElem? found) with rfl
        exact other rfl
    · have notUpdate : record.isUpdateBy txnId = false := by
        cases record with
        | update owner =>
          simp only [isUpdateBy, beq_eq_false_iff_ne]
          intro same
          subst same
          exact other rfl
        | _ => rfl
      rw [updatesSince_concat chain.first_lt_length, notUpdate]
      exact chain.append [record]

/-! ## The invariant -/

/-- What holds between the calls of an engine that logs.  While a transaction is aborted it
is not active and still has updates to be undone. -/
structure Running (policy : Policy) (aborting : Option TxnId) (engine : WALBPlusTreeEngine) :
    Prop extends InStep policy engine where
  walEnabled : engine.walEnabled = true
  active : ∀ {txnId state}, engine.activeTxns.lookup txnId = some state →
    Tracks engine.log txnId state ∧ some txnId ≠ aborting
  inactive : ∀ {txnId}, engine.activeTxns.lookup txnId = none → some txnId ≠ aborting →
    (logState engine.log).pending txnId = []
  fresh : ∀ {txnId}, engine.nextTxnId ≤ txnId → engine.activeTxns.lookup txnId = none
  checkpoint : CheckpointOk engine.log engine.lastCheckpointBeginLsn

/-- A policy that is only about writes. -/
structure Policy.AboutWrites (policy : Policy) : Prop where
  begin : ∀ state txnId, policy state (.begin txnId)
  undo : ∀ state txnId key value, policy state (.undo txnId key value)
  commit : ∀ state txnId, policy state (.commit txnId)

/-- What the invariant asks for one transaction. -/
def Settled (engine : WALBPlusTreeEngine) (aborting : Option TxnId) (txnId : TxnId) :
    Option TxnState → Prop
  | some state => Tracks engine.log txnId state ∧ some txnId ≠ aborting
  | none => some txnId ≠ aborting → (logState engine.log).pending txnId = []

namespace Running

variable {aborting : Option TxnId}

lemma settled (running : Running policy aborting engine) (txnId : TxnId) :
    Settled engine aborting txnId (engine.activeTxns.lookup txnId) := by
  cases found : engine.activeTxns.lookup txnId with
  | some state => exact running.active found
  | none => exact running.inactive found

variable {after : WALBPlusTreeEngine}

/-- A record of one transaction is appended, and only that transaction may change. -/
lemma append (running : Running policy aborting engine) (txnId : TxnId)
    (log_eq : after.log = engine.log ++ [record]) (inStep : InStep policy after)
    (enabled : after.walEnabled = true)
    (pointer : after.lastCheckpointBeginLsn = engine.lastCheckpointBeginLsn)
    (foreign : ∀ other, other ≠ txnId →
      record.undoneBy ≠ some other ∧ ∀ prevLsn, record ≠ .commit other prevLsn)
    (others : ∀ other, other ≠ txnId →
      after.activeTxns.lookup other = engine.activeTxns.lookup other ∧
        (some other = aborting' ↔ some other = aborting))
    (fresh : ∀ {other}, after.nextTxnId ≤ other → after.activeTxns.lookup other = none)
    (here : Settled after aborting' txnId (after.activeTxns.lookup txnId)) :
    Running policy aborting' after := by
  have all (other : TxnId) : Settled after aborting' other (after.activeTxns.lookup other) := by
    by_cases same : other = txnId
    · subst same
      exact here
    · rw [(others other same).1]
      have old := running.settled other
      cases found : engine.activeTxns.lookup other with
      | some state =>
        rw [found] at old
        rw [Settled, log_eq, Ne, (others other same).2]
        exact ⟨old.1.concat_of_ne (foreign other same).1 (foreign other same).2, old.2⟩
      | none =>
        rw [found] at old
        rw [Settled, log_eq, Ne, (others other same).2,
          pending_concat_of_ne _ (foreign other same).1 (foreign other same).2]
        exact old
  constructor
  · exact inStep
  · exact enabled
  · intro other state found
    have known := all other
    rw [found] at known
    exact known
  · intro other absent
    have known := all other
    rw [absent] at known
    exact known
  · exact fresh
  · rw [log_eq, pointer]
    exact running.checkpoint.append _

section

variable (running : Running policy none engine)
include running

lemma begin (about : policy.AboutWrites)
    (done : after = { engine with
      nextTxnId := engine.nextTxnId + 1
      log := engine.log ++ [.begin engine.nextTxnId]
      activeTxns := engine.activeTxns.insert engine.nextTxnId
        { lastLsn := some engine.log.length } }) : Running policy none after := by
  have idle := running.inactive (running.fresh le_rfl) nofun
  subst done
  refine running.append engine.nextTxnId rfl ⟨?_, ?_⟩ running.walEnabled rfl ?_ ?_ ?_ ?_
  · refine .concat running.logged idle ?_
    intro entry written
    cases written
    exact about.begin _ _
  · rw [contents_concat]
    exact running.tree_eq
  · intro other ne
    refine ⟨?_, nofun⟩
    intro ours
    cases ours
    exact ne rfl
  · intro other ne
    exact ⟨lookup_insert_ne ne, Iff.rfl⟩
  · intro other beyond
    have ne : other ≠ engine.nextTxnId := (Nat.lt_of_succ_le beyond).ne'
    exact (lookup_insert_ne ne).trans (running.fresh (Nat.le_of_succ_le beyond))
  · rw [lookup_insert]
    refine ⟨⟨?_, ?_, engine.log.length, engine.log.length, rfl, ?_, ?_⟩, nofun⟩
    · rw [logState_concat]
      simp [LogRecord.entry, TransactionLog.State.step]
    · rw [logState_concat]
      simp [LogRecord.entry, TransactionLog.State.step]
    · intro later beyond found
      have bound := (getElem?_eq_some_iff.mp found).1
      rw [length_append, length_singleton] at bound
      exact absurd bound (Nat.not_lt.mpr beyond)
    · rw [updatesSince_of_length_le (by simp)]
      exact .begin (by simp)

/-- An update by an active transaction. -/
lemma update {op : LogOp} {key : KeyType}
    (found : engine.activeTxns.lookup txnId = some state)
    (restores : (computeCompensation op (engine.tree key)).value = engine.tree key)
    (may : policy (logState engine.log) (.write txnId key op.value)) (done : after = { engine with
      log := engine.log ++ [.update txnId state.lastLsn op key (engine.tree key)]
      tree := Function.update engine.tree key op.value
      activeTxns := engine.activeTxns.insert txnId
        { lastLsn := some engine.log.length
          undoLog := { op, key, oldValue := engine.tree key, undoNextLsn := state.lastLsn } ::
            state.undoLog } }) : Running policy none after := by
  have tracks := (running.active found).1
  obtain ⟨first, lsn, last, unique, chain⟩ := tracks.chain
  have resume := chain.resume
  rw [← tracks.pending] at resume
  subst done
  refine running.append txnId rfl ⟨?_, ?_⟩ running.walEnabled rfl ?_ ?_ ?_ ?_
  · refine .concat running.logged ?_ ?_
    · exact ⟨congrFun running.tree_eq.symm key, restores, lsn, last, resume⟩
    · intro entry written
      cases written
      exact may
  · rw [contents_concat, ← running.tree_eq]
    rfl
  · intro other ne
    refine ⟨?_, nofun⟩
    intro ours
    cases ours
    exact ne rfl
  · intro other ne
    exact ⟨lookup_insert_ne ne, Iff.rfl⟩
  · intro other beyond
    have ne : other ≠ txnId := by
      intro same
      rw [← same, running.fresh beyond] at found
      cases found
    exact (lookup_insert_ne ne).trans (running.fresh beyond)
  · rw [lookup_insert]
    refine ⟨⟨?_, ?_, first, engine.log.length, rfl, ?_, ?_⟩, nofun⟩
    · rw [logState_concat]
      exact tracks.live
    · rw [logState_concat]
      simp [LogRecord.entry, TransactionLog.State.step, tracks.pending, UndoEntry.image,
        running.tree_eq]
    · intro later beyond found
      rcases Nat.lt_or_ge later engine.log.length with old | new
      · rw [getElem?_append_left old] at found
        exact unique later beyond found
      · rw [List.getElem?_append_right new] at found
        cases mem_singleton.mp (mem_of_getElem? found)
    · have ours : (LogRecord.update txnId state.lastLsn op key
          (engine.tree key)).isUpdateBy txnId = true := by
        simp [isUpdateBy]
      rw [updatesSince_concat chain.first_lt_length, ours, last]
      exact .update (by simp) resume.lt_length restores (chain.append _)

/-- The end of a transaction's life in the table of active ones. -/
lemma erase (record : LogRecord)
    (found : engine.activeTxns.lookup txnId = some state) (foreign : ∀ other, other ≠ txnId →
      record.undoneBy ≠ some other ∧ ∀ prevLsn, record ≠ .commit other prevLsn)
    (others : ∀ other, other ≠ txnId → some other ≠ aborting) (fits : Fits engine.log record)
    (may : ∀ {entry}, record.entry = some entry → policy (logState engine.log) entry)
    (kept : ∀ tree, record.redo tree = tree)
    (here : some txnId ≠ aborting → (logState (engine.log ++ [record])).pending txnId = [])
    (done : after = { engine with
      log := engine.log ++ [record]
      activeTxns := engine.activeTxns.erase txnId }) : Running policy aborting after := by
  subst done
  refine running.append txnId rfl ⟨.concat running.logged fits may, ?_⟩ running.walEnabled rfl
    foreign ?_ ?_ ?_
  · rw [contents_concat, kept]
    exact running.tree_eq
  · intro other ne
    refine ⟨lookup_erase_ne ne, ?_⟩
    constructor
    · intro same
      exact absurd same (others other ne)
    · nofun
  · intro other beyond
    have ne : other ≠ txnId := by
      intro same
      rw [← same, running.fresh beyond] at found
      cases found
    exact (lookup_erase_ne ne).trans (running.fresh beyond)
  · rw [lookup_erase]
    exact here

lemma commit (about : policy.AboutWrites)
    (found : engine.activeTxns.lookup txnId = some state) (done : after = { engine with
      log := engine.log ++ [.commit txnId state.lastLsn]
      activeTxns := engine.activeTxns.erase txnId }) : Running policy none after := by
  refine running.erase (.commit txnId state.lastLsn) found ?_ (fun _ _ => some_ne_none _)
    (running.active found).1.live ?_ (fun _ => rfl) ?_ done
  · intro other ne
    refine ⟨nofun, ?_⟩
    intro prevLsn same
    cases same
    exact ne rfl
  · intro entry written
    cases written
    exact about.commit _ _
  · exact fun _ => pending_concat_commit _ _

lemma startAbort (found : engine.activeTxns.lookup txnId = some state) (done : after = { engine with
      log := engine.log ++ [.abort txnId state.lastLsn]
      activeTxns := engine.activeTxns.erase txnId }) : Running policy (some txnId) after := by
  refine running.erase (.abort txnId state.lastLsn) found (fun _ _ => ⟨nofun, nofun⟩) ?_ trivial
    nofun (fun _ => rfl) ?_ done
  · intro other ne same
    exact ne (Option.some.inj same)
  · exact fun ne => absurd rfl ne

end

/-- One iteration of the loop of `Abort`. -/
lemma compensate (running : Running policy (some txnId) engine) (about : policy.AboutWrites)
    {first lsn : Lsn} {entry : UndoEntry}
    (chain : Chain engine.log txnId first lsn visited (entry :: rest))
    (pending : (logState engine.log).pending txnId = (entry :: rest).map UndoEntry.image)
    (prevLsn : Option Lsn)
    (done : after = (engine.applyOp (computeCompensation entry.op entry.oldValue)
      entry.key).append (.clr txnId prevLsn (computeCompensation entry.op entry.oldValue)
        entry.key entry.undoNextLsn)) : Running policy (some txnId) after ∧
      (logState after.log).pending txnId = rest.map UndoEntry.image ∧
      ∃ first lsn visited, Chain after.log txnId first lsn visited rest := by
  cases chain with
  | @update op key oldValue visited _ _ next found earlier restores before =>
    have step := Undone.compensate prevLsn about.undo running.toInStep found restores pending
      before.resume done
    have log_eq : after.log = engine.log ++ [.clr txnId prevLsn
        (computeCompensation op oldValue) key (some next)] := by
      rw [done]
      rfl
    have table : after.activeTxns = engine.activeTxns := by
      rw [done]
      rfl
    refine ⟨?_, step.2.1, first, next, visited, log_eq ▸ before.append _⟩
    refine running.append txnId log_eq step.1.inStep ?_ ?_ ?_ ?_ ?_ ?_
    · rw [done]
      exact running.walEnabled
    · rw [done]
      rfl
    · intro other ne
      refine ⟨?_, nofun⟩
      intro ours
      cases ours
      exact ne rfl
    · intro other _
      exact ⟨by rw [table], Iff.rfl⟩
    · intro other beyond
      rw [table]
      apply running.fresh
      rw [done] at beyond
      exact beyond
    · rw [table]
      cases active : engine.activeTxns.lookup txnId with
      | some state => exact absurd rfl (running.active active).2
      | none => exact fun ne => absurd rfl ne

lemma finishAbort (running : Running policy (some txnId) engine)
    (idle : (logState engine.log).pending txnId = []) : Running policy none engine where
  toInStep := running.toInStep
  walEnabled := running.walEnabled
  active := fun found => ⟨(running.active found).1, nofun⟩
  inactive := by
    intro other absent _
    by_cases same : other = txnId
    · rw [same]
      exact idle
    · exact running.inactive absent fun equal => same (Option.some.inj equal)
  fresh := running.fresh
  checkpoint := running.checkpoint

/-! ## Checkpoints -/

/-- Records that are about no transaction. -/
lemma appendNeutral (running : Running policy none engine) (records : List LogRecord)
    (neutral : ∀ record ∈ records, record.entry = none ∧ record.undoneBy = none) :
    Running policy none { engine with log := engine.log ++ records } := by
  induction records using reverseRecOn with
  | nil =>
    rw [append_nil]
    exact running
  | append_singleton records record ih =>
    have before := ih fun other mem => neutral other (mem_append_left _ mem)
    have quiet := neutral record (by simp)
    have foreign (other : TxnId) :
        record.undoneBy ≠ some other ∧ ∀ prevLsn, record ≠ .commit other prevLsn := by
      constructor
      · rw [quiet.2]
        nofun
      · intro prevLsn same
        rw [same] at quiet
        cases quiet.1
    have log_eq : engine.log ++ (records ++ [record]) = engine.log ++ records ++ [record] :=
      (append_assoc ..).symm
    have redone (tree : Contents) : record.redo tree = tree := by
      cases record with
      | update | clr => cases quiet.1
      | _ => rfl
    refine before.append 0 log_eq ⟨?_, ?_⟩ running.walEnabled rfl (fun other _ => foreign other)
      (fun _ _ => ⟨rfl, Iff.rfl⟩) running.fresh ?_
    · rw [log_eq]
      refine .concat before.logged ?_ ?_
      · cases record with
        | begin | update | clr => cases quiet.2
        | commit => cases quiet.1
        | _ => trivial
      · intro entry written
        rw [quiet.1] at written
        cases written
    · rw [log_eq, contents_concat, redone]
      exact before.tree_eq
    · have old := before.settled 0
      cases found : engine.activeTxns.lookup 0 with
      | some state =>
        rw [found] at old
        refine ⟨?_, nofun⟩
        rw [log_eq]
        exact old.1.concat_of_ne (foreign 0).1 (foreign 0).2
      | none =>
        rw [found] at old
        rw [Settled, log_eq, pending_concat_of_ne _ (foreign 0).1 (foreign 0).2]
        exact old

end Running

end DbEngine.Wal
