import DbEngine.Wal.Session

/-!
# The calls of the interface

Every call of the public interface keeps the invariant of a session, whether it returns or
throws, and only appends to the log.
-/

namespace DbEngine.Wal

open Lib WALBPlusTreeEngine

/-- The calls that change an engine. -/
inductive ApiCall where
  | begin
  | put (txnId : TxnId) (key : KeyType) (value : Bytes)
  | delete (txnId : TxnId) (key : KeyType)
  | commit (order : CheckpointOrder) (txnId : TxnId)
  | abort (order : CheckpointOrder) (txnId : TxnId)
  | putImplicit (order : CheckpointOrder) (key : KeyType) (value : Bytes)
  | deleteImplicit (order : CheckpointOrder) (key : KeyType)

namespace ApiCall

/-- The engine after a call, whether it returns or throws. -/
def after (engine : WALBPlusTreeEngine) : ApiCall → WALBPlusTreeEngine
  | .begin => finalState (WALBPlusTreeEngine.begin engine)
  | .put txnId key value => finalState (WALBPlusTreeEngine.put txnId key value engine)
  | .delete txnId key => finalState (WALBPlusTreeEngine.delete txnId key engine)
  | .commit order txnId => finalState (WALBPlusTreeEngine.commit order txnId engine)
  | .abort order txnId => finalState (WALBPlusTreeEngine.abort order txnId engine)
  | .putImplicit order key value =>
    finalState (WALBPlusTreeEngine.putImplicit order key value engine)
  | .deleteImplicit order key =>
    finalState (WALBPlusTreeEngine.deleteImplicit order key engine)

end ApiCall

/-- Which writes a client is free to make. -/
abbrev Discipline := WALBPlusTreeEngine → TxnId → KeyType → Prop

/-- `Put` writes: it throws neither for the value nor for the transaction. -/
def Puts (engine : WALBPlusTreeEngine) (txnId : TxnId) (value : Bytes) : Prop :=
  value.length ≤ MAX_VALUE_SIZE ∧ engine.activeTxns.lookup txnId ≠ none

/-- `Delete` writes: it finds the transaction and the key. -/
def Deletes (engine : WALBPlusTreeEngine) (txnId : TxnId) (key : KeyType) : Prop :=
  engine.activeTxns.lookup txnId ≠ none ∧ engine.tree key ≠ none

instance (engine : WALBPlusTreeEngine) (txnId : TxnId) (value : Bytes) :
    Decidable (Puts engine txnId value) :=
  inferInstanceAs (Decidable (_ ∧ _))

instance (engine : WALBPlusTreeEngine) (txnId : TxnId) (key : KeyType) :
    Decidable (Deletes engine txnId key) :=
  inferInstanceAs (Decidable (_ ∧ _))

/-- A call meets the discipline at its write, if it makes one. -/
def Discipline.Permits (may : Discipline) (engine : WALBPlusTreeEngine) : ApiCall → Prop
  | .put txnId key value => Puts engine txnId value → may engine txnId key
  | .delete txnId key => Deletes engine txnId key → may engine txnId key
  | .putImplicit _ key value =>
    let begun := ApiCall.begin.after engine
    Puts begun engine.nextTxnId value → may begun engine.nextTxnId key
  | .deleteImplicit _ key =>
    let begun := ApiCall.begin.after engine
    Deletes begun engine.nextTxnId key → may begun engine.nextTxnId key
  | .begin | .commit _ _ | .abort _ _ => True

/-- A policy for the log that clients keep to by their discipline. -/
structure Enforces (may : Discipline) (policy : Policy) : Prop extends policy.AboutWrites where
  write : ∀ {engine txnId key value}, Running policy none engine → may engine txnId key →
    policy (logState engine.log) (.write txnId key value)

variable {may : Discipline} {policy : Policy} {engine : WALBPlusTreeEngine} {txnId : TxnId}
  {state : TxnState}

/-- A call keeps the invariant and only appends to the log. -/
structure Kept (policy : Policy) (before after : WALBPlusTreeEngine) : Prop where
  running : Running policy none after
  grown : ∃ more, after.log = before.log ++ more

lemma Kept.refl (running : Running policy none engine) : Kept policy engine engine :=
  ⟨running, [], (append_nil _).symm⟩

lemma Kept.trans {first second third : WALBPlusTreeEngine} (left : Kept policy first second)
    (right : Kept policy second third) : Kept policy first third := by
  obtain ⟨more, log_eq⟩ := left.grown
  obtain ⟨more', log_eq'⟩ := right.grown
  refine ⟨right.running, more ++ more', ?_⟩
  rw [log_eq', log_eq, append_assoc]

lemma Kept.of_append {before middle after : WALBPlusTreeEngine} {record : LogRecord}
    (kept : Kept policy middle after) (appended : middle.log = before.log ++ [record]) :
    Kept policy before after := by
  obtain ⟨more, log_eq⟩ := kept.grown
  refine ⟨kept.running, record :: more, ?_⟩
  rw [log_eq, appended, append_assoc]
  rfl

/-! ## The pieces of the calls -/

lemma appendIfEnabled_ok (enabled : engine.walEnabled = true) (record : LogRecord)
    (lastLsn : Option Lsn) : appendIfEnabled record lastLsn engine =
      .ok (some engine.log.length) (engine.append record) := by
  rw [appendIfEnabled, run_get_bind, enabled]
  rfl

lemma findTxn_ok (found : engine.activeTxns.lookup txnId = some state) :
    findTxn caller txnId engine = .ok state engine := by
  rw [findTxn, run_get_bind, found]
  rfl

variable {α : Type} {caller : String} {next : TxnState → Call α} {key : KeyType}

/-- A call on a transaction that is not active throws and changes nothing. -/
lemma finalState_unknown (missing : engine.activeTxns.lookup txnId = none) :
    finalState ((findTxn caller txnId >>= next) engine) = engine := by
  have ran : findTxn caller txnId engine = .error (.runtimeError
      ("WALBPlusTreeEngine::" ++ caller ++ ": unknown or already-finished transaction"))
      engine := by
    rw [findTxn, run_get_bind, missing]
    rfl
  rw [bind_of_error ran]
  rfl

lemma finalState_findTxn {motive : WALBPlusTreeEngine → Prop} (unchanged : motive engine)
    (continues : ∀ {state}, engine.activeTxns.lookup txnId = some state →
      motive (finalState (next state engine))) :
    motive (finalState ((findTxn caller txnId >>= next) engine)) := by
  cases found : engine.activeTxns.lookup txnId with
  | none =>
    rw [finalState_unknown found]
    exact unchanged
  | some state =>
    rw [bind_of_ok (findTxn_ok found)]
    exact continues found

lemma countTxn_kept (running : Running policy none engine) (order : CheckpointOrder) :
    Kept policy engine (countTxn order engine) := by
  rw [countTxn]
  split
  · have bracketed := running.appendNeutral (bracket (order.visit engine.activeTxns.entries)) (by
      intro record mem
      simp only [bracket, mem_cons, mem_append, mem_map, not_mem_nil, or_false] at mem
      rcases mem with rfl | ⟨entry, -, rfl⟩ | rfl <;> exact ⟨rfl, rfl⟩)
    refine ⟨?_, _, rfl⟩
    constructor
    · exact ⟨bracketed.logged, bracketed.tree_eq⟩
    · exact running.walEnabled
    · exact bracketed.active
    · exact bracketed.inactive
    · exact running.fresh
    · refine ⟨engine.log, order.visit engine.activeTxns.entries, [], by simp [doCheckpoint], rfl,
        ?_, ?_⟩
      · intro entry mem
        have found := AList.mem_lookup_iff.mpr ((order.perm _).mem_iff.mp mem)
        obtain ⟨first, lsn, last, -, chain⟩ := (running.active found).1.chain
        obtain ⟨record, there, ours⟩ := chain.last_record
        exact ⟨lsn, record, last, there, ours⟩
      · intro txnId pending
        cases found : engine.activeTxns.lookup txnId with
        | none => exact absurd (running.inactive found (by rintro ⟨⟩)) pending
        | some state =>
          have mem := AList.mem_lookup_iff.mp found
          exact ⟨⟨txnId, state⟩, (order.perm _).mem_iff.mpr mem, rfl⟩
  · exact ⟨{ running with }, [], (append_nil _).symm⟩

/-! ## The calls -/

lemma restores_put (value : Bytes) (oldValue : Option Bytes) :
    (computeCompensation (.put value) oldValue).value = oldValue := by
  cases oldValue <;> rfl

/-- The loop of `Abort` undoes the rest of the undo log. -/
lemma undoEntries_kept {first lsn : Lsn} (entries : List UndoEntry) (lastLsn : Option Lsn)
    (running : Running policy (some txnId) engine) (about : policy.AboutWrites)
    (chain : Chain engine.log txnId first lsn visited entries)
    (pending : (logState engine.log).pending txnId = entries.map UndoEntry.image) :
    ∃ after, undoEntries txnId entries lastLsn engine = .ok () after ∧
      Kept policy engine after := by
  induction entries generalizing engine first lsn visited lastLsn with
  | nil => exact ⟨engine, rfl, .refl (running.finishAbort pending)⟩
  | cons entry rest ih =>
    obtain ⟨running', pending', first', lsn', visited', chain'⟩ :=
      running.compensate about chain pending lastLsn rfl
    obtain ⟨after, ran, kept⟩ := ih (some engine.log.length) running' chain' pending'
    refine ⟨after, ?_, kept.of_append rfl⟩
    have enabled : (engine.applyOp (computeCompensation entry.op entry.oldValue)
        entry.key).walEnabled = true :=
      running.walEnabled
    rw [undoEntries, run_modify_bind, bind_of_ok (appendIfEnabled_ok enabled _ _)]
    exact ran

section

variable (running : Running policy none engine)
include running

lemma begin_kept (about : policy.AboutWrites) :
    ∃ after, WALBPlusTreeEngine.begin engine = .ok engine.nextTxnId after ∧
      Kept policy engine after ∧
      after.activeTxns.lookup engine.nextTxnId = some { lastLsn := some engine.log.length } := by
  refine ⟨_, ?_, ⟨running.begin about rfl, _, rfl⟩, AList.lookup_insert _⟩
  have enabled : ({ engine with nextTxnId := engine.nextTxnId + 1 }).walEnabled = true :=
    running.walEnabled
  rw [WALBPlusTreeEngine.begin, run_get_bind, run_modify_bind,
    bind_of_ok (appendIfEnabled_ok enabled _ _)]
  rfl

lemma logAndApply_kept (found : engine.activeTxns.lookup txnId = some state)
    (restores : (computeCompensation op (engine.tree key)).value = engine.tree key)
    (may : policy (logState engine.log) (.write txnId key op.value)) :
    ∃ after, logAndApply txnId state op key (engine.tree key) engine = .ok () after ∧
      Kept policy engine after := by
  refine ⟨_, ?_, running.update found restores may rfl, _, rfl⟩
  rw [logAndApply, bind_of_ok (appendIfEnabled_ok running.walEnabled _ _)]
  rfl

lemma put_kept (enforces : Enforces may policy)
    (permitted : Puts engine txnId value → may engine txnId key) :
    Kept policy engine (finalState (put txnId key value engine)) := by
  rw [put]
  split
  · exact .refl running
  next small =>
    apply finalState_findTxn (motive := Kept policy engine) (.refl running)
    intro state found
    have puts : Puts engine txnId value := ⟨Nat.not_lt.mp small, found.symm ▸ some_ne_none state⟩
    rcases logAndApply_kept running found (restores_put value (engine.tree key))
      (enforces.write running (permitted puts)) with ⟨after, ran, kept⟩
    rw [run_get_bind, ran]
    exact kept

lemma delete_kept (enforces : Enforces may policy)
    (permitted : Deletes engine txnId key → may engine txnId key) :
    Kept policy engine (finalState (delete txnId key engine)) := by
  rw [delete]
  apply finalState_findTxn (motive := Kept policy engine) (.refl running)
  intro state found
  rw [run_get_bind]
  cases holds : engine.tree key with
  | none => exact .refl running
  | some oldValue =>
    have restores : (computeCompensation .delete (engine.tree key)).value = engine.tree key := by
      rw [holds]
      rfl
    have deletes : Deletes engine txnId key :=
      ⟨found.symm ▸ some_ne_none state, holds.symm ▸ some_ne_none oldValue⟩
    rcases logAndApply_kept running found restores
      (enforces.write running (permitted deletes)) with ⟨after, ran, kept⟩
    rw [holds] at ran
    simp only
    rw [bind_of_ok ran]
    exact kept

lemma commit_kept (about : policy.AboutWrites)
    (order : CheckpointOrder) (txnId : TxnId) :
    Kept policy engine (finalState (commit order txnId engine)) := by
  rw [commit]
  apply finalState_findTxn (motive := Kept policy engine) (.refl running)
  intro state found
  rw [bind_of_ok (appendIfEnabled_ok running.walEnabled _ _), run_modify_bind]
  have committed := running.commit about found rfl
  exact Kept.trans ⟨committed, _, rfl⟩ (countTxn_kept committed order)

lemma abort_kept (about : policy.AboutWrites)
    (order : CheckpointOrder) (txnId : TxnId) :
    Kept policy engine (finalState (abort order txnId engine)) := by
  rw [abort]
  apply finalState_findTxn (motive := Kept policy engine) (.refl running)
  intro state found
  let erased := { engine with activeTxns := engine.activeTxns.erase txnId }
  have enabled : erased.walEnabled = true := running.walEnabled
  rw [run_modify_bind, bind_of_ok (appendIfEnabled_ok enabled _ _)]
  have aborting := running.startAbort found rfl
  have tracks := (running.active found).1
  obtain ⟨first, lsn, -, -, chain⟩ := tracks.chain
  have pending : (logState (engine.log ++ [.abort txnId state.lastLsn])).pending txnId =
      (logState engine.log).pending txnId :=
    pending_concat_of_ne engine.log nofun nofun
  rcases undoEntries_kept state.undoLog (some engine.log.length) aborting about
    (chain.append [.abort txnId state.lastLsn]) (pending.trans tracks.pending) with
    ⟨after, ran, kept⟩
  have ran : undoEntries txnId state.undoLog (some erased.log.length)
      (erased.append (.abort txnId state.lastLsn)) = .ok () after := ran
  rw [bind_of_ok ran]
  exact (kept.of_append rfl).trans (countTxn_kept kept.running order)

/-- A call keeps the invariant when its write is permitted. -/
lemma after_kept (enforces : Enforces may policy)
    (call : ApiCall) (permitted : may.Permits engine call) :
    Kept policy engine (call.after engine) := by
  cases call with
  | begin =>
    obtain ⟨after, ran, kept, -⟩ := begin_kept running enforces.toAboutWrites
    rw [ApiCall.after, ran]
    exact kept
  | put txnId key value => exact put_kept running enforces permitted
  | delete txnId key => exact delete_kept running enforces permitted
  | commit order txnId => exact commit_kept running enforces.toAboutWrites order txnId
  | abort order txnId => exact abort_kept running enforces.toAboutWrites order txnId
  | putImplicit order key value =>
    obtain ⟨begun, ran, kept, -⟩ := begin_kept running enforces.toAboutWrites
    rw [Discipline.Permits, ApiCall.after, ran] at permitted
    rw [ApiCall.after, putImplicit, bind_of_ok ran]
    apply finalState_bind (motive := Kept policy engine)
    · exact kept.trans (put_kept kept.running enforces permitted)
    · intro _ after _ written
      exact written.trans (commit_kept written.running enforces.toAboutWrites order _)
  | deleteImplicit order key =>
    obtain ⟨begun, ran, kept, -⟩ := begin_kept running enforces.toAboutWrites
    rw [Discipline.Permits, ApiCall.after, ran] at permitted
    rw [ApiCall.after, deleteImplicit, bind_of_ok ran]
    apply finalState_bind (motive := Kept policy engine)
    · exact kept.trans (delete_kept kept.running enforces permitted)
    · intro existed after _ written
      apply finalState_bind (motive := Kept policy engine)
      · exact written.trans (commit_kept written.running enforces.toAboutWrites order _)
      · exact fun _ committed => committed

end

end DbEngine.Wal
