import DbEngine.Wal.Runs

/-!
# What a call does

Each call of the interface, with the log kept or not, is a sequence of a few changes to the
engine: a transaction starts, writes, ends or is undone, and the count of transactions is
kept.  What holds along a session is read off these.
-/

namespace DbEngine.Wal

open Lib Function WALBPlusTreeEngine

/-- Who wrote each key last. -/
abbrev Writers := KeyType → Option TxnId

/-- The last writers after a call. -/
def ApiCall.writers (engine : WALBPlusTreeEngine) (writers : Writers) : ApiCall → Writers
  | .put txnId key value =>
    if Puts engine txnId value then update writers key (some txnId) else writers
  | .delete txnId key =>
    if Deletes engine txnId key then update writers key (some txnId) else writers
  | .putImplicit _ key value =>
    if Puts (ApiCall.begin.after engine) engine.nextTxnId value then
      update writers key (some engine.nextTxnId)
    else writers
  | .deleteImplicit _ key =>
    if Deletes (ApiCall.begin.after engine) engine.nextTxnId key then
      update writers key (some engine.nextTxnId)
    else writers
  | .begin | .commit _ _ | .abort _ _ => writers

variable {may : Discipline} {ends : TxnId → Prop} {engine : WALBPlusTreeEngine}
  {writers : Writers} {txnId : TxnId} {state : TxnState}

/-! ## The changes -/

/-- A log that has grown by records other than those of a checkpoint's table. -/
def Appended (log log' : List LogRecord) : Prop :=
  ∃ more, log' = log ++ more ∧ ∀ txnId lastLsn, .activeTxn txnId lastLsn ∉ more

lemma Appended.trans (left : Appended first second) (right : Appended second third) :
    Appended first third := by
  obtain ⟨more, rfl, plain⟩ := left
  obtain ⟨more', rfl, plain'⟩ := right
  refine ⟨more ++ more', append_assoc .., ?_⟩
  intro txnId lastLsn mem
  exact (mem_append.mp mem).elim (plain _ _) (plain' _ _)

/-- The tree after some entries of an undo log were undone. -/
def undone : List UndoEntry → Contents → Contents
  | [], tree => tree
  | entry :: rest, tree =>
    undone rest (update tree entry.key
      (computeCompensation entry.op entry.oldValue).value)

variable {key : KeyType} {value : Bytes} {table : AList fun _ : TxnId => TxnState} {other : TxnId}

lemma undone_of_elsewhere {entries : List UndoEntry}
    (elsewhere : ∀ entry ∈ entries, entry.key ≠ key) (tree : Contents) :
    undone entries tree key = tree key := by
  induction entries generalizing tree with
  | nil => rfl
  | cons entry rest ih =>
    rw [undone, ih fun other mem => elsewhere other (mem_cons_of_mem _ mem)]
    exact update_of_ne (elsewhere entry mem_cons_self).symm _ _

namespace WALBPlusTreeEngine

variable (engine : WALBPlusTreeEngine) (log : List LogRecord)

/-- A transaction has started. -/
def begun (lastLsn : Option Lsn) : WALBPlusTreeEngine :=
  { engine with
    log
    nextTxnId := engine.nextTxnId + 1
    activeTxns := engine.activeTxns.insert engine.nextTxnId { lastLsn } }

/-- A transaction has written a key. -/
def wrote (txnId : TxnId) (state : TxnState) (op : LogOp) (key : KeyType)
    (lastLsn : Option Lsn) : WALBPlusTreeEngine :=
  { engine with
    log
    tree := update engine.tree key op.value
    activeTxns := engine.activeTxns.insert txnId
      { lastLsn, undoLog := ⟨op, key, engine.tree key, state.lastLsn⟩ :: state.undoLog } }

/-- A transaction has ended, with its entries of the undo log undone. -/
def ended (txnId : TxnId) (entries : List UndoEntry) : WALBPlusTreeEngine :=
  { engine with
    log
    tree := undone entries engine.tree
    activeTxns := engine.activeTxns.erase txnId }

end WALBPlusTreeEngine

/-- A change to the engine and to who wrote each key last, by clients that keep to a
discipline; `ends` are the transactions they may end. -/
inductive Move (may : Discipline) (ends : TxnId → Prop) :
    WALBPlusTreeEngine × Writers → WALBPlusTreeEngine × Writers → Prop where
  | begun {engine : WALBPlusTreeEngine} {writers : Writers}
      (lastLsn : Option Lsn) (appended : Appended engine.log all) :
      Move may ends (engine, writers) (engine.begun all lastLsn, writers)
  | wrote {engine : WALBPlusTreeEngine} {writers : Writers}
      {txnId : TxnId} {state : TxnState} {op : LogOp} {key : KeyType} (lastLsn : Option Lsn)
      (appended : Appended engine.log all)
      (found : engine.activeTxns.lookup txnId = some state)
      (restores : (computeCompensation op (engine.tree key)).value = engine.tree key)
      (permitted : may engine txnId key) :
      Move may ends (engine, writers)
        (engine.wrote all txnId state op key lastLsn, update writers key (some txnId))
  | committed {engine : WALBPlusTreeEngine} {writers : Writers}
      {txnId : TxnId} (appended : Appended engine.log all) (may_end : ends txnId) :
      Move may ends (engine, writers) (engine.ended all txnId [], writers)
  | aborted {engine : WALBPlusTreeEngine} {writers : Writers}
      {txnId : TxnId} {state : TxnState} (appended : Appended engine.log all)
      (found : engine.activeTxns.lookup txnId = some state) (may_end : ends txnId) :
      Move may ends (engine, writers) (engine.ended all txnId state.undoLog, writers)
  | counted {engine : WALBPlusTreeEngine} {writers : Writers} (order : CheckpointOrder) :
      Move may ends (engine, writers) (countTxn order engine, writers)

abbrev Moves (may : Discipline) (ends : TxnId → Prop) :=
  Relation.ReflTransGen (Move may ends)

/-! ## The calls -/

lemma appendIfEnabled_run (plain : ∀ txnId lastLsn, record ≠ .activeTxn txnId lastLsn)
    (lastLsn : Option Lsn) (engine : WALBPlusTreeEngine) :
    ∃ lsn log, appendIfEnabled record lastLsn engine = .ok lsn { engine with log } ∧
      Appended engine.log log := by
  rw [appendIfEnabled, run_get_bind]
  by_cases enabled : engine.walEnabled = true
  · rw [if_pos enabled]
    refine ⟨_, _, rfl, [record], rfl, ?_⟩
    intro txnId lastLsn mem
    exact plain txnId lastLsn (mem_singleton.mp mem).symm
  · rw [if_neg enabled]
    exact ⟨_, _, rfl, [], (append_nil _).symm, by rintro _ _ ⟨⟩⟩

lemma begin_run (engine : WALBPlusTreeEngine) : ∃ log lastLsn, WALBPlusTreeEngine.begin engine =
        .ok engine.nextTxnId (engine.begun log lastLsn) ∧ Appended engine.log log := by
  let numbered := { engine with nextTxnId := engine.nextTxnId + 1 }
  rcases appendIfEnabled_run (nofun : ∀ txnId lastLsn,
    LogRecord.begin engine.nextTxnId ≠ .activeTxn txnId lastLsn) none numbered with
    ⟨lastLsn, log, ran, appended⟩
  refine ⟨log, lastLsn, ?_, appended⟩
  rw [WALBPlusTreeEngine.begin, run_get_bind, run_modify_bind, bind_of_ok ran]
  rfl

lemma logAndApply_run (op : LogOp) (key : KeyType) (txnId : TxnId) (state : TxnState)
    (engine : WALBPlusTreeEngine) :
    ∃ log lastLsn, logAndApply txnId state op key (engine.tree key) engine =
        .ok () (engine.wrote log txnId state op key lastLsn) ∧ Appended engine.log log := by
  rcases appendIfEnabled_run (nofun : ∀ owner lastLsn,
    LogRecord.update txnId state.lastLsn op key (engine.tree key) ≠ .activeTxn owner lastLsn)
    state.lastLsn engine with ⟨lastLsn, log, ran, appended⟩
  refine ⟨log, lastLsn, ?_, appended⟩
  rw [logAndApply, bind_of_ok ran]
  rfl

lemma put_run (key : KeyType) (small : value.length ≤ MAX_VALUE_SIZE)
    (found : engine.activeTxns.lookup txnId = some state) :
    ∃ log lastLsn, put txnId key value engine =
        .ok () (engine.wrote log txnId state (.put value) key lastLsn) ∧
      Appended engine.log log := by
  obtain ⟨log, lastLsn, ran, appended⟩ := logAndApply_run (.put value) key txnId state engine
  refine ⟨log, lastLsn, ?_, appended⟩
  rw [put, if_neg (Nat.not_lt.mpr small)]
  exact (bind_of_ok (findTxn_ok found)).trans ran

lemma delete_run (found : engine.activeTxns.lookup txnId = some state)
    (holds : engine.tree key = some oldValue) : ∃ log lastLsn, delete txnId key engine =
        .ok true (engine.wrote log txnId state .delete key lastLsn) ∧ Appended engine.log log := by
  obtain ⟨log, lastLsn, ran, appended⟩ := logAndApply_run .delete key txnId state engine
  refine ⟨log, lastLsn, ?_, appended⟩
  rw [holds] at ran
  rw [delete, bind_of_ok (findTxn_ok found), run_get_bind, holds]
  simp only
  rw [bind_of_ok ran]
  rfl

lemma commit_run (order : CheckpointOrder) (found : engine.activeTxns.lookup txnId = some state) :
    ∃ log, commit order txnId engine = .ok () (countTxn order (engine.ended log txnId [])) ∧
      Appended engine.log log := by
  rcases appendIfEnabled_run (nofun : ∀ owner lastLsn,
    LogRecord.commit txnId state.lastLsn ≠ .activeTxn owner lastLsn) none engine with
    ⟨lsn, log, ran, appended⟩
  refine ⟨log, ?_, appended⟩
  rw [commit, bind_of_ok (findTxn_ok found), bind_of_ok ran]
  rfl

/-- The loop of `Abort`. -/
lemma undoEntries_run (entries : List UndoEntry) (lastLsn : Option Lsn)
    (engine : WALBPlusTreeEngine) : ∃ log, undoEntries txnId entries lastLsn engine =
        .ok () { engine with log, tree := undone entries engine.tree } ∧
      Appended engine.log log := by
  induction entries generalizing engine lastLsn with
  | nil => exact ⟨engine.log, rfl, [], (append_nil _).symm, nofun⟩
  | cons entry rest ih =>
    let op := computeCompensation entry.op entry.oldValue
    rcases appendIfEnabled_run (nofun : ∀ owner lsn,
      LogRecord.clr txnId lastLsn op entry.key entry.undoNextLsn ≠ .activeTxn owner lsn)
      lastLsn (engine.applyOp op entry.key) with ⟨lsn, log, ran, appended⟩
    rcases ih lsn { engine.applyOp op entry.key with log } with ⟨log', ran', appended'⟩
    refine ⟨log', ?_, appended.trans appended'⟩
    rw [undoEntries, run_modify_bind, bind_of_ok ran]
    exact ran'

lemma abort_run (order : CheckpointOrder) (found : engine.activeTxns.lookup txnId = some state) :
    ∃ log, abort order txnId engine =
        .ok () (countTxn order (engine.ended log txnId state.undoLog)) ∧
      Appended engine.log log := by
  let erased := { engine with activeTxns := engine.activeTxns.erase txnId }
  rcases appendIfEnabled_run (nofun : ∀ owner lastLsn,
    LogRecord.abort txnId state.lastLsn ≠ .activeTxn owner lastLsn) state.lastLsn erased with
    ⟨lsn, log, logged, appended⟩
  rcases undoEntries_run state.undoLog lsn { erased with log } with ⟨log', ran, appended'⟩
  refine ⟨log', ?_, appended.trans appended'⟩
  rw [abort, bind_of_ok (findTxn_ok found), run_modify_bind, bind_of_ok logged, bind_of_ok ran]
  rfl

/-! ## Every call is made of changes -/

lemma put_moves (permitted : Puts engine txnId value → may engine txnId key) :
    Moves may ends (engine, writers) (finalState (put txnId key value engine),
      if Puts engine txnId value then update writers key (some txnId) else writers) := by
  by_cases puts : Puts engine txnId value
  · obtain ⟨state, found⟩ := ne_none_iff_exists'.mp puts.2
    obtain ⟨log, lastLsn, ran, appended⟩ := put_run key puts.1 found
    rw [if_pos puts, ran]
    exact .single (.wrote lastLsn appended found (restores_put value _) (permitted puts))
  · rw [if_neg puts, put]
    split
    · exact .refl
    next small =>
      apply finalState_findTxn (motive := fun after => Moves may ends _ (after, writers)) .refl
      intro state found
      exact absurd ⟨Nat.not_lt.mp small, found.symm ▸ some_ne_none state⟩ puts

lemma delete_moves (permitted : Deletes engine txnId key → may engine txnId key) :
    Moves may ends (engine, writers) (finalState (delete txnId key engine),
      if Deletes engine txnId key then update writers key (some txnId) else writers) := by
  by_cases deletes : Deletes engine txnId key
  · obtain ⟨state, found⟩ := ne_none_iff_exists'.mp deletes.1
    obtain ⟨oldValue, holds⟩ := ne_none_iff_exists'.mp deletes.2
    obtain ⟨log, lastLsn, ran, appended⟩ := delete_run found holds
    rw [if_pos deletes, ran]
    exact .single (.wrote lastLsn appended found (by rw [holds]; rfl) (permitted deletes))
  · rw [if_neg deletes, delete]
    apply finalState_findTxn (motive := fun after => Moves may ends _ (after, writers)) .refl
    intro state found
    rw [run_get_bind]
    cases holds : engine.tree key with
    | none => exact .refl
    | some oldValue =>
      exact absurd ⟨found.symm ▸ some_ne_none state, holds.symm ▸ some_ne_none oldValue⟩ deletes

lemma commit_moves (order : CheckpointOrder) (may_end : ends txnId) :
    Moves may ends (engine, writers) (finalState (commit order txnId engine), writers) := by
  cases found : engine.activeTxns.lookup txnId with
  | none =>
    rw [commit, finalState_unknown found]
  | some state =>
    obtain ⟨log, ran, appended⟩ := commit_run order found
    rw [ran]
    exact .tail (.single (.committed appended may_end)) (.counted order)

lemma abort_moves (order : CheckpointOrder) (may_end : ends txnId) :
    Moves may ends (engine, writers) (finalState (abort order txnId engine), writers) := by
  cases found : engine.activeTxns.lookup txnId with
  | none =>
    rw [abort, finalState_unknown found]
  | some state =>
    obtain ⟨log, ran, appended⟩ := abort_run order found
    rw [ran]
    exact .tail (.single (.aborted appended found may_end)) (.counted order)

/-- The transaction a call may end is one of those. -/
def ApiCall.Ends (ends : TxnId → Prop) (engine : WALBPlusTreeEngine) : ApiCall → Prop
  | .commit _ txnId | .abort _ txnId => ends txnId
  | .putImplicit _ _ _ | .deleteImplicit _ _ => ends engine.nextTxnId
  | .begin | .put _ _ _ | .delete _ _ => True

lemma after_moves (call : ApiCall) (permitted : may.Permits engine call)
    (may_end : call.Ends ends engine) :
    Moves may ends (engine, writers) (call.after engine, call.writers engine writers) := by
  obtain ⟨log, lastLsn, begins, appended⟩ := begin_run engine
  have started : Moves may ends (engine, writers) (engine.begun log lastLsn, writers) :=
    .single (.begun lastLsn appended)
  cases call with
  | begin =>
    rw [ApiCall.after, begins]
    exact started
  | put txnId key value => exact put_moves permitted
  | delete txnId key => exact delete_moves permitted
  | commit order txnId => exact commit_moves order may_end
  | abort order txnId => exact abort_moves order may_end
  | putImplicit order key value =>
    rw [Discipline.Permits, ApiCall.after, begins] at permitted
    rw [ApiCall.writers, ApiCall.after, ApiCall.after, begins, putImplicit, bind_of_ok begins]
    apply finalState_bind (motive := fun after => Moves may ends _ (after, _))
    · exact started.trans (put_moves permitted)
    · exact fun _ written => written.trans (commit_moves order may_end)
  | deleteImplicit order key =>
    rw [Discipline.Permits, ApiCall.after, begins] at permitted
    rw [ApiCall.writers, ApiCall.after, ApiCall.after, begins, deleteImplicit, bind_of_ok begins]
    apply finalState_bind (motive := fun after => Moves may ends _ (after, _))
    · exact started.trans (delete_moves permitted)
    · intro _ _ _ written
      apply finalState_bind (motive := fun after => Moves may ends _ (after, _))
      · exact written.trans (commit_moves order may_end)
      · exact fun _ committed => committed

/-! ## Lookups -/

lemma lookup_insert_cases (found : (table.insert txnId new).lookup other = some state) :
    (other = txnId ∧ state = new) ∨ (other ≠ txnId ∧ table.lookup other = some state) := by
  by_cases same : other = txnId
  · subst same
    rw [AList.lookup_insert] at found
    exact .inl ⟨rfl, (Option.some.inj found).symm⟩
  · rw [AList.lookup_insert_ne same] at found
    exact .inr ⟨same, found⟩

lemma lookup_erase_cases (found : (table.erase txnId).lookup other = some state) :
    other ≠ txnId ∧ table.lookup other = some state := by
  by_cases same : other = txnId
  · subst same
    rw [AList.lookup_erase] at found
    cases found
  · rw [AList.lookup_erase_ne same] at found
    exact ⟨same, found⟩

lemma countTxn_activeTxns (order : CheckpointOrder) (engine : WALBPlusTreeEngine) :
    (countTxn order engine).activeTxns = engine.activeTxns := by
  rw [countTxn]
  split <;> rfl

lemma countTxn_tree (order : CheckpointOrder) (engine : WALBPlusTreeEngine) :
    (countTxn order engine).tree = engine.tree := by
  rw [countTxn]
  split <;> rfl

lemma countTxn_nextTxnId (order : CheckpointOrder) (engine : WALBPlusTreeEngine) :
    (countTxn order engine).nextTxnId = engine.nextTxnId := by
  rw [countTxn]
  split <;> rfl

end DbEngine.Wal
