import DbEngine.Wal.Calls

/-!
# Runs with kills and restarts

A database is used in sessions.  A session begins with a recovery and may be cut between
any two log appends, also during the recovery; what is left is the log and the pointer to
the last checkpoint, and on disk a tree that holds some beginning of the log, at least to
that checkpoint.  Transaction ids start at 0 in each session.
-/

namespace DbEngine.Wal

open Lib WALBPlusTreeEngine

/-- A database in use, or the files of one that is not. -/
inductive Database where
  | running (engine : WALBPlusTreeEngine)
  | down (log : List LogRecord) (pointer : Option Lsn)

/-- Opening a database whose tree on disk is at some record of the log. -/
def reopen (order : VisitOrder (Sigma fun _ : TxnId => Option Lsn))
    (checkpointIntervalTxns : Int) (reached : Nat) (log : List LogRecord)
    (pointer : Option Lsn) : Option WALBPlusTreeEngine :=
  openDatabase order checkpointIntervalTxns log pointer
    (redoAll (log.take reached) fun _ => none)

/-- The runs of clients that keep to a discipline. -/
inductive Reached (may : Discipline) : Database → Prop where
  | created : Reached may (.down [] none)
  | opened (order : VisitOrder (Sigma fun _ : TxnId => Option Lsn)) (interval : Int)
      (reached : Nat) {log : List LogRecord} {pointer : Option Lsn} {engine : WALBPlusTreeEngine}
      (before : Reached may (.down log pointer)) (covered : pointer.getD 0 ≤ reached)
      (ran : reopen order interval reached log pointer = some engine) :
      Reached may (.running engine)
  | killedInRecovery (order : VisitOrder (Sigma fun _ : TxnId => Option Lsn)) (interval : Int)
      (reached : Nat) {log : List LogRecord} {pointer : Option Lsn} {engine : WALBPlusTreeEngine}
      (before : Reached may (.down log pointer)) (covered : pointer.getD 0 ≤ reached)
      (ran : reopen order interval reached log pointer = some engine) (length : Nat)
      (kept : log.length ≤ length) : Reached may (.down (engine.log.take length) pointer)
  | called (call : ApiCall) {engine : WALBPlusTreeEngine}
      (before : Reached may (.running engine)) (permitted : may.Permits engine call) :
      Reached may (.running (call.after engine))
  | killedInCall (call : ApiCall) {engine : WALBPlusTreeEngine}
      (before : Reached may (.running engine)) (permitted : may.Permits engine call)
      (length : Nat) (kept : engine.log.length ≤ length) :
      Reached may (.down ((call.after engine).log.take length) engine.lastCheckpointBeginLsn)
  | killed (before : Reached may (.running engine)) :
      Reached may (.down engine.log engine.lastCheckpointBeginLsn)

variable {may : Discipline} {policy : Policy} {log : List LogRecord} {pointer : Option Lsn}

/-- What a database keeps, in use and not. -/
def Sound (policy : Policy) : Database → Prop
  | .running engine => Running policy none engine
  | .down log pointer => Logged policy log ∧ CheckpointOk log pointer

/-- Opening a sound database succeeds and starts a session with nothing to undo. -/
lemma reopen_ok (about : policy.AboutWrites)
    (order : VisitOrder (Sigma fun _ : TxnId => Option Lsn)) (interval : Int)
    (sound : Sound policy (.down log pointer)) (covered : pointer.getD 0 ≤ reached) :
    ∃ engine, reopen order interval reached log pointer = some engine ∧
      Running policy none engine ∧ (∀ txnId, (logState engine.log).pending txnId = []) ∧
      ∃ clrs, engine.log = log ++ clrs ∧ ∀ record ∈ clrs,
        ∃ txnId prevLsn op key undoNextLsn, record = .clr txnId prevLsn op key undoNextLsn := by
  let found : WALBPlusTreeEngine :=
    { walEnabled := true
      checkpointIntervalTxns := interval
      tree := redoAll (log.take reached) fun _ => none
      log
      lastCheckpointBeginLsn := pointer }
  have logged : Logged policy found.log := sound.1
  obtain ⟨engine, ran, undone, idle⟩ :=
    recoverOnStartup_ok order about.undo logged sound.2 covered rfl
  have same := undone.same
  obtain ⟨clrs, log_eq, isClr⟩ := undone.appended
  refine ⟨engine, ran, ?_, idle, clrs, log_eq, isClr⟩
  constructor
  · exact undone.inStep
  · rw [same]
  · intro txnId state active
    rw [same] at active
    cases active
  · exact fun _ _ => idle _
  · intro txnId _
    rw [same]
    rfl
  · have pointer_eq : engine.lastCheckpointBeginLsn = pointer := by rw [same]
    rw [log_eq, pointer_eq]
    exact sound.2.append clrs

/-- A kill leaves a beginning of the log that still has the last checkpoint. -/
lemma Sound.cut (logged : Logged policy (log ++ more)) (checkpoint : CheckpointOk log pointer)
    {length : Nat} (kept : log.length ≤ length) :
    Sound policy (.down ((log ++ more).take length) pointer) := by
  refine ⟨logged.take length, ?_⟩
  rw [List.take_append, List.take_of_length_le kept]
  exact checkpoint.append _

/-- Every database that such clients reach is sound. -/
lemma Reached.sound (enforces : Enforces may policy) {database : Database}
    (run : Reached may database) : Sound policy database := by
  induction run with
  | created => exact ⟨.nil, trivial⟩
  | opened order interval _ _ covered ran ih =>
    obtain ⟨engine, ran', running, -⟩ := reopen_ok enforces.toAboutWrites order interval ih covered
    rw [ran] at ran'
    cases ran'
    exact running
  | killedInRecovery order interval _ _ covered ran length kept ih =>
    obtain ⟨engine, ran', running, -, clrs, log_eq, -⟩ :=
      reopen_ok enforces.toAboutWrites order interval ih covered
    rw [ran] at ran'
    cases ran'
    have logged := running.logged
    rw [log_eq] at logged ⊢
    exact .cut logged ih.2 kept
  | called call _ permitted ih => exact (after_kept ih enforces call permitted).running
  | killedInCall call _ permitted length kept ih =>
    have step := after_kept ih enforces call permitted
    obtain ⟨more, log_eq⟩ := step.grown
    have logged := step.running.logged
    rw [log_eq] at logged ⊢
    exact .cut logged ih.checkpoint kept
  | killed _ ih => exact ⟨ih.logged, ih.checkpoint⟩

/-! ## Sessions -/

/-- The engine after some calls. -/
def afterAll (calls : List ApiCall) (engine : WALBPlusTreeEngine) : WALBPlusTreeEngine :=
  calls.foldl ApiCall.after engine

/-- Each of the calls meets the discipline when its turn comes. -/
def Discipline.PermitsAll (may : Discipline) : WALBPlusTreeEngine → List ApiCall → Prop
  | _, [] => True
  | engine, call :: rest => may.Permits engine call ∧ may.PermitsAll (call.after engine) rest

lemma Reached.session (run : Reached may (.running engine))
    (permitted : may.PermitsAll engine calls) : Reached may (.running (afterAll calls engine)) := by
  induction calls generalizing engine with
  | nil => exact run
  | cons call rest ih => exact ih (run.called call permitted.1) permitted.2

/-- An engine that has just been created. -/
def created (walEnabled : Bool) (checkpointIntervalTxns : Int) : WALBPlusTreeEngine :=
  { walEnabled, checkpointIntervalTxns }

/-- The order of the entries, as it is. -/
def VisitOrder.forward {Entry : Type} : VisitOrder Entry := ⟨id, fun _ => .refl _⟩

/-- The order of the entries, from last to first. -/
def VisitOrder.backward {Entry : Type} : VisitOrder Entry := ⟨List.reverse, List.reverse_perm⟩

lemma Reached.first (may : Discipline) (interval : Int) :
    Reached may (.running (Wal.created true interval)) :=
  .opened .forward interval 0 .created (le_refl 0) rfl

/-! ## Any clients -/

/-- Clients that write what they like. -/
def unrestricted : Discipline := fun _ _ _ => True

lemma unrestricted_permitsAll (engine : WALBPlusTreeEngine) (calls : List ApiCall) :
    unrestricted.PermitsAll engine calls := by
  induction calls generalizing engine with
  | nil => trivial
  | cons call rest ih =>
    refine ⟨?_, ih _⟩
    cases call with
    | begin | commit | abort => trivial
    | _ => exact fun _ => trivial

/-- A compensation record leads past the update that it compensates. -/
lemma Logged.clr (logged : Logged policy log) {lsn : Lsn} {txnId : TxnId} {op : LogOp}
    (found : log[lsn]? = some (.clr txnId prevLsn op key undoNextLsn)) :
    ∃ earlier undone oldValue, earlier < lsn ∧
      log[earlier]? = some (.update txnId undoNextLsn undone key oldValue) ∧
      op = computeCompensation undone oldValue := by
  induction logged with
  | nil => cases found
  | @concat log record before fits may ih =>
    by_cases inside : lsn < log.length
    · rw [getElem?_append_left inside] at found
      obtain ⟨earlier, undone, oldValue, lt, there, compensates⟩ := ih found
      refine ⟨earlier, undone, oldValue, lt, ?_, compensates⟩
      rw [getElem?_append_left (lt.trans inside)]
      exact there
    · rw [List.getElem?_append_right (not_lt.mp inside), List.getElem?_singleton] at found
      split at found
      · cases found
        obtain ⟨earlier, next, undone, oldValue, rest, rfl, there, compensates, -⟩ := fits
        have bound := (getElem?_eq_some_iff.mp there).1
        refine ⟨earlier, undone, oldValue, bound.trans_le (not_lt.mp inside), ?_, compensates⟩
        rw [getElem?_append_left bound]
        exact there
      · cases found

/-- A transaction writes no key that another active one has written. -/
def exclusive : Discipline := fun engine txnId key =>
  ∀ active ∈ engine.activeTxns.entries,
    (∃ entry ∈ active.2.undoLog, entry.key = key) → active.1 = txnId

instance (engine : WALBPlusTreeEngine) (txnId : TxnId) (key : KeyType) :
    Decidable (exclusive engine txnId key) :=
  inferInstanceAs (Decidable (∀ active ∈ engine.activeTxns.entries,
    (∃ entry ∈ active.2.undoLog, entry.key = key) → active.1 = txnId))

instance (engine : WALBPlusTreeEngine) (call : ApiCall) :
    Decidable (exclusive.Permits engine call) :=
  match call with
  | .put txnId key value =>
    inferInstanceAs (Decidable (Puts engine txnId value → exclusive engine txnId key))
  | .delete txnId key =>
    inferInstanceAs (Decidable (Deletes engine txnId key → exclusive engine txnId key))
  | .putImplicit _ key value =>
    inferInstanceAs (Decidable (Puts (ApiCall.begin.after engine) engine.nextTxnId value →
      exclusive (ApiCall.begin.after engine) engine.nextTxnId key))
  | .deleteImplicit _ key =>
    inferInstanceAs (Decidable (Deletes (ApiCall.begin.after engine) engine.nextTxnId key →
      exclusive (ApiCall.begin.after engine) engine.nextTxnId key))
  | .begin | .commit _ _ | .abort _ _ => inferInstanceAs (Decidable True)

lemma exclusive_enforces : Enforces exclusive TransactionLog.Exclusive where
  begin := fun _ _ => trivial
  undo := fun _ _ _ _ => trivial
  commit := fun _ _ => trivial
  write := by
    intro engine txnId key value running apart other held
    obtain ⟨before, mem⟩ := held
    cases found : engine.activeTxns.lookup other with
    | none =>
      rw [running.inactive found nofun] at mem
      cases mem
    | some state =>
      rw [(running.active found).1.pending] at mem
      obtain ⟨entry, logged, image⟩ := mem_map.mp mem
      exact apart ⟨other, state⟩ (AList.mem_lookup_iff.mp found)
        ⟨entry, logged, congrArg Prod.fst image⟩

/-- The map of the transactions whose `COMMIT` is in the log. -/
def committed (log : List LogRecord) : Contents := TransactionLog.committed (entries log)

/-- Compensation records commit nothing. -/
lemma committed_append_clrs (isClr : ∀ record ∈ clrs,
    ∃ txnId prevLsn op key undoNextLsn, record = .clr txnId prevLsn op key undoNextLsn) :
    committed (log ++ clrs) = committed log := by
  rw [committed, entries_append]
  apply TransactionLog.committed_append_undo
  intro entry mem
  obtain ⟨record, inClrs, written⟩ := mem_filterMap.mp mem
  obtain ⟨txnId, prevLsn, op, key, undoNextLsn, rfl⟩ := isClr record inClrs
  cases written
  exact ⟨txnId, key, op.value, rfl⟩

lemma reopen_committed (run : Reached exclusive (.down log pointer))
    (order : VisitOrder (Sigma fun _ : TxnId => Option Lsn)) (interval : Int)
    (covered : pointer.getD 0 ≤ reached) :
    ∃ engine, reopen order interval reached log pointer = some engine ∧
      engine.tree = committed log := by
  rcases reopen_ok exclusive_enforces.toAboutWrites order interval
    (run.sound exclusive_enforces) covered with
    ⟨engine, ran, running, idle, clrs, log_eq, isClr⟩
  refine ⟨engine, ran, ?_⟩
  have all : (logState engine.log).contents = committed engine.log :=
    running.logged.built.contents_eq_committed idle
  rw [running.tree_eq, all, log_eq, committed_append_clrs isClr]

/-- The value was put at the key by a transaction that then committed. -/
def PutByCommitted (log : List LogRecord) (key : KeyType) (value : Bytes) : Prop :=
  ∃ before txnId prevLsn oldValue after,
    log = before ++ .update txnId prevLsn (.put value) key oldValue :: after ∧
      TransactionLog.commits (fun _ => false) txnId (entries after) = true

lemma committed_eq_some (found : committed log key = some value) :
    PutByCommitted log key value := by
  rcases TransactionLog.committedFrom_eq_some found with
    nothing | ⟨before, txnId, after, split, commits⟩
  · cases nothing
  · obtain ⟨first, rest, rfl, -, tail⟩ := List.filterMap_eq_append_iff.mp split
    obtain ⟨skipped, record, last, rfl, none, here, rfl⟩ := List.filterMap_eq_cons_iff.mp tail
    cases record with
    | update owner prevLsn op written oldValue =>
      cases op with
      | put image =>
        cases here
        refine ⟨first ++ skipped, txnId, prevLsn, oldValue, last, ?_, commits⟩
        rw [append_assoc]
      | delete => cases here
    | _ => cases here

/-! ## Recovery -/

/-- When no key is written by two transactions at once, every kill leaves files from which
the database opens with exactly what the committed transactions wrote. -/
theorem recovery_atomic_durable (run : Reached exclusive (.down log pointer))
    (order : VisitOrder (Sigma fun _ : TxnId => Option Lsn)) (interval : Int) (reached : Nat)
    (covered : pointer.getD 0 ≤ reached) :
    ∃ engine, reopen order interval reached log pointer = some engine ∧
      engine.tree = committed log :=
  reopen_committed run order interval covered

/-- A transaction that commits beside one that does not. -/
def oneLoser : List ApiCall :=
  [.begin, .put 0 7 [1], .begin, .put 1 8 [2], .commit .forward 0]

lemma oneLoser_permitted : exclusive.PermitsAll (created true 1) oneLoser := by
  refine ⟨?_, ?_, ?_, ?_, ?_, trivial⟩ <;> decide +kernel

theorem recovery_atomic_durable_oneLoser :
    ∃ engine, reopen .forward 1 6 (afterAll oneLoser (created true 1)).log
        (afterAll oneLoser (created true 1)).lastCheckpointBeginLsn = some engine ∧
      engine.tree = committed (afterAll oneLoser (created true 1)).log :=
  recovery_atomic_durable ((Reached.first exclusive 1).session oneLoser_permitted).killed
    .forward 1 6 (by decide +kernel)

/-- Then the order in which recovery visits the losers makes no difference, and nothing
survives that no committed transaction has written. -/
theorem recovery_ignores_order (run : Reached exclusive (.down log pointer))
    (order order' : VisitOrder (Sigma fun _ : TxnId => Option Lsn)) (interval : Int)
    (reached : Nat) (covered : pointer.getD 0 ≤ reached) :
    ∃ engine engine', reopen order interval reached log pointer = some engine ∧
      reopen order' interval reached log pointer = some engine' ∧ engine.tree = engine'.tree ∧
      ∀ key value, engine.tree key = some value → PutByCommitted log key value := by
  rcases reopen_committed run order interval covered with ⟨engine, ran, tree⟩
  rcases reopen_committed run order' interval covered with ⟨engine', ran', tree'⟩
  refine ⟨engine, engine', ran, ran', tree.trans tree'.symm, ?_⟩
  intro key value found
  rw [tree] at found
  exact committed_eq_some found

/-- Two that do not commit. -/
def moreLosers : List ApiCall := oneLoser ++ [.begin, .put 2 9 [3]]

theorem recovery_ignores_order_moreLosers :
    let killed := afterAll moreLosers (created true 1)
    ∃ engine engine',
      reopen .forward 1 6 killed.log killed.lastCheckpointBeginLsn = some engine ∧
      reopen .backward 1 6 killed.log killed.lastCheckpointBeginLsn = some engine' ∧
      engine.tree = engine'.tree ∧
      ∀ key value, engine.tree key = some value → PutByCommitted killed.log key value := by
  have permitted : exclusive.PermitsAll (created true 1) moreLosers := by
    refine ⟨?_, ?_, ?_, ?_, ?_, ?_, ?_, trivial⟩ <;> decide +kernel
  exact recovery_ignores_order ((Reached.first exclusive 1).session permitted).killed
    .forward .backward 1 6 (by decide +kernel)

/-- Two transactions that write one key and are cut off. -/
def twoLosers : List ApiCall := [.begin, .begin, .put 0 7 [1], .put 1 7 [2]]

/-- Undoing the later writer first leaves nothing; undoing it last brings back what the
other had put, although the log has no `COMMIT` at all. -/
theorem twoLosers_depend_on_order :
    ∃ log, Reached unrestricted (.down log none) ∧
      (∀ txnId prevLsn, .commit txnId prevLsn ∉ log) ∧
      (reopen .forward 0 0 log none).map (fun engine => engine.tree 7) = some none ∧
      (reopen .backward 0 0 log none).map (fun engine => engine.tree 7) = some (some [1]) := by
  let engine := afterAll twoLosers (created true 0)
  have run : Reached unrestricted (.down engine.log engine.lastCheckpointBeginLsn) :=
    ((Reached.first unrestricted 0).session (unrestricted_permitsAll _ _)).killed
  have log_eq : engine.log = [.begin 0, .begin 1, .update 0 (some 0) (.put [1]) 7 none,
        .update 1 (some 1) (.put [2]) 7 (some [1])] := by decide +kernel
  have pointer_eq : engine.lastCheckpointBeginLsn = none := by decide +kernel
  rw [log_eq, pointer_eq] at run
  refine ⟨_, run, ?_, ?_, ?_⟩
  · simp
  · decide +kernel
  · decide +kernel

end DbEngine.Wal
