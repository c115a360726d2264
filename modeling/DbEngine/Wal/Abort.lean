import DbEngine.Wal.Moves

/-!
# Aborts and the work of others

`Abort` puts back the values its transaction found when it wrote.  It keeps off what others
have written since only if nobody has: a session is followed here together with who wrote
each key last, with the log kept or not.  A transaction whose keys nobody else writes is
undone exactly.
-/

namespace DbEngine.Wal

open Lib Function WALBPlusTreeEngine

/-- The states of an engine in use, from when it was opened, with the last writers since. -/
inductive Session (may : Discipline) : WALBPlusTreeEngine → Writers → Prop where
  | opened (idle : engine.activeTxns = ∅) :
      Session may engine fun _ => none
  | called (call : ApiCall) {engine : WALBPlusTreeEngine} {writers : Writers}
      (before : Session may engine writers) (permitted : may.Permits engine call) :
      Session may (call.after engine) (call.writers engine writers)

variable {may : Discipline} {ends : TxnId → Prop} {engine : WALBPlusTreeEngine}
  {writers : Writers} {txnId : TxnId} {state : TxnState}

/-- What an active transaction has written, nobody has written since. -/
def Owned (engine : WALBPlusTreeEngine) (writers : Writers) : Prop :=
  ∀ txnId state entry, engine.activeTxns.lookup txnId = some state → entry ∈ state.undoLog →
    writers entry.key = some txnId

variable {before after : WALBPlusTreeEngine × Writers} {keys : Set KeyType} {start : Contents}

lemma Owned.move (owned : Owned before.1 before.2) (move : Move exclusive ends before after) :
    Owned after.1 after.2 := by
  cases move with
  | counted order =>
    intro txnId state entry found
    rw [countTxn_activeTxns] at found
    exact owned txnId state entry found
  | begun lastLsn =>
    intro txnId state entry found mem
    rcases lookup_insert_cases found with ⟨-, rfl⟩ | ⟨-, found⟩
    · cases mem
    · exact owned txnId state entry found mem
  | committed | aborted =>
    intro txnId state entry found
    exact owned txnId state entry (lookup_erase_cases found).2
  | @wrote log engine writers writer state op key lastLsn appended found restores permitted =>
    intro other state' entry found' mem
    change update writers key (some writer) entry.key = some other
    rcases lookup_insert_cases found' with ⟨rfl, rfl⟩ | ⟨ne, found'⟩
    · by_cases here : entry.key = key
      · rw [here, update_self]
      · rw [update_of_ne here]
        rcases mem_cons.mp mem with rfl | mem
        · exact absurd rfl here
        · exact owned _ _ _ found mem
    · have elsewhere : entry.key ≠ key := fun here =>
        ne (permitted ⟨other, state'⟩ (AList.mem_lookup_iff.mp found') ⟨entry, mem, here⟩)
      rw [update_of_ne elsewhere]
      exact owned _ _ _ found' mem

lemma Session.owned (session : Session exclusive engine writers) : Owned engine writers := by
  induction session with
  | opened idle =>
    intro txnId state entry found
    rw [idle] at found
    cases found
  | @called call engine writers _ permitted ih =>
    have moves : Moves exclusive (fun _ => True) (engine, writers) _ :=
      after_moves call permitted (by cases call <;> trivial)
    exact moves.head_induction_on (motive := fun before _ => Owned before.1 before.2 → _) id
      (fun move _ rest owned => rest (owned.move move)) ih

/-! ## The results -/

/-- When no transaction writes a key that another active one has written, an `Abort` changes
no key that another transaction has written since, whether or not the log is kept. -/
theorem abort_keeps_others (session : Session exclusive engine writers)
    (order : CheckpointOrder) (txnId : TxnId) (key : KeyType) (other : writers key ≠ some txnId) :
    ((ApiCall.abort order txnId).after engine).tree key = engine.tree key := by
  rw [ApiCall.after]
  cases found : engine.activeTxns.lookup txnId with
  | none =>
    rw [abort, finalState_unknown found]
  | some state =>
    rcases abort_run order found with ⟨log, ran, -⟩
    rw [ran, finalState, countTxn_tree]
    apply undone_of_elsewhere
    intro entry mem here
    rw [← here] at other
    exact other (session.owned _ _ _ found mem)

/-! ## The keys of one transaction -/

/-- Only one transaction writes these keys, and it writes no others. -/
def keysOf (keys : Set KeyType) (txnId : TxnId) : Discipline := fun _ writer key =>
  key ∈ keys ↔ writer = txnId

/-- The undo log of a transaction leads back to the values its keys had at the start. -/
structure Undoable (keys : Set KeyType) (txnId : TxnId) (start : Contents)
    (engine : WALBPlusTreeEngine) : Prop where
  known : txnId < engine.nextTxnId
  active : ∃ state, engine.activeTxns.lookup txnId = some state ∧
    (∀ entry ∈ state.undoLog, entry.key ∈ keys) ∧
    ∀ key ∈ keys, undone state.undoLog engine.tree key = start key
  others : ∀ other state entry, other ≠ txnId → engine.activeTxns.lookup other = some state →
    entry ∈ state.undoLog → entry.key ∉ keys

/-- What undoing leaves at a key depends on the tree at that key. -/
lemma undone_congr {key : KeyType} (entries : List UndoEntry) {tree tree' : Contents}
    (same : tree' key = tree key) : undone entries tree' key = undone entries tree key := by
  induction entries generalizing tree tree' with
  | nil => exact same
  | cons entry rest ih =>
    apply ih
    by_cases here : key = entry.key
    · rw [here, update_self, update_self]
    · rw [update_of_ne here, update_of_ne here, same]

lemma Undoable.move (undoable : Undoable keys txnId start before.1)
    (move : Move (keysOf keys txnId) (· ≠ txnId) before after) :
    Undoable keys txnId start after.1 := by
  obtain ⟨state, found, own, back⟩ := undoable.active
  cases move with
  | counted order =>
    constructor
    · rw [countTxn_nextTxnId]
      exact undoable.known
    · rw [countTxn_activeTxns, countTxn_tree]
      exact undoable.active
    · rw [countTxn_activeTxns]
      exact undoable.others
  | @begun log engine writers lastLsn appended =>
    refine ⟨Nat.lt_succ_of_lt undoable.known, ⟨state, ?_, own, back⟩, ?_⟩
    · exact (AList.lookup_insert_ne undoable.known.ne).trans found
    · intro other state' entry ne found' mem
      rcases lookup_insert_cases found' with ⟨-, rfl⟩ | ⟨-, found'⟩
      · cases mem
      · exact undoable.others other state' entry ne found' mem
  | @committed log engine writers ended appended may_end =>
    refine ⟨undoable.known, ⟨state, ?_, own, back⟩, ?_⟩
    · exact (AList.lookup_erase_ne may_end.symm).trans found
    · exact fun other state' entry ne found' =>
        undoable.others other state' entry ne (lookup_erase_cases found').2
  | @aborted log engine writers ended state' appended found' may_end =>
    refine ⟨undoable.known, ⟨state, ?_, own, ?_⟩, ?_⟩
    · exact (AList.lookup_erase_ne may_end.symm).trans found
    · intro key mine
      rw [← back key mine]
      apply undone_congr
      apply undone_of_elsewhere
      intro entry mem here
      exact undoable.others ended state' entry may_end found' mem (here ▸ mine)
    · exact fun other state' entry ne found' =>
        undoable.others other state' entry ne (lookup_erase_cases found').2
  | @wrote log engine writers writer state' op key lastLsn appended found' restores permitted =>
    refine ⟨undoable.known, ?_, ?_⟩
    · by_cases self : txnId = writer
      · subst self
        rw [found] at found'
        cases found'
        refine ⟨_, AList.lookup_insert _, ?_, ?_⟩
        · intro entry mem
          rcases mem_cons.mp mem with rfl | mem
          · exact permitted.mpr rfl
          · exact own entry mem
        · intro query mine
          rw [← back query mine]
          -- Undoing the newest entry gives the tree before the write.
          change undone state.undoLog (update (update engine.tree key op.value)
            key (computeCompensation op (engine.tree key)).value) query = _
          rw [restores, update_idem, update_eq_self]
      · refine ⟨state, (AList.lookup_insert_ne self).trans found, own, ?_⟩
        intro query mine
        rw [← back query mine]
        apply undone_congr
        have ne : query ≠ key := by
          intro same
          exact self (permitted.mp (same ▸ mine)).symm
        exact update_of_ne ne _ _
    · intro other state'' entry ne found'' mem
      rcases lookup_insert_cases found'' with ⟨rfl, rfl⟩ | ⟨-, found''⟩
      · rcases mem_cons.mp mem with rfl | mem
        · exact fun mine => ne (permitted.mp mine)
        · exact undoable.others other state' entry ne found' mem
      · exact undoable.others other state'' entry ne found'' mem

/-- The last writers after some calls. -/
def writersAfterAll (engine : WALBPlusTreeEngine) (writers : Writers) : List ApiCall → Writers
  | [] => writers
  | call :: rest => writersAfterAll (call.after engine) (call.writers engine writers) rest

lemma Session.calls (session : Session may engine writers) {calls : List ApiCall}
    (permitted : may.PermitsAll engine calls) :
    Session may (afterAll calls engine) (writersAfterAll engine writers calls) := by
  induction calls generalizing engine writers with
  | nil => exact session
  | cons call rest ih => exact ih (session.called call permitted.1) permitted.2

/-- A transaction has committed its key while another is still active. -/
theorem abort_keeps_others_oneLoser :
    ((ApiCall.abort .forward 1).after (afterAll oneLoser (created true 1))).tree 7 =
      (afterAll oneLoser (created true 1)).tree 7 :=
  abort_keeps_others ((Session.opened rfl).calls oneLoser_permitted) .forward 1 7
    (by decide +kernel)

/-- While a transaction is active, the calls of clients leave it undoable. -/
lemma Undoable.calls {calls : List ApiCall} (undoable : Undoable keys txnId start engine)
    (permitted : (keysOf keys txnId).PermitsAll engine calls)
    (kept : ∀ order, .commit order txnId ∉ calls ∧ .abort order txnId ∉ calls) :
    Undoable keys txnId start (afterAll calls engine) := by
  induction calls generalizing engine with
  | nil => exact undoable
  | cons call rest ih =>
    have may_end : call.Ends (· ≠ txnId) engine := by
      cases call with
      | putImplicit | deleteImplicit => exact undoable.known.ne'
      | commit order other =>
        intro same
        exact (kept order).1 (same ▸ mem_cons_self)
      | abort order other =>
        intro same
        exact (kept order).2 (same ▸ mem_cons_self)
      | _ => trivial
    have moves : Moves (keysOf keys txnId) (· ≠ txnId) (engine, fun _ => none) _ :=
      after_moves call permitted.1 may_end
    apply ih _ permitted.2
    · intro order
      exact ⟨fun mem => (kept order).1 (mem_cons_of_mem _ mem),
        fun mem => (kept order).2 (mem_cons_of_mem _ mem)⟩
    · exact moves.head_induction_on
        (motive := fun before _ => Undoable keys txnId start before.1 → _) id
        (fun move _ rest undoable => rest (undoable.move move)) undoable

/-- A transaction begins, clients make any calls, with the log kept or not, in which the keys
that it writes are written by no other, and the transaction is aborted: its keys hold what
they held when it began, and every other key what it held before the `Abort`. -/
theorem abort_restores {keys : Set KeyType}
    (apart : ∀ other state entry, engine.activeTxns.lookup other = some state →
      entry ∈ state.undoLog → entry.key ∉ keys)
    {calls : List ApiCall}
    (permitted : (keysOf keys engine.nextTxnId).PermitsAll (ApiCall.begin.after engine) calls)
    (kept : ∀ order, .commit order engine.nextTxnId ∉ calls ∧
      .abort order engine.nextTxnId ∉ calls) (order : CheckpointOrder) :
    ∃ after, abort order engine.nextTxnId (afterAll calls (ApiCall.begin.after engine)) =
        .ok () after ∧
      (∀ key ∈ keys, after.tree key = engine.tree key) ∧
      ∀ key ∉ keys, after.tree key =
        (afterAll calls (ApiCall.begin.after engine)).tree key := by
  have started : Undoable keys engine.nextTxnId engine.tree (ApiCall.begin.after engine) := by
    rcases begin_run engine with ⟨log, lastLsn, begins, -⟩
    rw [ApiCall.after, begins]
    refine ⟨Nat.lt_succ_self _, ⟨_, AList.lookup_insert _, by rintro _ ⟨⟩, fun _ _ => rfl⟩, ?_⟩
    intro other state entry different found
    exact apart other state entry ((AList.lookup_insert_ne different).symm.trans found)
  have undoable := started.calls permitted kept
  rcases undoable.active with ⟨state, found, own, back⟩
  rcases abort_run order found with ⟨log, ran, -⟩
  refine ⟨_, ran, ?_, ?_⟩
  · intro key mine
    rw [countTxn_tree]
    exact back key mine
  · intro key foreign
    rw [countTxn_tree]
    apply undone_of_elsewhere
    intro entry mem here
    exact foreign (here ▸ own entry mem)

/-- A transaction writes one key three times, next to another. -/
def rewritten : List ApiCall :=
  [.put 0 7 [1], .begin, .put 1 8 [2], .delete 0 7, .put 0 7 [], .commit .forward 1]

theorem abort_restores_rewritten :
    ∃ after, abort .forward (created true 1).nextTxnId
        (afterAll rewritten (ApiCall.begin.after (created true 1))) = .ok () after ∧
      (∀ key ∈ ({7} : Set KeyType), after.tree key = (created true 1).tree key) ∧
      ∀ key ∉ ({7} : Set KeyType), after.tree key =
        (afterAll rewritten (ApiCall.begin.after (created true 1))).tree key := by
  apply abort_restores
  · intro other state entry found
    cases found
  · refine ⟨fun _ => ?_, trivial, fun _ => ?_, fun _ => ?_, fun _ => ?_, trivial, trivial⟩
    all_goals simp [keysOf, created]
  · simp [rewritten, created]

/-- The second of two writers of a key commits, while the first is still active. -/
def overtaken : List ApiCall :=
  [.begin, .begin, .put 0 7 [1], .put 1 7 [2], .commit .forward 1]

/-- The first writer's `Abort` then deletes what was committed. -/
theorem overtaken_loses_commit :
    Session unrestricted (afterAll overtaken (created true 100))
        (writersAfterAll (created true 100) (fun _ => none) overtaken) ∧
      writersAfterAll (created true 100) (fun _ => none) overtaken 7 = some 1 ∧
      (afterAll overtaken (created true 100)).tree 7 = some [2] ∧
      ((ApiCall.abort .forward 0).after (afterAll overtaken (created true 100))).tree 7 = none := by
  refine ⟨?_, ?_, ?_, ?_⟩
  · exact (Session.opened rfl).calls (unrestricted_permitsAll _ _)
  · decide +kernel
  · decide +kernel
  · decide +kernel

end DbEngine.Wal
