import DbEngine.Mvcc.Steps.Settle
import DbEngine.Mvcc.Transition

/-!
# Reachable states and first-committer-wins

The step lemmas assembled: the invariant holds in every state any interleaving of the
store's steps can reach, garbage-collection passes included.  Its last field is the
no-lost-updates guarantee.
-/

namespace DbEngine.Mvcc

variable {machine machine' : Machine} {history : History}

/-- Every step keeps the invariant. -/
lemma inv_step (inv : Inv machine history)
    (stepped : machine.step action = some (event, machine')) :
    Inv machine' (history.record event) := by
  cases transition_of_step stepped with
  | drawTxnId level => exact inv_drawTxnId inv level
  | drawStartTs thread => exact inv_drawStartTs inv thread
  | register thread => exact inv_register inv thread
  | readMissing thread known _ | read thread known _ _ => exact inv_read inv thread known
  | overwrite thread known unlocked overwritten =>
    exact inv_write_overwrite inv thread known unlocked overwritten
  | push thread known unlocked nonePending =>
    exact inv_write_push inv thread known unlocked nonePending
  | beginCommit thread known => exact inv_beginCommit inv thread known
  | lookupKey thread => exact inv_lookupChain_cons inv thread
  | lookupDone thread => exact inv_lookupChain_nil inv thread
  | lockChain thread lookup unlocked => exact inv_lockChain inv thread lookup unlocked
  | validate thread known => exact inv_validate inv thread known
  | drawCommitTs thread known => exact inv_drawCommitTs inv thread known
  | markVersion thread lookup => exact inv_markVersion_cons inv thread lookup
  | markDone thread => exact inv_markVersion_nil inv thread
  | unlockChain thread lookup => exact inv_unlockChain_cons inv thread lookup
  | unlockDone thread known => exact inv_unlockChain_nil inv thread known
  | abort thread known => exact inv_abort inv thread known
  | eraseVersion thread lookup unlocked =>
    exact inv_eraseVersion_cons inv thread lookup unlocked
  | eraseDone thread => exact inv_eraseVersion_nil inv thread
  | close thread => exact inv_close inv thread
  | collector collector _ => exact inv_setCollector inv collector
  | gcSweep _ lookup unlocked => exact inv_gcSweep inv lookup unlocked

/-- The invariant holds after every interleaving. -/
lemma inv_of_reachable {allowed : Action → Prop} (reachable : Reachable allowed state) :
    Inv state.1 state.2 :=
  invariant_of_run Inv reachable inv_init fun _ inv _ stepped => inv_step inv stepped

/-! ## No lost updates -/

/-- The start timestamp a transaction drew. -/
def History.startTs (history : History) (txnId : TxnId) : Option Int :=
  (history.started txnId).map Prod.snd

/-- Of two committed writers of one key, one committed before the other started. -/
lemma Inv.separated (inv : Inv machine history) (ne : left ≠ right)
    (leftWritten : (history.written left key).isSome)
    (rightWritten : (history.written right key).isSome)
    (leftCommitted : history.committed left = some leftCommit)
    (rightCommitted : history.committed right = some rightCommit) :
    ∃ leftStart rightStart, history.startTs left = some leftStart ∧
      history.startTs right = some rightStart ∧
      (leftCommit < rightStart ∨ rightCommit < leftStart) := by
  obtain ⟨_, leftStart, leftStarted, _⟩ := (inv.clock.committed leftCommitted).2.1
  obtain ⟨_, rightStart, rightStarted, _⟩ := (inv.clock.committed rightCommitted).2.1
  have leftStartTs : history.startTs left = some leftStart := by
    simp [History.startTs, leftStarted]
  have rightStartTs : history.startTs right = some rightStart := by
    simp [History.startTs, rightStarted]
  exact ⟨leftStart, rightStart, leftStartTs, rightStartTs,
    inv.firstCommitter ne leftWritten rightWritten leftCommitted rightCommitted
      leftStartTs rightStartTs⟩

/-- The committed versions of a chain are ordered alike by `seq` and by `commit_ts`. -/
lemma Inv.ordered_alike (inv : Inv machine history) (lookup : machine.table key = some chain)
    (leftMem : left ∈ chain.versions) (rightMem : right ∈ chain.versions) (ne : left ≠ right)
    (leftCommitted : left.committed = true) (rightCommitted : right.committed = true) :
    left.commitTs ≠ right.commitTs ∧ (left.seq < right.seq ↔ left.commitTs < right.commitTs) := by
  have chainInv := inv.chains key chain lookup
  have differentTxn : left.txnId ≠ right.txnId := by
    intro same
    exact ne (chainInv.eq_of_txnId_eq leftMem rightMem same)
  have leftCommit := chainInv.commitTs left leftMem leftCommitted
  have rightCommit := chainInv.commitTs right rightMem rightCommitted
  have leftWritten : (history.written left.txnId key).isSome := by
    rw [chainInv.written left leftMem]
    rfl
  have rightWritten : (history.written right.txnId key).isSome := by
    rw [chainInv.written right rightMem]
    rfl
  obtain ⟨leftStart, rightStart, leftStartTs, rightStartTs, order⟩ :=
    inv.separated differentTxn leftWritten rightWritten leftCommit rightCommit
  -- Each write was made between its transaction's start and its commit.
  have between : ∀ version ∈ chain.versions, version.committed = true →
      ∀ start, history.startTs version.txnId = some start →
        start < version.seq ∧ version.seq < version.commitTs := by
    intro version mem isCommitted start startTs
    obtain ⟨_, level, startTs', started, after⟩ := inv.clock.written (chainInv.written version mem)
    have equal : startTs' = start := by
      simpa [History.startTs, started] using startTs
    subst equal
    exact ⟨after, (inv.clock.committed (chainInv.commitTs version mem isCommitted)).2.2
      key _ (chainInv.written version mem)⟩
  have leftBetween := between left leftMem leftCommitted leftStart leftStartTs
  have rightBetween := between right rightMem rightCommitted rightStart rightStartTs
  omega

/-- First committer wins, for every interleaving of any number of transactions at any
isolation levels and of garbage-collection passes: of two committed writers of one key,
one committed before the other started.  On every chain, hence, committed versions have
distinct commit timestamps and are ordered alike by `seq` and by `commit_ts`. -/
theorem no_lost_updates {machine : Machine} {history : History}
    (reachable : Reachable (fun _ => True) (machine, history)) :
    (∀ left right key leftCommit rightCommit, left ≠ right →
      (history.written left key).isSome → (history.written right key).isSome →
      history.committed left = some leftCommit →
      history.committed right = some rightCommit →
      ∃ leftStart rightStart, history.startTs left = some leftStart ∧
        history.startTs right = some rightStart ∧
        (leftCommit < rightStart ∨ rightCommit < leftStart)) ∧
    (∀ key chain, machine.table key = some chain →
      ∀ left ∈ chain.versions, ∀ right ∈ chain.versions, left ≠ right →
        left.committed = true → right.committed = true →
        left.commitTs ≠ right.commitTs ∧
        (left.seq < right.seq ↔ left.commitTs < right.commitTs)) := by
  have inv : Inv machine history := inv_of_reachable reachable
  constructor
  · intro left right key leftCommit rightCommit different leftWritten rightWritten
      leftCommitted rightCommitted
    exact inv.separated different leftWritten rightWritten leftCommitted rightCommitted
  · intro key chain lookup left leftMem right rightMem different leftCommitted rightCommitted
    exact inv.ordered_alike lookup leftMem rightMem different leftCommitted rightCommitted

/-- Two increments of one key, the second transaction starting after the first has
committed, and a collection pass that reclaims the overwritten version. -/
def twoWriters : List Action :=
  [.drawTxnId .snapshot, .drawStartTs 0, .register 0, .write 0 7 false [1],
    .beginCommit 0, .lookupChain 0, .lookupChain 0, .lockChain 0, .validate 0,
    .drawCommitTs 0, .markVersion 0, .markVersion 0, .unlockChain 0, .unlockChain 0,
    .close 0,
    .drawTxnId .readCommitted, .drawStartTs 1, .register 1, .write 1 7 false [2],
    .beginCommit 1, .lookupChain 1, .lookupChain 1, .lockChain 1, .validate 1,
    .drawCommitTs 1, .markVersion 1, .markVersion 1, .unlockChain 1, .unlockChain 1,
    .close 1, .gcBegin 0] ++ replicate txnShardCount (.gcCollect 0) ++
  [.gcSweep 0 7, .gcEnd 0]

theorem no_lost_updates_twoWriters : ∃ machine history,
    runSchedule twoWriters ({}, {}) = some (machine, history) ∧
    history.committed 0 = some 2 ∧ history.committed 1 = some 5 ∧
    ∃ leftStart rightStart, history.startTs 0 = some leftStart ∧
      history.startTs 1 = some rightStart ∧ (2 < rightStart ∨ 5 < leftStart) := by
  have observed : (runSchedule twoWriters ({}, {})).any fun state =>
      decide (state.2.committed 0 = some 2) && decide (state.2.committed 1 = some 5) &&
      (state.2.written 0 7).isSome && (state.2.written 1 7).isSome := by decide +kernel
  rcases (Option.any_eq_true _ _).mp observed with ⟨⟨machine, history⟩, ran, observed⟩
  simp only [Bool.and_eq_true, decide_eq_true_eq] at observed
  rcases observed with ⟨⟨⟨first, second⟩, firstWrote⟩, secondWrote⟩
  have reachable : Reachable (fun _ => True) (machine, history) :=
    reachable_of_runSchedule (fun _ _ => trivial) ran .refl
  exact ⟨machine, history, ran, first, second,
    (no_lost_updates reachable).1 0 1 7 2 5 (by decide) firstWrote secondWrote first second⟩

end DbEngine.Mvcc
