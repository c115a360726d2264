import DbEngine.Mvcc.Trace

/-!
# Validation of the read set

Under `SERIALIZABLE_SNAPSHOT`, `Commit` also checks the keys that were read, but only
those whose chain it finds.  In a run where every lookup finds its chain, a committed
reader starts after every earlier committed writer of what it read, so no two overlapping
transactions each read what the other wrote.  A key without a chain is skipped, and then
they may.
-/

namespace DbEngine.Mvcc

open Function Machine History

/-- The run shows a read of the key by the transaction. -/
def ReadBy (events : List Event) (txnId : TxnId) (key : KeyType) : Prop :=
  ∃ result, Event.read txnId key result ∈ events

/-- Two committed transactions that overlap in time, each of which read a key that the
other wrote. -/
def WriteSkew (events : List Event) : Prop :=
  ∃ first second firstKey secondKey firstStart secondStart firstCommit secondCommit,
    first ≠ second ∧
    (ofEvents events).started first = some (.serializableSnapshot, firstStart) ∧
    (ofEvents events).started second = some (.serializableSnapshot, secondStart) ∧
    (ofEvents events).committed first = some firstCommit ∧
    (ofEvents events).committed second = some secondCommit ∧
    firstStart < secondCommit ∧ secondStart < firstCommit ∧
    ReadBy events first firstKey ∧
    ((ofEvents events).written second firstKey).isSome ∧
    ReadBy events second secondKey ∧
    ((ofEvents events).written first secondKey).isSome

/-- A lookup of `Commit` finds a chain. -/
def chainFound (machine : Machine) : Action → Bool
  | .lookupChain txnId =>
    match machine.thread txnId with
    | .lookingUp (key :: _) _ => (machine.table key).isSome
    | _ => true
  | _ => true

/-- Every lookup of a schedule finds its chain. -/
def ChainsFound (schedule : List Action) : Prop :=
  AtEvery (fun machine action => chainFound machine action = true) schedule {}

section

variable {machine machine' : Machine} {action : Action} {event : Event} {other : TxnId}

/-- A read that the events gain is its actor's. -/
lemma readBy_of_not_actor (stepped : machine.step action = some (event, machine'))
    (foreign : action.actor machine ≠ some other) (readBy : ReadBy (past ++ [event]) other key) :
    ReadBy past other key := by
  obtain ⟨result, mem⟩ := readBy
  rcases mem_append.mp mem with earlier | now
  · exact ⟨result, earlier⟩
  · have isRead := mem_singleton.mp now
    subst isRead
    cases transition_of_step stepped with
    | readMissing | read => exact absurd rfl foreign

lemma readBy_of_silent (notRead : ∀ result, event ≠ .read txnId key result)
    (readBy : ReadBy (past ++ [event]) txnId key) : ReadBy past txnId key := by
  obtain ⟨result, mem⟩ := readBy
  rcases mem_append.mp mem with earlier | now
  · exact ⟨result, earlier⟩
  · exact absurd (mem_singleton.mp now).symm (notRead result)

end

/-! ## Where the keys read are kept -/

/-- What a thread's position says about the keys its transaction has read. -/
def ReadsInv (machine : Machine) (events : List Event) (txnId : TxnId) : Phase → Prop
  | .unborn | .drawnId _ | .drawnTs _ _ => ∀ key, ¬ ReadBy events txnId key
  | .idle => ∀ txn, machine.txns txnId = some txn →
      ∀ key, ReadBy events txnId key → key ∈ txn.readSet
  | .lookingUp todo held | .locking todo held => ∀ txn, machine.txns txnId = some txn →
      txn.isolation = .serializableSnapshot →
      ∀ key, ReadBy events txnId key → key ∈ todo ∨ key ∈ held
  | .validated held => ∀ txn, machine.txns txnId = some txn →
      (txn.isolation = .serializableSnapshot →
        ∀ key, ReadBy events txnId key → key ∈ held) ∧
      ∀ key ∈ held, ∀ chain, machine.table key = some chain →
        ∀ version ∈ chain.versions, version.committed = true →
          version.commitTs ≤ txn.startTs
  | _ => True

/-- A committed reader starts after every earlier committed writer of what it read. -/
def ReadersFirst (events : List Event) : Prop :=
  ∀ reader writer key readerCommit writerCommit startTs, reader ≠ writer →
    ReadBy events reader key → ((ofEvents events).written writer key).isSome →
    (ofEvents events).committed reader = some readerCommit →
    (ofEvents events).committed writer = some writerCommit →
    (ofEvents events).started reader = some (.serializableSnapshot, startTs) →
    writerCommit < readerCommit → writerCommit < startTs

/-- The invariant of a run whose lookups find their chains. -/
structure SkewInv (machine : Machine) (events : List Event) : Prop where
  inv : Inv machine (ofEvents events)
  reads : ∀ txnId, ReadsInv machine events txnId (machine.thread txnId)
  readersFirst : ReadersFirst events

lemma skewInv_init : SkewInv {} [] where
  inv := inv_init
  reads := by
    intro txnId key readBy
    obtain ⟨result, mem⟩ := readBy
    cases mem
  readersFirst := by
    intro reader writer key _ _ _ _ readBy
    obtain ⟨result, mem⟩ := readBy
    cases mem

section

variable {machine machine' : Machine} {past : List Event} {action : Action} {event : Event}

/-- A transaction that does not act keeps its part of the invariant. -/
lemma ReadsInv.of_not_actor {other : TxnId} (inv : Inv machine (ofEvents past))
    (reads : ReadsInv machine past other (machine.thread other))
    (stepped : machine.step action = some (event, machine'))
    (foreign : action.actor machine ≠ some other) :
    ReadsInv machine' (past ++ [event]) other (machine'.thread other) := by
  have txns := txns_of_not_actor stepped foreign
  have earlier : ∀ {key}, ReadBy (past ++ [event]) other key → ReadBy past other key :=
    readBy_of_not_actor stepped foreign
  rw [thread_of_not_actor stepped foreign]
  cases phase : machine.thread other with
  | unborn | drawnId level | drawnTs level startTs =>
    rw [phase] at reads
    exact fun key readBy => reads key (earlier readBy)
  | idle =>
    rw [phase] at reads
    intro txn known key readBy
    rw [txns] at known
    exact reads txn known key (earlier readBy)
  | lookingUp todo held | locking todo held =>
    rw [phase] at reads
    intro txn known level key readBy
    rw [txns] at known
    exact reads txn known level key (earlier readBy)
  | validated held =>
    rw [phase] at reads
    intro txn known
    rw [txns] at known
    refine ⟨fun level key readBy => (reads txn known).1 level key (earlier readBy), ?_⟩
    intro key inHeld chain' lookup'
    have locked := (inv.threads other).locked
    rw [phase] at locked
    obtain ⟨chain, lookup, mutex⟩ := locked key inHeld
    rw [table_of_not_actor inv stepped foreign lookup mutex] at lookup'
    cases lookup'
    exact (reads txn known).2 key inHeld _ lookup
  | _ => trivial

lemma mem_checkKeys_of_read {txn : Transaction} {key : KeyType}
    (level : txn.isolation = .serializableSnapshot) (mem : key ∈ txn.readSet) :
    key ∈ txn.checkKeys := by
  simp [Transaction.checkKeys, level, mem]

/-- The acting transaction keeps track of what it has read. -/
lemma readsInv_of_actor {actor : TxnId} (inv : Inv machine (ofEvents past))
    (reads : ReadsInv machine past actor (machine.thread actor))
    (found : chainFound machine action = true)
    (stepped : machine.step action = some (event, machine'))
    (isActor : action.actor machine = some actor) :
    ReadsInv machine' (past ++ [event]) actor (machine'.thread actor) := by
  cases transition_of_step stepped with
  | drawTxnId level =>
    cases isActor
    rw [inv.unborn _ le_rfl] at reads
    simp only [setThread_thread, update_self]
    exact fun key readBy => reads key (readBy_of_silent (by simp) readBy)
  | drawStartTs thread =>
    cases isActor
    rw [thread] at reads
    simp only [setThread_thread, update_self]
    exact fun key readBy => reads key (readBy_of_silent (by simp) readBy)
  | register thread =>
    cases isActor
    rw [thread] at reads
    simp only [setThread_thread, update_self]
    intro txn _ key readBy
    exact absurd (readBy_of_silent (by simp) readBy) (reads key)
  | @readMissing _ txn key thread known | @read _ txn key _ thread known =>
    cases isActor
    rw [thread] at reads
    simp only [setTxn_thread, thread]
    intro txn' known' query readBy
    simp only [setTxn_txns, update_self, some.injEq] at known'
    subst known'
    by_cases same : query = key
    · simp [same]
    · have earlier := reads txn known query (readBy_of_silent (by simp [Ne.symm same]) readBy)
      simp [earlier]
  | overwrite thread known _ _ =>
    cases isActor
    rw [thread] at reads
    simp only [setChain_thread, tick_thread, thread]
    exact fun txn known key readBy =>
      reads txn known key (readBy_of_silent (by simp) readBy)
  | @push _ txn _ _ _ thread known _ _ =>
    cases isActor
    rw [thread] at reads
    simp only [setTxn_thread, setChain_thread, tick_thread, thread]
    intro txn' known' key readBy
    simp only [setTxn_txns, update_self, some.injEq] at known'
    subst known'
    exact reads txn known key (readBy_of_silent (by simp) readBy)
  | @beginCommit _ txn thread known =>
    cases isActor
    rw [thread] at reads
    simp only [setThread_thread, update_self]
    intro txn' known' level key readBy
    simp only [setThread_txns] at known'
    rw [known] at known'
    cases known'
    exact .inl (mem_checkKeys_of_read level
      (reads txn known key (readBy_of_silent (by simp) readBy)))
  | @lookupKey _ key todo seen thread =>
    cases isActor
    rw [thread] at reads
    simp only [chainFound, thread] at found
    simp only [setThread_thread, update_self, found, if_true]
    intro txn known level query readBy
    rcases reads txn known level query (readBy_of_silent (by simp) readBy) with inTodo | inSeen
    · rcases mem_cons.mp inTodo with same | later
      · exact .inr (by simp [same])
      · exact .inl later
    · exact .inr (by simp [inSeen])
  | lookupDone thread =>
    cases isActor
    rw [thread] at reads
    simp only [setThread_thread, update_self]
    intro txn known level query readBy
    rcases reads txn known level query (readBy_of_silent (by simp) readBy) with inTodo | inSeen
    · cases inTodo
    · exact .inl inSeen
  | @lockChain _ key todo held chain thread lookup unlocked =>
    cases isActor
    rw [thread] at reads
    simp only [setThread_thread, update_self]
    intro txn known level query readBy
    rcases reads txn known level query (readBy_of_silent (by simp) readBy) with inTodo | inHeld
    · rcases mem_cons.mp inTodo with same | later
      · exact .inr (by simp [same])
      · exact .inl later
    · exact .inr (by simp [inHeld])
  | @validate actor held txn thread known =>
    cases isActor
    rw [thread] at reads
    simp only [setThread_thread, update_self]
    split
    · trivial
    next clean =>
      intro txn' known'
      simp only [setThread_txns] at known'
      rw [known] at known'
      cases known'
      constructor
      · intro level key readBy
        rcases reads txn known level key (readBy_of_silent (by simp) readBy) with inTodo | inHeld
        · cases inTodo
        · exact inHeld
      · obtain ⟨txn', active, _⟩ := (inv.own thread).position
        intro key inHeld chain lookup version mem isCommitted
        have any := Bool.eq_false_iff.mpr clean
        rw [any_eq_false] at any
        have noConflict := any key inHeld
        rw [show machine.table key = some chain from lookup, getD_some] at noConflict
        apply chainConflicts_eq_false.mp (Bool.eq_false_iff.mpr noConflict) version mem isCommitted
        intro owner
        rw [(inv.chains key chain lookup).pending_of_unsettled active.unsettled mem
          owner] at isCommitted
        cases isCommitted
  | @unlockDone _ success =>
    cases isActor
    simp only [setThread_thread, update_self]
    cases success <;> trivial
  | collector _ isGc =>
    cases action with
    | gcBegin | gcCollect | gcSweep | gcEnd => cases isActor
    | _ => cases isGc
  | gcSweep => cases isActor
  | _ =>
    cases isActor
    simp only [setThread_thread, update_self]
    trivial

/-- A step that commits nothing and leaves the committed transactions alone. -/
lemma ReadersFirst.of_foreign (first : ReadersFirst past)
    (committed : (ofEvents (past ++ [event])).committed = (ofEvents past).committed)
    (settled : ∀ txnId, ((ofEvents past).committed txnId).isSome →
      (ofEvents (past ++ [event])).started txnId = (ofEvents past).started txnId ∧
      (ofEvents (past ++ [event])).written txnId = (ofEvents past).written txnId ∧
      ∀ key result, event ≠ .read txnId key result) : ReadersFirst (past ++ [event]) := by
  intro reader writer key readerCommit writerCommit startTs ne readBy written
    readerCommitted writerCommitted started earlier
  rw [committed] at readerCommitted writerCommitted
  obtain ⟨sameStarted, _, notRead⟩ := settled reader (by rw [readerCommitted]; rfl)
  obtain ⟨_, sameWritten, _⟩ := settled writer (by rw [writerCommitted]; rfl)
  rw [sameStarted] at started
  rw [sameWritten] at written
  exact first _ _ _ _ _ _ ne (readBy_of_silent (notRead key) readBy) written readerCommitted
    writerCommitted started earlier

/-- At its commit point a reader has seen every earlier committed writer of its keys. -/
lemma readersFirst_drawCommitTs (inv : SkewInv machine past)
    (thread : machine.thread txnId = .validated held) (known : machine.txns txnId = some txn) :
    ReadersFirst (past ++ [.committed txnId machine.globalTs]) := by
  have own := inv.inv.threads txnId
  have reads := inv.reads txnId
  rw [thread] at own reads
  obtain ⟨found, active, _⟩ := own.position
  have same := active.registered
  rw [known] at same
  cases same
  intro reader writer key readerCommit writerCommit startTs ne readBy written
    readerCommitted writerCommitted started earlier
  rw [ofEvents_append_singleton] at written readerCommitted writerCommitted started
  simp only [History.record] at written readerCommitted writerCommitted started
  have readBefore := readBy_of_silent (by simp) readBy
  by_cases isReader : reader = txnId
  · subst isReader
    rw [update_of_ne (Ne.symm ne)] at writerCommitted
    rw [active.started] at started
    rw [some.injEq, Prod.mk.injEq] at started
    obtain ⟨level, start⟩ := started
    have inHeld := (reads txn known).1 level key readBefore
    obtain ⟨chain, lookup, mutex⟩ := own.locked key inHeld
    rw [← start]
    exact inv.inv.commit_lt_start_of_held active.started lookup mutex
      ((reads txn known).2 key inHeld chain lookup) (Ne.symm ne) written
      writerCommitted
  · rw [update_of_ne isReader] at readerCommitted
    by_cases isWriter : writer = txnId
    · -- The commit just made is later than every other one.
      subst isWriter
      rw [update_self, some.injEq] at writerCommitted
      have past := (inv.inv.clock.committed readerCommitted).1
      omega
    · rw [update_of_ne isWriter] at writerCommitted
      exact inv.readersFirst _ _ _ _ _ _ ne readBefore written readerCommitted writerCommitted
        started earlier

lemma readersFirst_step (inv : SkewInv machine past)
    (stepped : machine.step action = some (event, machine')) : ReadersFirst (past ++ [event]) := by
  have active : ∀ {txnId txn}, machine.thread txnId = .idle →
      machine.txns txnId = some txn → (ofEvents past).committed txnId = none :=
    fun thread known =>
      (inv.inv.active_of_idle thread known).unsettled.notCommitted
  have distinct : ∀ {actor txnId : TxnId}, (ofEvents past).committed actor = none →
      ((ofEvents past).committed txnId).isSome → txnId ≠ actor := by
    intro actor txnId notCommitted committed same
    rw [same, notCommitted] at committed
    cases committed
  cases transition_of_step stepped with
  | drawCommitTs thread known => exact readersFirst_drawCommitTs inv thread known
  | @drawStartTs actor level thread =>
    have position := (inv.inv.threads actor).position
    rw [thread] at position
    apply inv.readersFirst.of_foreign <;> rw [ofEvents_append_singleton]
    · rfl
    · intro txnId committed
      have ne := distinct position.2.1.notCommitted committed
      simp [History.record, ne]
  | readMissing thread known | read thread known =>
    apply inv.readersFirst.of_foreign <;> rw [ofEvents_append_singleton]
    · rfl
    · intro txnId committed
      have ne := distinct (active thread known) committed
      simp [History.record, Ne.symm ne]
  | overwrite thread known | push thread known =>
    apply inv.readersFirst.of_foreign <;> rw [ofEvents_append_singleton]
    · rfl
    · intro txnId committed
      have ne := distinct (active thread known) committed
      simp [History.record, ne]
  | _ =>
    apply inv.readersFirst.of_foreign <;> rw [ofEvents_append_singleton]
    · rfl
    · intro txnId committed
      exact ⟨rfl, rfl, by simp⟩

lemma skewInv_step (inv : SkewInv machine past) (found : chainFound machine action = true)
    (stepped : machine.step action = some (event, machine')) :
    SkewInv machine' (past ++ [event]) where
  inv := by
    rw [ofEvents_append_singleton]
    exact inv_step inv.inv stepped
  reads := by
    intro txnId
    by_cases isActor : action.actor machine = some txnId
    · exact readsInv_of_actor inv.inv (inv.reads txnId) found stepped isActor
    · exact (inv.reads txnId).of_not_actor inv.inv stepped isActor
  readersFirst := readersFirst_step inv stepped

end

/-- In a run where every lookup of `Commit` finds its chain, no two overlapping committed
transactions each read what the other wrote. -/
theorem no_write_skew {schedule : List Action} {events : List Event} {machine : Machine}
    (ran : runTrace schedule {} = some (events, machine))
    (found : ChainsFound schedule) : ¬ WriteSkew events := by
  intro skew
  have inv : SkewInv machine events :=
    invariant_of_trace SkewInv skewInv_step skewInv_init found ran
  rcases skew with ⟨first, second, firstKey, secondKey, firstStart, secondStart, firstCommit,
    secondCommit, different, firstStarted, secondStarted, firstCommitted, secondCommitted,
    firstOverlaps, secondOverlaps, firstReads, secondWrites, secondReads, firstWrites⟩
  rcases lt_trichotomy firstCommit secondCommit with earlier | same | later
  · have before := inv.readersFirst _ _ _ _ _ _ different.symm secondReads firstWrites secondCommitted
      firstCommitted secondStarted earlier
    exact absurd secondOverlaps (not_lt.mpr before.le)
  · subst same
    exact different (inv.inv.clock.commit_injective firstCommitted secondCommitted)
  · have before := inv.readersFirst _ _ _ _ _ _ different firstReads secondWrites firstCommitted
      secondCommitted firstStarted later
    exact absurd firstOverlaps (not_lt.mpr before.le)

/-- Both keys have chains when two transactions read them and each writes the one the
other read; the second to commit finds the conflict. -/
def presentKeys : List Action :=
  [.drawTxnId .snapshot, .drawStartTs 0, .register 0, .write 0 1 false [0],
    .write 0 2 false [0], .abort 0,
    .drawTxnId .serializableSnapshot, .drawStartTs 1, .register 1,
    .drawTxnId .serializableSnapshot, .drawStartTs 2, .register 2,
    .read 1 2, .read 2 1, .write 1 1 false [1], .write 2 2 false [1],
    .beginCommit 1, .lookupChain 1, .lookupChain 1, .lookupChain 1, .lockChain 1,
    .lockChain 1, .validate 1, .drawCommitTs 1, .markVersion 1, .markVersion 1,
    .unlockChain 1, .unlockChain 1, .unlockChain 1, .close 1,
    .beginCommit 2, .lookupChain 2, .lookupChain 2, .lookupChain 2, .lockChain 2,
    .lockChain 2, .validate 2, .unlockChain 2, .unlockChain 2, .unlockChain 2,
    .eraseVersion 2, .eraseVersion 2, .close 2]

theorem no_write_skew_presentKeys : ∃ events machine,
    runTrace presentKeys {} = some (events, machine) ∧ ChainsFound presentKeys ∧
    ¬ WriteSkew events := by
  have completes : (evalTrace [1, 2] chainFound presentKeys {}).isSome = true := by
    decide +kernel
  rcases isSome_iff_exists.mp completes with ⟨⟨events, machine⟩, evaluated⟩
  rcases runTrace_of_evalTrace evaluated with ⟨ran, found⟩
  exact ⟨events, machine, ran, found, no_write_skew ran found⟩

/-- Neither key exists.  The first transaction to start its commit looks up key 1 before
the other one has written it, and so never checks it. -/
def absentKeys : List Action :=
  [.drawTxnId .serializableSnapshot, .drawStartTs 0, .register 0,
    .drawTxnId .serializableSnapshot, .drawStartTs 1, .register 1,
    .read 0 2, .read 1 1, .write 1 2 false [1],
    .beginCommit 1, .lookupChain 1, .lookupChain 1, .lookupChain 1,
    .write 0 1 false [1], .beginCommit 0, .lookupChain 0, .lookupChain 0, .lookupChain 0,
    .lockChain 0, .lockChain 0, .validate 0, .drawCommitTs 0, .markVersion 0,
    .markVersion 0, .unlockChain 0, .unlockChain 0, .unlockChain 0, .close 0,
    .lockChain 1, .validate 1, .drawCommitTs 1, .markVersion 1, .markVersion 1,
    .unlockChain 1, .unlockChain 1, .close 1]

/-- Both transactions commit, and each has read the key that the other wrote as absent. -/
theorem absentKeys_writeSkew : ∃ events machine,
    runTrace absentKeys {} = some (events, machine) ∧ WriteSkew events := by
  have observed : (evalTrace [1, 2] (fun _ _ => true) absentKeys {}).any fun result =>
      let history := ofEvents result.1
      decide (history.started 0 = some (.serializableSnapshot, 0)) &&
      decide (history.started 1 = some (.serializableSnapshot, 1)) &&
      decide (history.committed 0 = some 4) && decide (history.committed 1 = some 5) &&
      decide (.read 0 2 none ∈ result.1) && decide (.read 1 1 none ∈ result.1) &&
      (history.written 1 2).isSome && (history.written 0 1).isSome := by decide +kernel
  rcases (Option.any_eq_true _ _).mp observed with ⟨⟨events, machine⟩, evaluated, observed⟩
  simp only [Bool.and_eq_true, decide_eq_true_eq] at observed
  rcases observed with ⟨⟨⟨⟨⟨⟨⟨firstStarted, secondStarted⟩, firstCommitted⟩,
    secondCommitted⟩, firstRead⟩, secondRead⟩, secondWrote⟩, firstWrote⟩
  exact ⟨events, machine, (runTrace_of_evalTrace evaluated).1, 0, 1, 2, 1, 0, 1, 4, 5, by decide, firstStarted,
    secondStarted, firstCommitted, secondCommitted, by decide, by decide, ⟨none, firstRead⟩,
    secondWrote, ⟨none, secondRead⟩, firstWrote⟩

end DbEngine.Mvcc
