import DbEngine.Mvcc.Invariant

/-!
# What one step leaves alone

Frame conditions for the invariant: which transactions a step on one chain does not
disturb, when a chain stays faithful to a longer history, and that the timestamps stay
ordered as the clock advances.
-/

namespace DbEngine.Mvcc

open Function

variable {machine machine' : Machine} {history : History} {txnId : TxnId}
variable {key : KeyType} {chain : VersionChain}

/-! ## Undisturbed transactions -/

variable {other : TxnId} {history' : History} {updated : VersionChain} {left right : Version}
  {level : IsolationLevel} {startTs : Int}

/-- A history event of one transaction leaves the entries of all others alone. -/
structure ForeignTo (other : TxnId) (history history' : History) : Prop where
  started : history'.started other = history.started other
  written : history'.written other = history.written other
  committed : history'.committed other = history.committed other
  installed : history'.installed other = history.installed other
  rolledBack : history'.rolledBack other = history.rolledBack other

lemma ForeignTo.refl (other : TxnId) (history : History) :
    ForeignTo other history history := ⟨rfl, rfl, rfl, rfl, rfl⟩

/-- The transaction an event is about. -/
def Event.subject : Event → Option TxnId
  | .started txnId _ _ | .wrote txnId _ _ _ _ | .committed txnId _
  | .installed txnId _ | .rolledBack txnId _ => some txnId
  | .read _ _ _ | .silent => none

lemma ForeignTo.record {event : Event} (subject : event.subject = some txnId)
    (ne : other ≠ txnId) : ForeignTo other history (history.record event) := by
  cases event with
  | read | silent => cases subject
  | _ =>
    cases subject
    constructor <;> simp [History.record, ne]

/-- A step on one chain disturbs nobody who has neither locked that chain nor lost a
pending version on it. -/
lemma Undisturbed.of_update (foreign : ForeignTo other history history')
    (txns : machine'.txns other = machine.txns other)
    (table : machine'.table = update machine.table key (some updated))
    (kept : ∀ chain, machine.table key = some chain → (chain.mutex = some other → updated = chain)
      ∧ ∀ version ∈ chain.versions, version.txnId = other → version.committed = false → version ∈
      updated.versions) : Undisturbed other machine history machine' history' := by
  refine { foreign with txns, chains := fun query found lookup => ?_ }
  rw [table]
  by_cases same : query = key
  · subst same
    exact ⟨updated, by simp, (kept found lookup).1, (kept found lookup).2⟩
  · exact ⟨found, by simp [same, lookup], fun _ => rfl, fun _ mem _ _ => mem⟩

/-- The history entries a transaction's step changes are only its own. -/
lemma Undisturbed.of_foreign (foreign : ForeignTo other history history')
    (txns : machine'.txns other = machine.txns other) (table : machine'.table = machine.table) :
    Undisturbed other machine history machine' history' :=
  { foreign with
    txns
    chains := fun _ found lookup =>
      ⟨found, by rw [table]; exact lookup, fun _ => rfl, fun _ mem _ _ => mem⟩ }

lemma Undisturbed.of_table_eq (txns : machine'.txns other = machine.txns other)
    (table : machine'.table = machine.table) : Undisturbed other machine history machine' history :=
  .of_foreign (ForeignTo.refl other history) txns table

/-! ## Chains and the clock -/

/-- A version says what the history says. -/
structure VersionInv (machine : Machine) (history : History) (key : KeyType)
    (version : Version) : Prop where
  fresh : version.node < machine.nextNode
  written : history.written version.txnId key = some ⟨version.deleted, version.value, version.seq⟩
  notRolledBack : history.rolledBack version.txnId key = false
  installed : version.committed = history.installed version.txnId key
  commitTs : version.committed = true → history.committed version.txnId = some version.commitTs

lemma ChainInv.version (inv : ChainInv machine history key chain)
    (mem : left ∈ chain.versions) : VersionInv machine history key left :=
  ⟨inv.nodesFresh left mem, inv.written left mem, inv.notRolledBack left mem,
    inv.installed left mem, inv.commitTs left mem⟩

lemma ChainInv.of_versions (nodes : (chain.versions.map Version.node).Nodup)
    (txns : (chain.versions.map Version.txnId).Nodup)
    (each : ∀ version ∈ chain.versions, VersionInv machine history key version) :
    ChainInv machine history key chain :=
  ⟨nodes, fun version mem => (each version mem).fresh, txns,
    fun version mem => (each version mem).written,
    fun version mem => (each version mem).notRolledBack,
    fun version mem => (each version mem).installed,
    fun version mem => (each version mem).commitTs⟩

/-- A version that is not of the acting transaction. -/
lemma VersionInv.of_foreign (inv : VersionInv machine history key left)
    (fresh : machine.nextNode ≤ machine'.nextNode)
    (foreign : ForeignTo left.txnId history history') : VersionInv machine' history' key left where
  fresh := lt_of_lt_of_le inv.fresh fresh
  written := (congrFun foreign.written key).trans inv.written
  notRolledBack := (congrFun foreign.rolledBack key).trans inv.notRolledBack
  installed := inv.installed.trans (congrFun foreign.installed key).symm
  commitTs isCommitted := foreign.committed.trans (inv.commitTs isCommitted)

lemma ChainInv.of_agree (inv : ChainInv machine history key chain)
    (fresh : machine.nextNode ≤ machine'.nextNode)
    (agree : ∀ version ∈ chain.versions, history'.written version.txnId key = history.written
      version.txnId key ∧ history'.rolledBack version.txnId key = history.rolledBack version.txnId
      key ∧ history'.installed version.txnId key = history.installed version.txnId key ∧
      (version.committed = true → history'.committed version.txnId = history.committed
      version.txnId)) : ChainInv machine' history' key chain := by
  refine .of_versions inv.nodesNodup inv.txnsNodup fun version mem => ?_
  have old := inv.version mem
  obtain ⟨written, rolledBack, installed, committed⟩ := agree version mem
  exact ⟨lt_of_lt_of_le old.fresh fresh, written.trans old.written,
    rolledBack.trans old.notRolledBack, old.installed.trans installed.symm,
    fun isCommitted => (committed isCommitted).trans (old.commitTs isCommitted)⟩

/-- Dropping versions and changing the mutex keeps a chain faithful. -/
lemma ChainInv.of_sublist (inv : ChainInv machine history key chain)
    (fresh : machine.nextNode ≤ machine'.nextNode)
    (sublist : updated.versions.Sublist chain.versions) : ChainInv machine' history key updated :=
  .of_versions (inv.nodesNodup.sublist (sublist.map _)) (inv.txnsNodup.sublist (sublist.map _))
    fun _ mem => (inv.version (sublist.subset mem)).of_foreign fresh (ForeignTo.refl _ _)

/-- A transaction has at most one version on a chain. -/
lemma ChainInv.eq_of_txnId_eq (inv : ChainInv machine history key chain)
    (leftMem : left ∈ chain.versions) (rightMem : right ∈ chain.versions)
    (equal : left.txnId = right.txnId) : left = right :=
  inj_on_of_nodup_map inv.txnsNodup leftMem rightMem equal

variable {now : Int}

/-- Versions committed at one time are one version. -/
lemma ChainInv.eq_of_commitTs_eq (inv : ChainInv machine history key chain)
    (clock : ClockInv history now) (leftMem : left ∈ chain.versions)
    (rightMem : right ∈ chain.versions) (leftCommitted : left.committed = true)
    (rightCommitted : right.committed = true) (equal : left.commitTs = right.commitTs) :
    left = right := by
  have leftTs := inv.commitTs left leftMem leftCommitted
  have rightTs := inv.commitTs right rightMem rightCommitted
  rw [equal] at leftTs
  exact inv.eq_of_txnId_eq leftMem rightMem (clock.commit_injective leftTs rightTs)

/-- An entry of the history after an event is the event's or was there before. -/
lemma started_record {level' : IsolationLevel}
    (found : (history.record (.started txnId level now)).started other = some (level', startTs)) :
    other = txnId ∧ startTs = now ∨ history.started other = some (level', startTs) := by
  by_cases same : other = txnId
  · subst same
    simp only [History.record, update_self, some.injEq, Prod.mk.injEq] at found
    exact .inl ⟨rfl, found.2.symm⟩
  · simp only [History.record, update_of_ne same] at found
    exact .inr found

variable {deleted : Bool} {value : Bytes} {phase : Phase}

lemma written_record {query : KeyType} {entry : WriteEntry}
    (found : (history.record (.wrote txnId key deleted value now)).written other query =
      some entry) : (other = txnId ∧ query = key) ∧ entry.seq = now ∨
      history.written other query = some entry := by
  simp only [History.record] at found
  by_cases sameTxn : other = txnId
  · by_cases sameKey : query = key
    · subst sameTxn sameKey
      simp only [History.set_self, some.injEq] at found
      exact .inl ⟨⟨rfl, rfl⟩, by rw [← found]⟩
    · exact .inr (by simpa [sameKey] using found)
  · exact .inr (by simpa [sameTxn] using found)

lemma committed_record {commitTs : Int}
    (found : (history.record (.committed txnId now)).committed other = some commitTs) :
    other = txnId ∧ commitTs = now ∨ history.committed other = some commitTs := by
  by_cases same : other = txnId
  · subst same
    simp only [History.record, update_self, some.injEq] at found
    exact .inl ⟨rfl, found.symm⟩
  · simp only [History.record, update_of_ne same] at found
    exact .inr found

lemma ClockInv.record_started (clock : ClockInv history now)
    (notStarted : history.started txnId = none) :
    ClockInv (history.record (.started txnId level now)) (now + 1) := by
  have kept {other : TxnId} {found : IsolationLevel × Int}
      (started : history.started other = some found) :
      (history.record (.started txnId level now)).started other = some found := by
    have ne : other ≠ txnId := by
      rintro rfl
      rw [notStarted] at started
      cases started
    simp [History.record, ne, started]
  constructor
  case started =>
    intro other level' startTs found
    rcases started_record found with ⟨-, rfl⟩ | old
    · exact Int.lt_succ _
    · exact lt_trans (clock.started old) (Int.lt_succ _)
  case written =>
    intro other key entry written
    obtain ⟨bound, level', startTs, started, below⟩ := clock.written written
    exact ⟨lt_trans bound (Int.lt_succ _), level', startTs, kept started, below⟩
  case committed =>
    intro other commitTs committed
    obtain ⟨bound, ⟨level', startTs, started, below⟩, later⟩ := clock.committed committed
    exact ⟨lt_trans bound (Int.lt_succ _), ⟨level', startTs, kept started, below⟩, later⟩
  case commit_ne_start =>
    intro left right commitTs level' startTs committed found
    rcases started_record found with ⟨-, rfl⟩ | old
    · exact ne_of_lt (clock.committed committed).1
    · exact clock.commit_ne_start committed old
  case commit_injective => exact clock.commit_injective
  case seq_injective => exact clock.seq_injective

lemma ClockInv.record_wrote (clock : ClockInv history now)
    (started : history.started txnId = some (level, startTs))
    (notCommitted : history.committed txnId = none) :
    ClockInv (history.record (.wrote txnId key deleted value now)) (now + 1) where
  started found := lt_trans (clock.started found) (Int.lt_succ _)
  written := by
    intro other query entry found
    rcases written_record found with ⟨⟨rfl, -⟩, seq⟩ | old
    · rw [seq]
      exact ⟨Int.lt_succ now, level, startTs, started, clock.started started⟩
    · exact (clock.written old).imp_left fun bound => lt_trans bound (Int.lt_succ _)
  committed := by
    intro other commitTs committed
    obtain ⟨bound, started', later⟩ := clock.committed committed
    refine ⟨lt_trans bound (Int.lt_succ _), started', fun query entry found => ?_⟩
    rcases written_record found with ⟨⟨rfl, -⟩, -⟩ | old
    · exact absurd (notCommitted.symm.trans committed) nofun
    · exact later query entry old
  commit_ne_start := clock.commit_ne_start
  commit_injective := clock.commit_injective
  seq_injective := by
    -- The new entry carries the current time, which no older entry does.
    intro left right query entry entry' leftFound rightFound equal
    rcases written_record leftFound with ⟨⟨rfl, rfl⟩, seq⟩ | leftOld
    · rcases written_record rightFound with ⟨⟨rfl, -⟩, -⟩ | rightOld
      · rfl
      · exact absurd (clock.written rightOld).1 (by rw [← equal, seq]; exact lt_irrefl now)
    · rcases written_record rightFound with ⟨⟨rfl, rfl⟩, seq⟩ | rightOld
      · exact absurd (clock.written leftOld).1 (by rw [equal, seq]; exact lt_irrefl now)
      · exact clock.seq_injective leftOld rightOld equal

lemma ClockInv.record_committed (clock : ClockInv history now)
    (started : history.started txnId = some (level, startTs)) :
    ClockInv (history.record (.committed txnId now)) (now + 1) where
  started found := lt_trans (clock.started found) (Int.lt_succ _)
  written found := (clock.written found).imp_left fun bound => lt_trans bound (Int.lt_succ _)
  committed := by
    intro other commitTs found
    rcases committed_record found with ⟨rfl, rfl⟩ | old
    · exact ⟨Int.lt_succ _, ⟨level, startTs, started, clock.started started⟩,
        fun query entry written => (clock.written written).1⟩
    · exact (clock.committed old).imp_left fun bound => lt_trans bound (Int.lt_succ _)
  commit_ne_start := by
    intro left right commitTs level' startTs' found started'
    rcases committed_record found with ⟨-, rfl⟩ | old
    · exact ne_of_gt (clock.started started')
    · exact clock.commit_ne_start old started'
  commit_injective := by
    intro left right commitTs leftFound rightFound
    rcases committed_record leftFound with ⟨rfl, rfl⟩ | leftOld
    · rcases committed_record rightFound with ⟨rfl, -⟩ | rightOld
      · rfl
      · exact absurd (clock.committed rightOld).1 (lt_irrefl _)
    · rcases committed_record rightFound with ⟨rfl, rfl⟩ | rightOld
      · exact absurd (clock.committed leftOld).1 (lt_irrefl _)
      · exact clock.commit_injective leftOld rightOld
  seq_injective := clock.seq_injective

/-! ## Assembling the invariant of the next state -/

variable {history' : History}

/-- The events of a transaction that has not both written and committed. -/
lemma firstCommitterWins_of_foreign (wins : FirstCommitterWins history)
    (foreign : ∀ other, other ≠ txnId → ForeignTo other history history')
    (out : ∀ key commitTs, (history'.written txnId key).isSome →
      history'.committed txnId ≠ some commitTs) : FirstCommitterWins history' := by
  have known {other : TxnId} {key : KeyType} {commitTs : Int}
      (written : (history'.written other key).isSome)
      (committed : history'.committed other = some commitTs) : ForeignTo other history history' :=
    foreign other fun same => out key commitTs (same ▸ written) (same ▸ committed)
  intro left right query _ _ _ _ ne leftWritten rightWritten leftCommitted rightCommitted
  have leftKnown := known leftWritten leftCommitted
  have rightKnown := known rightWritten rightCommitted
  rw [leftKnown.committed] at leftCommitted
  rw [rightKnown.committed] at rightCommitted
  rw [leftKnown.started, rightKnown.started]
  exact wins ne (leftKnown.written ▸ leftWritten) (rightKnown.written ▸ rightWritten)
    leftCommitted rightCommitted

/-- The acting thread by hand, every other one undisturbed. -/
lemma threads_of_actor (txnId : TxnId)
    (threads : ∀ other, ThreadInv machine history other (machine.thread other))
    (others : ∀ other, other ≠ txnId → machine'.thread other = machine.thread other ∧
      Undisturbed other machine history machine' history')
    (actor : ThreadInv machine' history' txnId (machine'.thread txnId)) :
    ∀ other, ThreadInv machine' history' other (machine'.thread other) := by
  intro other
  by_cases same : other = txnId
  · subst same
    exact actor
  · rw [(others other same).1]
    exact (threads other).of_undisturbed (others other same).2

/-- A transaction whose thread has left `unborn` has had its id drawn. -/
lemma Inv.born (inv : Inv machine history)
    (moved : machine.thread txnId ≠ .unborn) : txnId < machine.nextTxnId := by
  by_contra late
  exact moved (inv.unborn txnId (not_lt.mp late))

/-- The id has been drawn. -/
def Phase.isBorn : Phase → Bool
  | .unborn => false
  | _ => true

lemma Inv.born_of (inv : Inv machine history) (thread : machine.thread txnId = phase)
    (born : phase.isBorn = true) : txnId < machine.nextTxnId := by
  apply inv.born
  rintro unborn
  rw [← thread, unborn] at born
  cases born

/-- The part of the invariant of a thread that stands in a given phase. -/
lemma Inv.own (inv : Inv machine history) (thread : machine.thread txnId = phase) :
    ThreadInv machine history txnId phase :=
  thread ▸ inv.threads txnId

lemma Inv.unborn_of_actor (inv : Inv machine history) (txnId : TxnId)
    (born : txnId < machine.nextTxnId) (next : machine'.nextTxnId = machine.nextTxnId)
    (others : ∀ other, other ≠ txnId → machine'.thread other = machine.thread other) :
    ∀ other, machine'.nextTxnId ≤ other → machine'.thread other = .unborn := by
  intro other late
  rw [next] at late
  have ne : other ≠ txnId := by
    intro same
    subst same
    exact absurd born (not_lt.mpr late)
  rw [others other ne]
  exact inv.unborn other late

/-- All chains but one are as before; that one is supplied. -/
lemma Inv.chains_of_update (inv : Inv machine history)
    (table : machine'.table = update machine.table key (some updated))
    (fresh : machine.nextNode ≤ machine'.nextNode)
    (elsewhere : ∀ other query, query ≠ key → history'.written other query = history.written other
      query ∧ history'.rolledBack other query = history.rolledBack other query ∧
      history'.installed other query = history.installed other query)
    (committed : history'.committed = history.committed)
    (here : ChainInv machine' history' key updated) :
    ∀ query found, machine'.table query = some found → ChainInv machine' history' query found := by
  intro query found lookup
  rw [table] at lookup
  by_cases same : query = key
  · subst same
    rw [update_self] at lookup
    cases lookup
    exact here
  · rw [update_of_ne same] at lookup
    refine (inv.chains query found lookup).of_agree fresh ?_
    intro version _
    obtain ⟨written, rolledBack, installed⟩ := elsewhere version.txnId query same
    exact ⟨written, rolledBack, installed, fun _ => by rw [committed]⟩

/-- An installed write stays represented on every chain but the one that changed. -/
lemma Inv.survives_of_update (inv : Inv machine history)
    (table : machine'.table = update machine.table key (some updated))
    (elsewhere : ∀ other query, query ≠ key → history'.installed other query = history.installed
      other query) (committed : history'.committed = history.committed)
    (here : ∀ other commitTs, history'.installed other key = true → history.committed other = some
      commitTs → ∃ version ∈ updated.versions, version.committed = true ∧ commitTs ≤
      version.commitTs) : ∀ other query commitTs, history'.installed other query = true →
      history'.committed other = some commitTs →
      ∃ found, machine'.table query = some found ∧ ∃ version ∈ found.versions,
        version.committed = true ∧ commitTs ≤ version.commitTs := by
  intro other query commitTs installed committedAt
  rw [committed] at committedAt
  rw [table]
  by_cases same : query = key
  · subst same
    exact ⟨updated, by simp, here other commitTs installed committedAt⟩
  · rw [elsewhere other query same] at installed
    rw [update_of_ne same]
    exact inv.survives other query commitTs installed committedAt

/-- A step of a transaction on one chain that writes nothing and commits nothing. -/
lemma Inv.of_chain (inv : Inv machine history) (born : txnId < machine.nextTxnId)
    (lookup : machine.table key = some chain) (started : history'.started = history.started)
    (written : history'.written = history.written)
    (committed : history'.committed = history.committed)
    (foreign : ∀ other, other ≠ txnId → ForeignTo other history history')
    (elsewhere : ∀ query, query ≠ key →
      history'.rolledBack txnId query = history.rolledBack txnId query ∧
      history'.installed txnId query = history.installed txnId query)
    (mine : ∀ other, other ≠ txnId → chain.mutex ≠ some other)
    (keeps : ∀ version ∈ chain.versions, (version.txnId = txnId → version.committed = true) →
      version ∈ updated.versions)
    (actor : ThreadInv (machine.setChain key updated) history' txnId phase)
    (here : ChainInv machine history' key updated)
    (survives : ∀ commitTs, history'.installed txnId key = true →
      history.committed txnId = some commitTs → ∃ version ∈ updated.versions,
        version.committed = true ∧ commitTs ≤ version.commitTs) :
    Inv ((machine.setChain key updated).setThread txnId phase) history' := by
  have installed (other : TxnId) (query : KeyType) (ne : query ≠ key) :
      history'.installed other query = history.installed other query := by
    by_cases same : other = txnId
    · rw [same]
      exact (elsewhere query ne).2
    · exact congrFun (foreign other same).installed query
  have rolledBack (other : TxnId) (query : KeyType) (ne : query ≠ key) :
      history'.rolledBack other query = history.rolledBack other query := by
    by_cases same : other = txnId
    · rw [same]
      exact (elsewhere query ne).1
    · exact congrFun (foreign other same).rolledBack query
  have settled : ClockInv history' machine.globalTs := by
    have clock := inv.clock
    constructor <;> simp only [started, written, committed]
    · exact clock.started
    · exact clock.written
    · exact clock.committed
    · exact clock.commit_ne_start
    · exact clock.commit_injective
    · exact clock.seq_injective
  refine {
    unborn := inv.unborn_of_actor txnId born rfl fun other ne => by simp [ne]
    threads := threads_of_actor txnId inv.threads ?_ ?_
    chains := inv.chains_of_update rfl le_rfl (fun other query ne =>
      ⟨by rw [written], rolledBack other query ne, installed other query ne⟩)
      committed (here.of_sublist le_rfl (List.Sublist.refl _))
    survives := inv.survives_of_update rfl installed committed ?_
    clock := settled
    firstCommitter := ?_ }
  · intro other ne
    refine ⟨by simp [ne], Undisturbed.of_update (foreign other ne) rfl rfl ?_⟩
    intro found lookup'
    rw [lookup] at lookup'
    cases lookup'
    refine ⟨fun locked => absurd locked (mine other ne), fun version mem owner _ => ?_⟩
    exact keeps version mem fun own => absurd (owner.symm.trans own) ne
  · rw [Machine.setThread_thread, update_self]
    have same : Undisturbed txnId (machine.setChain key updated) history'
        ((machine.setChain key updated).setThread txnId phase) history' :=
      Undisturbed.of_table_eq rfl rfl
    exact actor.of_undisturbed same
  · intro other commitTs isInstalled isCommitted
    by_cases same : other = txnId
    · subst same
      exact survives commitTs isInstalled isCommitted
    · rw [(foreign other same).installed] at isInstalled
      obtain ⟨found, lookup', version, mem, marked, newer⟩ :=
        inv.survives other key commitTs isInstalled isCommitted
      rw [lookup] at lookup'
      cases lookup'
      exact ⟨version, keeps version mem fun _ => marked, marked, newer⟩
  · rw [FirstCommitterWins, started, written, committed]
    exact inv.firstCommitter

end DbEngine.Mvcc
