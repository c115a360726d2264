import DbEngine.Mvcc.FirstCommitter

/-!
# What each isolation level promises a reader

The promises are stated about the `History` alone: which transactions committed when,
what they wrote, what was rolled back.  `Read` looks at one chain instead.  Without
garbage collection a chain holds every write not rolled back (`Complete`), and a chain
nobody has locked has all of its committed writes marked, so the two agree.
-/

namespace DbEngine.Mvcc

open Function

/-- The write to `key` of the committed transaction with the largest commit timestamp
among the `visible` ones, or none when no such transaction wrote the key. -/
def NewestCommitted (history : History) (key : KeyType) (visible : Int → Prop) :
    Option WriteEntry → Prop
  | some entry => ∃ writer commitTs, history.committed writer = some commitTs ∧
      visible commitTs ∧ history.written writer key = some entry ∧
      ∀ other otherTs, history.committed other = some otherTs → visible otherTs →
        (history.written other key).isSome → otherTs ≤ commitTs
  | none => ∀ other otherTs, history.committed other = some otherTs → visible otherTs →
      history.written other key = none

/-- The most recent write to `key` that has not been rolled back. -/
def MostRecentWrite (history : History) (key : KeyType) : Option WriteEntry → Prop
  | some entry => (∃ writer, history.written writer key = some entry ∧
      history.rolledBack writer key = false) ∧
      ∀ other otherEntry, history.written other key = some otherEntry →
        history.rolledBack other key = false → otherEntry.seq ≤ entry.seq
  | none => ∀ other, (history.written other key).isSome →
      history.rolledBack other key = true

/-- What a level promises a transaction without a write of its own to the key. -/
def Promised (history : History) (key : KeyType) (startTs : Int) :
    IsolationLevel → Option WriteEntry → Prop
  | .readUncommitted => MostRecentWrite history key
  | .readCommitted => NewestCommitted history key fun _ => True
  | .snapshot | .serializableSnapshot => NewestCommitted history key (· < startTs)

/-! ## Chains keep every write that was not rolled back -/

/-- Every write that was not rolled back is on its chain. -/
def Complete (machine : Machine) (history : History) : Prop :=
  ∀ txnId key, (history.written txnId key).isSome →
    history.rolledBack txnId key = false →
    ∃ chain, machine.table key = some chain ∧ txnId ∈ chain.versions.map Version.txnId

section

variable {machine machine' : Machine} {history : History}

lemma complete_init : Complete {} {} := by
  intro txnId key written
  simp at written

variable {history' : History} {key : KeyType} {updated chain : VersionChain} {txnId : TxnId}

section

variable (complete : Complete machine history)
include complete

lemma Complete.of_table_eq (table : machine'.table = machine.table)
    (written : history'.written = history.written)
    (rolledBack : history'.rolledBack = history.rolledBack) : Complete machine' history' := by
  intro txnId key isWritten kept
  rw [written] at isWritten
  rw [rolledBack] at kept
  rw [table]
  exact complete txnId key isWritten kept

/-- A step on one chain keeps completeness when it drops nobody's write but one it
rolls back, and adds the writer it records. -/
lemma Complete.of_update (table : machine'.table = update machine.table key (some updated))
    (elsewhere : ∀ txnId query, query ≠ key → history'.written txnId query = history.written txnId
      query ∧ history'.rolledBack txnId query = history.rolledBack txnId query)
    (here : ∀ txnId, (history'.written txnId key).isSome → history'.rolledBack txnId key = false →
      txnId ∈ updated.versions.map Version.txnId) : Complete machine' history' := by
  intro txnId query isWritten kept
  rw [table]
  by_cases same : query = key
  · subst same
    exact ⟨updated, by simp, here txnId isWritten kept⟩
  · rw [(elsewhere txnId query same).1] at isWritten
    rw [(elsewhere txnId query same).2] at kept
    obtain ⟨chain, lookup, mem⟩ := complete txnId query isWritten kept
    exact ⟨chain, by simp [same, lookup], mem⟩

lemma Complete.mem_getD (written : (history.written txnId key).isSome)
    (kept : history.rolledBack txnId key = false) :
    txnId ∈ ((machine.table key).getD {}).versions.map Version.txnId := by
  obtain ⟨chain, lookup, mem⟩ := complete txnId key written kept
  rw [lookup]
  exact mem

/-- A write keeps completeness when its chain keeps its writers and gains the new one. -/
lemma Complete.of_write (table : machine'.table = update machine.table key (some updated))
    (writers : ∀ other, other = txnId ∨ other ∈ ((machine.table key).getD {}).versions.map
      Version.txnId → other ∈ updated.versions.map Version.txnId) :
    Complete machine' (history.record (.wrote txnId key deleted value seq)) := by
  refine complete.of_update table ?_ ?_
  · intro other query ne
    simp [History.record, ne]
  · intro other written kept
    by_cases same : other = txnId
    · exact writers other (.inl same)
    · simp only [History.record, History.set_of_txn_ne _ _ _ same] at written kept
      exact writers other (.inr (complete.mem_getD written kept))

/-- A step that keeps the writers of one chain keeps completeness. -/
lemma Complete.of_writers (lookup : machine.table key = some chain)
    (table : machine'.table = update machine.table key (some updated))
    (written : history'.written = history.written)
    (rolledBack : history'.rolledBack = history.rolledBack)
    (writers : updated.versions.map Version.txnId = chain.versions.map Version.txnId) :
    Complete machine' history' := by
  refine complete.of_update table ?_ ?_
  · intro other query _
    rw [written, rolledBack]
    exact ⟨rfl, rfl⟩
  · intro other isWritten kept
    rw [written] at isWritten
    rw [rolledBack] at kept
    have mem := complete.mem_getD isWritten kept
    rw [lookup] at mem
    rw [writers]
    exact mem

end

/-- Erasing the version a record designates loses no other transaction's write. -/
lemma complete_eraseVersion (inv : Inv machine history) (complete : Complete machine history)
    (thread : machine.thread txnId = .erasing (record :: todo))
    (lookup : machine.table record.key = some chain) :
    Complete ((machine.setChain record.key { chain with
        versions := eraseNode record.node chain.versions }).setThread txnId (.erasing todo))
      (history.record (.rolledBack txnId record.key)) := by
  have position := (inv.own thread).position
  obtain ⟨found, lookup', own, ownMem, sameNode, owner, _⟩ := position.designates record (by simp)
  rw [lookup] at lookup'
  cases lookup'
  have chainInv := inv.chains record.key chain lookup
  refine complete.of_update rfl ?_ ?_
  · intro other query ne
    simp [History.record, ne]
  · intro other written kept
    have ne : other ≠ txnId := by
      intro same
      subst same
      simp [History.record] at kept
    simp only [History.record, History.set_of_txn_ne _ _ _ ne] at written kept
    have mem := complete.mem_getD written kept
    rw [lookup] at mem
    obtain ⟨version, versionMem, sameTxn⟩ := mem_map.mp mem
    have survives : version ∈ eraseNode record.node chain.versions := by
      refine (mem_eraseNode chainInv.nodesNodup).mpr ⟨versionMem, ?_⟩
      intro hit
      have equal : version = own := inj_on_of_nodup_map chainInv.nodesNodup versionMem ownMem
          (hit.trans sameNode.symm)
      rw [equal, owner] at sameTxn
      exact ne sameTxn.symm
    exact mem_map.mpr ⟨version, survives, sameTxn⟩

/-- Every step but a sweep keeps all writes on their chains. -/
lemma complete_step (inv : Inv machine history) (complete : Complete machine history)
    (notGc : action.isGc = false) (stepped : machine.step action = some (event, machine')) :
    Complete machine' (history.record event) := by
  cases transition_of_step stepped with
  | overwrite thread known unlocked overwritten =>
    refine complete.of_write rfl ?_
    obtain ⟨_, sameTxns, old, oldMem, pending, _⟩ :=
      mem_of_overwritePending (inv.chainInv_getD _).txnsNodup overwritten
    intro other isWriter
    simp only [sameTxns]
    rcases isWriter with same | mem
    · rw [same, ← (Version.pendingOf_iff.mp pending).1]
      exact mem_map_of_mem oldMem
    · exact mem
  | push thread known unlocked nonePending =>
    refine complete.of_write rfl ?_
    intro other isWriter
    rw [map_append, mem_append]
    rcases isWriter with same | mem
    · exact .inr (by simp [newVersion, same])
    · exact .inl mem
  | lockChain thread lookup unlocked
  | unlockChain thread lookup => exact complete.of_writers lookup rfl rfl rfl rfl
  | markVersion thread lookup =>
    exact complete.of_writers lookup rfl rfl rfl (markCommitted_map_txnId _ _ _)
  | eraseVersion thread lookup unlocked =>
    exact complete_eraseVersion inv complete thread lookup
  | collector collector isGc => simp [notGc] at isGc
  | gcSweep _ _ _ => cases notGc
  | _ => exact complete.of_table_eq rfl rfl rfl

end

lemma complete_of_reachable (reachable : Reachable (fun action => action.isGc = false) state) :
    Complete state.1 state.2 :=
  invariant_of_run Complete reachable complete_init fun reached complete notGc stepped =>
    complete_step (inv_of_reachable reached) complete notGc stepped

/-! ## The committed past is frozen -/

section

variable {machine machine' : Machine} {history : History}

/-- A committed transaction is never rolled back. -/
def CommitsKept (history : History) : Prop :=
  ∀ txnId key, (history.committed txnId).isSome → history.rolledBack txnId key = false

variable {action : Action} {event : Event} {allowed : Action → Prop}
  {state later : Machine × History} {bound : Int} {history' : History} {key : KeyType}
  {entry : Option WriteEntry}

lemma commitsKept_step (inv : Inv machine history) (kept : CommitsKept history)
    (stepped : machine.step action = some (event, machine')) :
    CommitsKept (history.record event) := by
  cases transition_of_step stepped with
  | @drawCommitTs txnId held txn thread known =>
    intro other key committed
    by_cases same : other = txnId
    · subst same
      obtain ⟨_, active, _⟩ := (inv.own thread).position
      exact active.unsettled.notRolledBack key
    · simp only [History.record, update_of_ne same] at committed
      exact kept other key committed
  | @eraseVersion txnId record todo chain thread lookup unlocked =>
    intro other key committed
    by_cases same : other = txnId
    · subst same
      have position := (inv.own thread).position
      simp [History.record, position.notCommitted] at committed
    · simp only [History.record, History.set_of_txn_ne _ _ _ same]
      exact kept other key committed
  | _ => exact kept

lemma commitsKept_of_reachable (reachable : Reachable allowed state) : CommitsKept state.2 := by
  refine invariant_of_run (fun _ history => CommitsKept history) reachable ?_ ?_
  · intro txnId key committed
    simp at committed
  · intro machine history action event machine' reached kept _ stepped
    exact commitsKept_step (inv_of_reachable reached) kept stepped

/-- The two histories have the same commits before `bound`, with the same writes. -/
structure SameBefore (bound : Int) (history history' : History) : Prop where
  committed : ∀ {txnId commitTs}, commitTs < bound →
    (history'.committed txnId = some commitTs ↔ history.committed txnId = some commitTs)
  written : ∀ {txnId}, (history.committed txnId).isSome →
    history'.written txnId = history.written txnId

lemma SameBefore.of_eq (committed : history'.committed = history.committed)
    (written : history'.written = history.written) : SameBefore bound history history' where
  committed _ := by rw [committed]
  written _ := by rw [written]

/-- A step commits at the current time and writes only for an unsettled transaction. -/
lemma sameBefore_step (inv : Inv machine history)
    (stepped : machine.step action = some (event, machine')) :
    SameBefore machine.globalTs history (history.record event) := by
  have writes : ∀ {txnId : TxnId} {txn : Transaction} {key : KeyType} {deleted : Bool}
      {value : Bytes} {seq : Int}, machine.thread txnId = .idle →
      machine.txns txnId = some txn → SameBefore machine.globalTs history
        (history.record (.wrote txnId key deleted value seq)) := by
    intro txnId txn key deleted value seq thread known
    refine ⟨fun _ => Iff.rfl, ?_⟩
    intro other committed
    have ne : other ≠ txnId := by
      intro same
      subst same
      simp [(inv.active_of_idle thread known).unsettled.notCommitted] at committed
    simp [History.record, ne]
  cases transition_of_step stepped with
  | overwrite thread known _ _ | push thread known _ _ => exact writes thread known
  | @drawCommitTs txnId held txn thread known =>
    refine ⟨?_, fun _ => rfl⟩
    intro other commitTs past
    by_cases same : other = txnId
    · subst same
      obtain ⟨_, active, _⟩ := (inv.own thread).position
      have now : machine.globalTs ≠ commitTs := (ne_of_lt past).symm
      simp [History.record, active.unsettled.notCommitted, now]
    · simp [History.record, same]
  | _ => exact SameBefore.of_eq rfl rfl

lemma SameBefore.newestCommitted (same : SameBefore bound history history')
    (newest : NewestCommitted history key (· < bound) entry) :
    NewestCommitted history' key (· < bound) entry := by
  have writtenEq : ∀ {other otherTs}, history'.committed other = some otherTs →
      otherTs < bound → history'.written other = history.written other := by
    intro other otherTs committed past
    exact same.written (by rw [(same.committed past).mp committed]; rfl)
  cases entry with
  | none =>
    intro other otherTs committed past
    rw [writtenEq committed past]
    exact newest other otherTs ((same.committed past).mp committed) past
  | some entry =>
    obtain ⟨writer, commitTs, committed, past, written, largest⟩ := newest
    have committed' := (same.committed past).mpr committed
    refine ⟨writer, commitTs, committed', past, ?_, ?_⟩
    · rw [writtenEq committed' past]
      exact written
    · intro other otherTs otherCommitted otherPast otherWritten
      rw [writtenEq otherCommitted otherPast] at otherWritten
      exact largest other otherTs ((same.committed otherPast).mp otherCommitted)
        otherPast otherWritten

lemma SameBefore.mono (same : SameBefore bound history history') (le : smaller ≤ bound) :
    SameBefore smaller history history' where
  committed past := same.committed (lt_of_lt_of_le past le)
  written := same.written

lemma globalTs_mono (stepped : machine.step action = some (event, machine')) :
    machine.globalTs ≤ machine'.globalTs := by
  have ticked : machine.globalTs ≤ machine.globalTs + 1 := by omega
  cases transition_of_step stepped with
  | drawStartTs _ | overwrite _ _ _ _ | push _ _ _ _ | drawCommitTs _ _ => exact ticked
  | _ => exact le_refl _

/-- Once a start timestamp is drawn, what committed before it never changes again. -/
lemma newestCommitted_later (reachable : Reachable allowed state)
    (run : Relation.ReflTransGen (Step allowed) state later) (drawn : startTs ≤ state.1.globalTs)
    (newest : NewestCommitted state.2 key (· < startTs) entry) :
    startTs ≤ later.1.globalTs ∧ NewestCommitted later.2 key (· < startTs) entry := by
  refine invariant_of_run (fun machine history => startTs ≤ machine.globalTs ∧
    NewestCommitted history key (· < startTs) entry) run ⟨drawn, newest⟩ ?_
  intro machine history action event machine' reached frozen _ stepped
  have inv : Inv machine history := inv_of_reachable (reachable.trans reached)
  exact ⟨le_trans frozen.1 (globalTs_mono stepped),
    ((sameBefore_step inv stepped).mono frozen.1).newestCommitted frozen.2⟩

/-- A start timestamp is drawn once. -/
lemma started_later (reachable : Reachable allowed state)
    (run : Relation.ReflTransGen (Step allowed) state later)
    (started : state.2.started txnId = some start) : later.2.started txnId = some start := by
  refine invariant_of_run (fun _ history => history.started txnId = some start) run started ?_
  intro machine history action event machine' reached started _ stepped
  cases transition_of_step stepped with
  | @drawStartTs actor level thread =>
    have inv : Inv machine history := inv_of_reachable (reachable.trans reached)
    have position := (inv.own thread).position
    have ne : txnId ≠ actor := by
      intro same
      rw [same, position.1] at started
      cases started
    simp only [History.record, update_of_ne ne]
    exact started
  | _ => exact started

end

/-! ## Reads -/

/-- What the history records of a version. -/
def Version.entry (version : Version) : WriteEntry :=
  ⟨version.deleted, version.value, version.seq⟩

section

variable {machine machine' : Machine} {history : History} {key : KeyType}
variable {txnId : TxnId} {chain : VersionChain} {result : Option Bytes} {visible : Int → Prop}

/-- A missing chain reads like an empty one. -/
lemma read_result
    (stepped : machine.step (.read txnId key) = some (.read txnId key result, machine')) :
    ∃ txn, machine.thread txnId = .idle ∧ machine.txns txnId = some txn ∧
      ((machine.table key).getD {}).mutex = none ∧
      result = readChain ((machine.table key).getD {}).versions txnId
        txn.isolation txn.startTs := by
  cases transition_of_step stepped with
  | @readMissing _ txn _ thread known lookup =>
    rw [lookup]
    refine ⟨txn, thread, known, rfl, ?_⟩
    cases txn.isolation <;> rfl
  | @read _ txn _ chain thread known lookup unlocked =>
    rw [lookup]
    exact ⟨txn, thread, known, unlocked, rfl⟩

lemma readChain_own (inv : ChainInv machine history key chain) (mem : own ∈ chain.versions)
    (pending : own.pendingOf txnId = true) (level : IsolationLevel) (startTs : Int) :
    readChain chain.versions txnId level startTs = own.entry.result := by
  cases found : chain.versions.find? (·.pendingOf txnId) with
  | none => simp [find?_eq_none.mp found own mem] at pending
  | some version =>
    have isPending : version.pendingOf txnId = true := find?_some found
    have same : version = own := by
      apply inv.eq_of_txnId_eq (mem_of_find?_eq_some found) mem
      rw [(Version.pendingOf_iff.mp isPending).1, (Version.pendingOf_iff.mp pending).1]
    simp only [readChain, found, same]
    rfl

lemma readChain_foreign (foreign : ∀ version ∈ chain.versions, version.txnId ≠ txnId)
    (level : IsolationLevel) (startTs : Int) : readChain chain.versions txnId level startTs =
      ((bestVersion chain.versions level startTs).map Version.entry).bind WriteEntry.result := by
  have noneOwn : chain.versions.find? (·.pendingOf txnId) = none := by
    rw [find?_eq_none]
    intro version mem pending
    exact foreign version mem (Version.pendingOf_iff.mp pending).1
  simp only [readChain, noneOwn]
  cases bestVersion chain.versions level startTs with
  | none | some best => rfl

section

variable (inv : Inv machine history) (complete : Complete machine history)
include inv complete

/-- On an unlocked chain every committed write is present and marked. -/
lemma exists_committed_version (kept : CommitsKept history)
    (unlocked : ((machine.table key).getD {}).mutex = none)
    (committed : history.committed txnId = some commitTs)
    (written : (history.written txnId key).isSome) :
    ∃ version ∈ ((machine.table key).getD {}).versions, version.txnId = txnId ∧
      version.committed = true ∧ version.commitTs = commitTs := by
  have chainInv := inv.chainInv_getD key
  have installed : history.installed txnId key = true := by
    rcases inv.installed_or_locked committed written with installed | ⟨chain, lookup, locked⟩
    · exact installed
    · simp [lookup, locked] at unlocked
  have notRolledBack := kept txnId key (by simp [committed])
  obtain ⟨version, mem, owner⟩ := mem_map.mp (complete.mem_getD written notRolledBack)
  have isCommitted : version.committed = true := by
    rw [chainInv.installed version mem, owner]
    exact installed
  have sameTs := chainInv.commitTs version mem isCommitted
  rw [owner, committed, some.injEq] at sameTs
  exact ⟨version, mem, owner, isCommitted, sameTs.symm⟩

/-- The committed loop of `Read` finds the newest of the commits it may see. -/
lemma newestCommitted_argmax (kept : CommitsKept history)
    (unlocked : ((machine.table key).getD {}).mutex = none) {test : Version → Bool}
    (tests : ∀ version ∈ ((machine.table key).getD {}).versions, version.committed = true → (test
      version = true ↔ visible version.commitTs)) : NewestCommitted history key visible
      (((((machine.table key).getD {}).versions.filter fun version =>
        version.committed && test version).argmax (·.commitTs)).map Version.entry) := by
  have chainInv := inv.chainInv_getD key
  -- Every visible commit to the key competes in the loop.
  have competes : ∀ {other otherTs}, history.committed other = some otherTs →
      visible otherTs → (history.written other key).isSome →
      ∃ version ∈ ((machine.table key).getD {}).versions.filter fun version =>
        version.committed && test version, version.commitTs = otherTs := by
    intro other otherTs committed isVisible written
    obtain ⟨version, mem, _, isCommitted, sameTs⟩ :=
      exists_committed_version inv complete kept unlocked committed written
    refine ⟨version, mem_filter.mpr ⟨mem, ?_⟩, sameTs⟩
    rw [isCommitted, Bool.true_and, tests version mem isCommitted, sameTs]
    exact isVisible
  cases found : (((machine.table key).getD {}).versions.filter fun version =>
      version.committed && test version).argmax (·.commitTs) with
  | none =>
    intro other otherTs committed isVisible
    by_contra written
    obtain ⟨version, mem, _⟩ := competes committed isVisible (Option.isSome_iff_ne_none.mpr written)
    rw [argmax_eq_none.mp found] at mem
    cases mem
  | some best =>
    have bestMem := mem_filter.mp (argmax_mem found)
    have both := Bool.and_eq_true_iff.mp bestMem.2
    refine ⟨best.txnId, best.commitTs, chainInv.commitTs best bestMem.1 both.1,
      (tests best bestMem.1 both.1).mp both.2, chainInv.written best bestMem.1, ?_⟩
    intro other otherTs committed isVisible written
    obtain ⟨version, mem, sameTs⟩ := competes committed isVisible written
    rw [← sameTs]
    exact le_of_mem_argmax mem found

/-- The loop of `Read` under `READ_UNCOMMITTED` finds the most recent write. -/
lemma mostRecentWrite_argmax : MostRecentWrite history key
      ((((machine.table key).getD {}).versions.argmax (·.seq)).map Version.entry) := by
  have chainInv := inv.chainInv_getD key
  cases found : ((machine.table key).getD {}).versions.argmax (·.seq) with
  | none =>
    intro other written
    by_contra notRolledBack
    have mem := complete.mem_getD written (by simpa using notRolledBack)
    rw [argmax_eq_none.mp found] at mem
    cases mem
  | some best =>
    have bestMem := argmax_mem found
    refine ⟨⟨best.txnId, chainInv.written best bestMem, chainInv.notRolledBack best bestMem⟩, ?_⟩
    intro other otherEntry written notRolledBack
    have mem := complete.mem_getD (by rw [written]; rfl) notRolledBack
    obtain ⟨version, versionMem, owner⟩ := mem_map.mp mem
    have sameEntry := chainInv.written version versionMem
    rw [owner, written, some.injEq] at sameEntry
    have latest : version.seq ≤ best.seq := le_of_mem_argmax versionMem found
    rw [sameEntry]
    exact latest

/-- The version `Read` settles on is the one its level promises. -/
lemma promised_bestVersion (kept : CommitsKept history)
    (unlocked : ((machine.table key).getD {}).mutex = none) {level : IsolationLevel}
    (started : history.started txnId = some (level, startTs)) : Promised history key startTs level
      ((bestVersion ((machine.table key).getD {}).versions level startTs).map Version.entry) := by
  have snapshotTest : ∀ version ∈ ((machine.table key).getD {}).versions, version.committed = true →
      (decide (version.commitTs ≤ startTs) = true ↔ version.commitTs < startTs) := by
    intro version mem isCommitted
    have distinct : version.commitTs ≠ startTs := inv.clock.commit_ne_start
        ((inv.chainInv_getD key).commitTs version mem isCommitted) started
    rw [decide_eq_true_eq]
    exact ⟨fun le => lt_of_le_of_ne le distinct, le_of_lt⟩
  cases level with
  | readUncommitted => exact mostRecentWrite_argmax inv complete
  | readCommitted =>
    exact newestCommitted_argmax inv complete kept unlocked (fun _ _ _ => by simp [isVisible])
  | snapshot => exact newestCommitted_argmax inv complete kept unlocked snapshotTest
  | serializableSnapshot =>
    exact newestCommitted_argmax inv complete kept unlocked snapshotTest

end

/-- The write an idle transaction made to a key is its pending version there. -/
lemma exists_own_version (inv : Inv machine history) (active : ActiveTxn machine history txnId txn)
    (written : history.written txnId key = some own) :
    ∃ version ∈ ((machine.table key).getD {}).versions,
      version.pendingOf txnId = true ∧ version.entry = own := by
  have recorded := (active.mem_keys key).mpr (by rw [written]; rfl)
  obtain ⟨record, recordMem, rfl⟩ := mem_map.mp recorded
  obtain ⟨chain, lookup, version, mem, _, owner, pending⟩ := active.designates record recordMem
  have sameEntry := (inv.chains _ chain lookup).written version mem
  rw [owner, written, some.injEq] at sameEntry
  rw [lookup]
  exact ⟨version, mem, Version.pendingOf_iff.mpr ⟨owner, pending⟩, sameEntry.symm⟩

/-- What a read returns, in terms of the history. -/
lemma read_promised (reachable : Reachable (fun action => action.isGc = false) (machine, history))
    (stepped : machine.step (.read txnId key) = some (.read txnId key result, machine')) :
    ∃ level startTs, history.started txnId = some (level, startTs) ∧
      (∀ own, history.written txnId key = some own → result = own.result) ∧
      (history.written txnId key = none → ∃ entry, Promised history key startTs level entry ∧
        result = entry.bind WriteEntry.result) := by
  have inv : Inv machine history := inv_of_reachable reachable
  have complete : Complete machine history := complete_of_reachable reachable
  have kept : CommitsKept history := commitsKept_of_reachable reachable
  obtain ⟨txn, thread, known, unlocked, rfl⟩ := read_result stepped
  have active := inv.active_of_idle thread known
  have chainInv := inv.chainInv_getD key
  refine ⟨txn.isolation, txn.startTs, active.started, ?_, ?_⟩
  · intro own written
    obtain ⟨version, mem, pending, rfl⟩ := exists_own_version inv active written
    exact readChain_own chainInv mem pending _ _
  · intro notWritten
    refine ⟨_, promised_bestVersion inv complete kept unlocked active.started,
      readChain_foreign ?_ _ _⟩
    intro version mem owner
    have written := chainInv.written version mem
    rw [owner, notWritten] at written
    cases written

lemma NewestCommitted.unique (inv : Inv machine history)
    (isLeft : NewestCommitted history key visible left)
    (isRight : NewestCommitted history key visible right) : left = right := by
  cases left with
  | none =>
    cases right with
    | none => rfl
    | some entry =>
      obtain ⟨writer, commitTs, committed, isVisible, written, _⟩ := isRight
      rw [isLeft writer commitTs committed isVisible] at written
      cases written
  | some entry =>
    obtain ⟨writer, commitTs, committed, isVisible, written, largest⟩ := isLeft
    cases right with
    | none =>
      rw [isRight writer commitTs committed isVisible] at written
      cases written
    | some entry' =>
      obtain ⟨writer', commitTs', committed', isVisible', written', largest'⟩ := isRight
      have sameTs : commitTs = commitTs' := le_antisymm
        (largest' writer commitTs committed isVisible (by rw [written]; rfl))
        (largest writer' commitTs' committed' isVisible' (by rw [written']; rfl))
      rw [← sameTs] at committed'
      have sameWriter := inv.clock.commit_injective committed committed'
      rw [← sameWriter, written] at written'
      exact written'

end

/-- Every read returns what its isolation level promises, whatever the interleaving,
as long as no garbage is collected: the transaction's own pending write, or else the
write its level promises.  At the two snapshot levels that write is fixed by the
commits before `start_ts`, which no later step changes, so the read also repeats. -/
theorem read_returns_promised {machine machine' : Machine} {history : History}
    {txnId : TxnId} {key : KeyType} {result : Option Bytes}
    (reachable : Reachable (fun action => action.isGc = false) (machine, history))
    (stepped : machine.step (.read txnId key) = some (.read txnId key result, machine')) :
    ∃ level startTs, history.started txnId = some (level, startTs) ∧
      (∀ own, history.written txnId key = some own → result = own.result) ∧
      (history.written txnId key = none → ∃ entry,
        Promised history key startTs level entry ∧
        result = entry.bind WriteEntry.result ∧
        (level = .snapshot ∨ level = .serializableSnapshot →
          ∀ lateMachine lateHistory,
            Relation.ReflTransGen (Step fun action => action.isGc = false)
              (machine', history) (lateMachine, lateHistory) →
            NewestCommitted lateHistory key (· < startTs) entry ∧
            ∀ result' afterwards, lateHistory.written txnId key = none →
              lateMachine.step (.read txnId key) =
                some (.read txnId key result', afterwards) →
              result' = result)) := by
  have inv : Inv machine history := inv_of_reachable reachable
  rcases read_promised reachable stepped with ⟨level, startTs, started, own, others⟩
  refine ⟨level, startTs, started, own, ?_⟩
  intro notWritten
  rcases others notWritten with ⟨entry, promised, rfl⟩
  refine ⟨entry, promised, rfl, ?_⟩
  intro snapshots lateMachine lateHistory run
  have newest : NewestCommitted history key (· < startTs) entry := by
    rcases snapshots with rfl | rfl <;> exact promised
  have next : Step (fun action => action.isGc = false) (machine, history)
      (machine', history) := ⟨_, _, rfl, stepped, rfl⟩
  have reachable' := reachable.tail next
  have drawn : startTs ≤ machine'.globalTs :=
    le_trans (le_of_lt (inv.clock.started started)) (globalTs_mono stepped)
  have frozen := (newestCommitted_later reachable' run drawn newest).2
  refine ⟨frozen, ?_⟩
  intro result' afterwards notWritten' stepped'
  have lateReachable := reachable'.trans run
  have lateInv : Inv lateMachine lateHistory := inv_of_reachable lateReachable
  rcases read_promised lateReachable stepped' with ⟨level', startTs', started', _, others'⟩
  rcases others' notWritten' with ⟨entry', promised', rfl⟩
  -- A transaction keeps the level and the timestamp it started with.
  have same : (level', startTs') = (level, startTs) := by
    have kept := started_later reachable' run started
    rw [started', some.injEq] at kept
    exact kept
  cases same
  have newest' : NewestCommitted lateHistory key (· < startTs) entry' := by
    rcases snapshots with rfl | rfl <;> exact promised'
  rw [NewestCommitted.unique lateInv newest' frozen]

/-- A writer that commits while a snapshot is open. -/
def openSnapshot : List Action :=
  [.drawTxnId .readCommitted, .drawStartTs 0, .register 0, .write 0 7 false [1],
    .beginCommit 0, .lookupChain 0, .lookupChain 0, .lockChain 0, .validate 0,
    .drawCommitTs 0, .markVersion 0, .markVersion 0, .unlockChain 0, .unlockChain 0,
    .drawTxnId .snapshot, .drawStartTs 1, .register 1,
    .drawTxnId .snapshot, .drawStartTs 2, .register 2, .write 2 7 false [2],
    .beginCommit 2, .lookupChain 2, .lookupChain 2, .lockChain 2, .validate 2,
    .drawCommitTs 2, .markVersion 2, .markVersion 2, .unlockChain 2]

theorem read_returns_promised_openSnapshot : ∃ machine history machine',
    runSchedule openSnapshot ({}, {}) = some (machine, history) ∧
    machine.step (.read 1 7) = some (.read 1 7 (some [1]), machine') ∧
    ∃ level startTs entry, history.started 1 = some (level, startTs) ∧
      Promised history 7 startTs level entry ∧
      some [1] = entry.bind WriteEntry.result := by
  have observed : (runSchedule openSnapshot ({}, {})).any fun state =>
      (state.1.step (.read 1 7)).any fun next =>
        decide (next.1 = .read 1 7 (some [1]) ∧ state.2.written 1 7 = none) := by
    decide +kernel
  rcases (Option.any_eq_true _ _).mp observed with ⟨⟨machine, history⟩, ran, observed⟩
  rcases (Option.any_eq_true _ _).mp observed with ⟨⟨event, machine'⟩, stepped, observed⟩
  rcases of_decide_eq_true observed with ⟨isRead, notWritten⟩
  subst isRead
  have reachable : Reachable (fun action => action.isGc = false) (machine, history) :=
    reachable_of_runSchedule (by decide) ran .refl
  rcases read_returns_promised reachable stepped with ⟨level, startTs, started, _, others⟩
  rcases others notWritten with ⟨entry, promised, result, _⟩
  exact ⟨machine, history, machine', ran, stepped, level, startTs, entry, started, promised, result⟩

end DbEngine.Mvcc
