import DbEngine.Mvcc.Isolation
import DbEngine.Mvcc.Trace

/-!
# Garbage collection and open snapshots

A pass gathers the start timestamps of the registered transactions first and sweeps the
chains afterwards.  A run is compared with the run of the same schedule without its
collection steps: the two machines agree on everything but the versions, and every version
that only the second one still has is superseded for each snapshot that is still open.
A sweep keeps that up unless some open snapshot was not gathered and a version of the
chain was committed after it started.
-/

namespace DbEngine.Mvcc

open Function

/-- The levels that read from a snapshot. -/
def IsolationLevel.isSnapshot : IsolationLevel → Bool
  | .snapshot | .serializableSnapshot => true
  | .readUncommitted | .readCommitted => false

/-- The snapshot a transaction may still read from: it has drawn its start timestamp and
not begun to commit or abort. -/
def Machine.openSnapshot (machine : Machine) (txnId : TxnId) : Option Int :=
  match machine.thread txnId with
  | .drawnTs level startTs => if level.isSnapshot then some startTs else none
  | .idle =>
    (machine.txns txnId).bind fun txn =>
      if txn.isolation.isSnapshot then some txn.startTs else none
  | _ => none

/-- A sweep of a chain is safe for a snapshot that was gathered, and for one that started
after everything committed on the chain. -/
def safeFor (starts : List Int) (versions : List Version) (startTs : Int) : Bool :=
  decide (startTs ∈ starts) ||
    versions.all fun version => !version.committed || decide (version.commitTs ≤ startTs)

/-- A sweep of a chain is safe for every open snapshot. -/
def sweepSafe (machine : Machine) : Action → Bool
  | .gcSweep pass key =>
    match machine.collector pass, machine.table key with
    | .sweeping starts, some chain =>
      (range machine.nextTxnId).all fun txnId =>
        (machine.openSnapshot txnId).all (safeFor starts chain.versions)
    | _, _ => true
  | _ => true

/-- Every sweep of a schedule is safe. -/
def SweepsSafe (schedule : List Action) : Prop :=
  AtEvery (fun machine action => sweepSafe machine action = true) schedule {}

/-- The reads of one transaction. -/
def Event.isReadOf (txnId : TxnId) : Event → Bool
  | .read reader _ _ => decide (reader = txnId)
  | _ => false

/-! ## Superseded versions -/

/-- A version that no open snapshot, and nobody later, can resolve to, because of what is
kept. -/
structure Superseded (machine : Machine) (kept : List Version) (version : Version) :
    Prop where
  committed : version.committed = true
  newer : ∃ newer ∈ kept, newer.committed = true ∧ version.commitTs < newer.commitTs
  visible : ∀ txnId startTs, machine.openSnapshot txnId = some startTs →
    version.commitTs ≤ startTs → ∃ newer ∈ kept, newer.committed = true ∧
      version.commitTs < newer.commitTs ∧ newer.commitTs ≤ startTs

/-- A chain against the one that was never swept. -/
structure ChainPruned (machine : Machine) (kept full : VersionChain) : Prop where
  mutex : full.mutex = kept.mutex
  sub : ∀ version ∈ kept.versions, version ∈ full.versions
  superseded : ∀ version ∈ full.versions, version ∉ kept.versions →
    Superseded machine kept.versions version

/-- The machine against the table of the one without collection. -/
structure PrunedTable (machine : Machine) (table : KeyType → Option VersionChain) :
    Prop where
  present : ∀ key, (table key).isSome = (machine.table key).isSome
  chains : ∀ key, ChainPruned machine ((machine.table key).getD {}) ((table key).getD {})

/-- The machine without collection. -/
def Machine.withTable (machine : Machine) (table : KeyType → Option VersionChain) :
    Machine :=
  { machine with table, collector := fun _ => .none }

section

variable {machine machine' : Machine} {action : Action} {event : Event}

/-- The open snapshots after a step are those before it and new ones. -/
def Narrower (machine machine' : Machine) : Prop :=
  ∀ txnId startTs, machine'.openSnapshot txnId = some startTs →
    machine.openSnapshot txnId = some startTs ∨ machine.globalTs ≤ startTs

lemma openSnapshot_congr (thread : machine'.thread txnId = machine.thread txnId)
    (txns : machine'.txns txnId = machine.txns txnId) :
    machine'.openSnapshot txnId = machine.openSnapshot txnId := by
  rw [Machine.openSnapshot, Machine.openSnapshot, thread, txns]

lemma narrower_step (stepped : machine.step action = some (event, machine')) :
    Narrower machine machine' := by
  intro txnId startTs opened
  by_cases isActor : action.actor machine = some txnId
  · cases transition_of_step stepped with
    | drawStartTs thread =>
      cases isActor
      right
      simp only [Machine.openSnapshot, Machine.setThread_thread, update_self] at opened
      split at opened
      · cases opened
        exact le_rfl
      · cases opened
    | register thread =>
      cases isActor
      left
      simpa [Machine.openSnapshot, thread] using opened
    | readMissing thread known | read thread known =>
      cases isActor
      left
      simpa [Machine.openSnapshot, thread, known] using opened
    | push thread known =>
      cases isActor
      left
      simpa [Machine.openSnapshot, thread, known, Transaction.addWrite] using opened
    | overwrite | collector | gcSweep => exact .inl opened
    | validate =>
      cases isActor
      simp only [Machine.openSnapshot, Machine.setThread_thread, update_self] at opened
      generalize (List.any _ _) = conflict at opened
      cases conflict <;> simp at opened
    | @unlockDone _ success =>
      cases isActor
      cases success <;> simp [Machine.openSnapshot] at opened
    | _ =>
      cases isActor
      simp [Machine.openSnapshot] at opened
  · rw [openSnapshot_congr (thread_of_not_actor stepped isActor)
      (txns_of_not_actor stepped isActor)] at opened
    exact .inl opened

end

/-! ## Steps on pruned chains -/

section

variable {machine machine' : Machine} {history : History} {key : KeyType}
variable {kept full kept' full' : VersionChain} {table : KeyType → Option VersionChain}
variable {version : Version} {txnId : TxnId} {now startTs : Int} {level : IsolationLevel}

/-- A superseded version stays so while committed versions are kept. -/
lemma Superseded.mono (superseded : Superseded machine versions version)
    (narrower : Narrower machine machine')
    (past : ∀ newer ∈ versions, newer.committed = true → newer.commitTs < machine.globalTs)
    (keep : ∀ newer ∈ versions, newer.committed = true → newer ∈ versions') :
    Superseded machine' versions' version where
  committed := superseded.committed
  newer := by
    obtain ⟨newer, mem, isCommitted, later⟩ := superseded.newer
    exact ⟨newer, keep newer mem isCommitted, isCommitted, later⟩
  visible := by
    intro txnId startTs opened below
    rcases narrower txnId startTs opened with before | fresh
    · obtain ⟨newer, mem, isCommitted, later, inTime⟩ :=
        superseded.visible txnId startTs before below
      exact ⟨newer, keep newer mem isCommitted, isCommitted, later, inTime⟩
    · obtain ⟨newer, mem, isCommitted, later⟩ := superseded.newer
      exact ⟨newer, keep newer mem isCommitted, isCommitted, later,
        le_trans (past newer mem isCommitted).le fresh⟩

/-- What was pruned is committed, so the pending versions are all there. -/
lemma ChainPruned.mem_of_pending (pruned : ChainPruned machine kept full)
    (mem : version ∈ full.versions) (pending : version.committed = false) :
    version ∈ kept.versions := by
  by_contra missing
  have committed := (pruned.superseded version mem missing).committed
  rw [pending] at committed
  cases committed

lemma ChainPruned.overwritePending_none (pruned : ChainPruned machine kept full)
    (nonePending : overwritePending txnId deleted value seq kept.versions = none) :
    overwritePending txnId deleted value seq full.versions = none := by
  rw [overwritePending_eq_none] at nonePending ⊢
  intro version mem
  by_contra pending
  have isPending : version.pendingOf txnId = true := by simpa using pending
  have inKept := pruned.mem_of_pending mem (Version.pendingOf_iff.mp isPending).2
  rw [nonePending version inKept] at isPending
  cases isPending

/-- The node of a pending version, on either chain, designates that version. -/
lemma ChainPruned.eq_of_node_eq (pruned : ChainPruned machine kept full)
    (fullInv : ChainInv (machine.withTable table) history key full) (ownMem : own ∈ kept.versions)
    (mem : version ∈ full.versions) (same : version.node = own.node) : version = own :=
  inj_on_of_nodup_map fullInv.nodesNodup mem (pruned.sub own ownMem) same

/-! Every step below is taken where the chain's commits lie in the past. -/

section

variable (pruned : ChainPruned machine kept full) (narrower : Narrower machine machine')
variable (past : ∀ newer ∈ kept.versions, newer.committed = true →
  newer.commitTs < machine.globalTs)
include pruned narrower past

/-- A step that does the same to both chains keeps them related. -/
lemma ChainPruned.step (mutex : full'.mutex = kept'.mutex)
    (sub : ∀ version ∈ kept'.versions, version ∈ full'.versions)
    (gone : ∀ version ∈ full'.versions, version ∉ kept'.versions →
      version ∈ full.versions ∧ version ∉ kept.versions)
    (keep : ∀ version ∈ kept.versions, version.committed = true → version ∈ kept'.versions) :
    ChainPruned machine' kept' full' where
  mutex
  sub
  superseded := by
    intro version mem missing
    obtain ⟨before, missingBefore⟩ := gone version mem missing
    exact (pruned.superseded version before missingBefore).mono narrower past keep

/-- A mutex taken or released on both chains. -/
lemma ChainPruned.setMutex (mutex : Option TxnId) :
    ChainPruned machine' { kept with mutex } { full with mutex } :=
  pruned.step narrower past rfl pruned.sub (fun _ mem missing => ⟨mem, missing⟩)
    (fun _ mem _ => mem)

/-- Overwriting a pending version does the same to both chains. -/
lemma ChainPruned.overwritePending (keptInv : ChainInv machine history key kept)
    (fullInv : ChainInv (machine.withTable table) history key full)
    (unsettled : Unsettled history txnId)
    (overwritten : overwritePending txnId deleted value seq kept.versions = some versions) :
    ∃ versions', overwritePending txnId deleted value seq full.versions = some versions' ∧
      ChainPruned machine' { kept with versions } { full with versions := versions' } := by
  obtain ⟨_, _, old, oldMem, pending, mem_iff⟩ :=
    mem_of_overwritePending keptInv.txnsNodup overwritten
  obtain ⟨owner, notCommitted⟩ := Version.pendingOf_iff.mp pending
  cases outcome : Mvcc.overwritePending txnId deleted value seq full.versions with
  | none =>
    rw [overwritePending_eq_none] at outcome
    rw [outcome old (pruned.sub old oldMem)] at pending
    cases pending
  | some versions' =>
    obtain ⟨_, _, old', oldMem', pending', mem_iff'⟩ :=
      mem_of_overwritePending fullInv.txnsNodup outcome
    have same : old' = old := by
      apply fullInv.eq_of_txnId_eq oldMem' (pruned.sub old oldMem)
      rw [(Version.pendingOf_iff.mp pending').1, owner]
    subst same
    refine ⟨versions', rfl, pruned.step narrower past pruned.mutex ?_ ?_ ?_⟩
    · intro version mem
      rw [mem_iff']
      rcases (mem_iff version).mp mem with ⟨inKept, ne⟩ | updated
      · exact .inl ⟨pruned.sub version inKept, ne⟩
      · exact .inr updated
    · intro version mem missing
      rcases (mem_iff' version).mp mem with ⟨inFull, ne⟩ | updated
      · refine ⟨inFull, fun inKept => missing ?_⟩
        exact (mem_iff version).mpr (.inl ⟨inKept, ne⟩)
      · exact absurd ((mem_iff version).mpr (.inr updated)) missing
    · intro version mem isCommitted
      refine (mem_iff version).mpr (.inl ⟨mem, ?_⟩)
      intro own
      rw [keptInv.pending_of_unsettled unsettled mem own] at isCommitted
      cases isCommitted

lemma ChainPruned.push (version : Version) :
    ChainPruned machine' { kept with versions := kept.versions ++ [version] }
      { full with versions := full.versions ++ [version] } := by
  refine pruned.step narrower past pruned.mutex ?_ ?_ ?_
  · intro other mem
    rcases mem_append.mp mem with inKept | new
    · exact mem_append_left _ (pruned.sub other inKept)
    · exact mem_append_right _ new
  · intro other mem missing
    rcases mem_append.mp mem with inFull | new
    · exact ⟨inFull, fun inKept => missing (mem_append_left _ inKept)⟩
    · exact absurd (mem_append_right _ new) missing
  · intro other mem _
    exact mem_append_left _ mem

/-- Marking a pending version does the same to both chains. -/
lemma ChainPruned.markCommitted (fullInv : ChainInv (machine.withTable table) history key full)
    (ownMem : own ∈ kept.versions) (pending : own.committed = false) (commitTs : Int) :
    ChainPruned machine' { kept with versions := markCommitted own.node commitTs kept.versions }
      { full with versions := markCommitted own.node commitTs full.versions } := by
  refine pruned.step narrower past pruned.mutex ?_ ?_ ?_
  · intro version mem
    rw [mem_markCommitted] at mem ⊢
    rcases mem with ⟨inKept, other⟩ | ⟨old, oldMem, node, marked⟩
    · exact .inl ⟨pruned.sub version inKept, other⟩
    · exact .inr ⟨old, pruned.sub old oldMem, node, marked⟩
  · intro version mem missing
    rcases mem_markCommitted.mp mem with ⟨inFull, other⟩ | ⟨old, oldMem, node, marked⟩
    · refine ⟨inFull, fun inKept => missing ?_⟩
      exact mem_markCommitted.mpr (.inl ⟨inKept, other⟩)
    · have same := pruned.eq_of_node_eq fullInv ownMem oldMem node
      exact absurd (mem_markCommitted.mpr (.inr ⟨own, ownMem, rfl, same ▸ marked⟩)) missing
  · intro version mem isCommitted
    refine mem_markCommitted.mpr (.inl ⟨mem, fun node => ?_⟩)
    rw [pruned.eq_of_node_eq fullInv ownMem (pruned.sub version mem) node, pending] at isCommitted
    cases isCommitted

/-- Erasing a pending version does the same to both chains. -/
lemma ChainPruned.eraseNode (keptInv : ChainInv machine history key kept)
    (fullInv : ChainInv (machine.withTable table) history key full) (ownMem : own ∈ kept.versions)
    (pending : own.committed = false) : ChainPruned machine'
      { kept with versions := eraseNode own.node kept.versions }
      { full with versions := eraseNode own.node full.versions } := by
  refine pruned.step narrower past pruned.mutex ?_ ?_ ?_
  · intro version mem
    obtain ⟨inKept, other⟩ := (mem_eraseNode keptInv.nodesNodup).mp mem
    exact (mem_eraseNode fullInv.nodesNodup).mpr ⟨pruned.sub version inKept, other⟩
  · intro version mem missing
    obtain ⟨inFull, other⟩ := (mem_eraseNode fullInv.nodesNodup).mp mem
    refine ⟨inFull, fun inKept => missing ?_⟩
    exact (mem_eraseNode keptInv.nodesNodup).mpr ⟨inKept, other⟩
  · intro version mem isCommitted
    refine (mem_eraseNode keptInv.nodesNodup).mpr ⟨mem, fun node => ?_⟩
    rw [pruned.eq_of_node_eq fullInv ownMem (pruned.sub version mem) node, pending] at isCommitted
    cases isCommitted

end

section

variable (pruned : ChainPruned machine kept full)
include pruned

/-- Validation decides alike on both chains. -/
lemma ChainPruned.chainConflicts_eq (keptInv : ChainInv machine history key kept)
    (unsettled : Unsettled history txnId) (startTs : Int) :
    chainConflicts full.versions txnId startTs = chainConflicts kept.versions txnId startTs := by
  rw [Bool.eq_iff_iff, ← not_iff_not, Bool.not_eq_true, Bool.not_eq_true,
    chainConflicts_eq_false, chainConflicts_eq_false]
  constructor
  · intro clean version mem isCommitted foreign
    exact clean version (pruned.sub version mem) isCommitted foreign
  · intro clean version mem isCommitted foreign
    by_cases inKept : version ∈ kept.versions
    · exact clean version inKept isCommitted foreign
    · obtain ⟨newer, newerMem, newerCommitted, later⟩ :=
        (pruned.superseded version mem inKept).newer
      have newerForeign : newer.txnId ≠ txnId := by
        intro own
        rw [keptInv.pending_of_unsettled unsettled newerMem own] at newerCommitted
        cases newerCommitted
      exact le_trans later.le (clean newer newerMem newerCommitted newerForeign)

section

variable (fullInv : ChainInv (machine.withTable table) history key full)
  (clock : ClockInv history now)
  (ordered : ∀ older ∈ full.versions, ∀ newer ∈ full.versions, older.committed = true →
    newer.committed = true → older.commitTs < newer.commitTs → older.seq < newer.seq)
  (opened : level.isSnapshot = true → machine.openSnapshot txnId = some startTs)
include fullInv clock ordered opened

/-- A reader finds the same version on both chains. -/
lemma ChainPruned.bestVersion_eq :
    bestVersion kept.versions level startTs = bestVersion full.versions level startTs := by
  -- Among the committed versions that are visible, a superseded one never wins.
  have committed (visible : Version → Bool)
      (outdated : ∀ version ∈ full.versions, version ∉ kept.versions → visible version = true →
        ∃ newer ∈ kept.versions, newer.committed = true ∧
          version.commitTs < newer.commitTs ∧ visible newer = true) :
      (kept.versions.filter fun version => version.committed && visible version).argmax
          (·.commitTs) =
        (full.versions.filter fun version => version.committed && visible version).argmax
          (·.commitTs) := by
    apply argmax_eq_of_kept
    · intro version mem
      obtain ⟨inKept, passes⟩ := mem_filter.mp mem
      exact mem_filter.mpr ⟨pruned.sub version inKept, passes⟩
    · intro left leftMem right rightMem same
      obtain ⟨leftMem, leftPasses⟩ := mem_filter.mp leftMem
      obtain ⟨rightMem, rightPasses⟩ := mem_filter.mp rightMem
      exact fullInv.eq_of_commitTs_eq clock leftMem rightMem
        (Bool.and_eq_true_iff.mp leftPasses).1 (Bool.and_eq_true_iff.mp rightPasses).1 same
    · intro best found
      obtain ⟨bestMem, passes⟩ := mem_filter.mp (argmax_mem found)
      refine mem_filter.mpr ⟨?_, passes⟩
      by_contra missing
      obtain ⟨newer, newerMem, newerCommitted, later, newerVisible⟩ :=
        outdated best bestMem missing (Bool.and_eq_true_iff.mp passes).2
      have atMost : newer.commitTs ≤ best.commitTs :=
        le_of_mem_argmax (mem_filter.mpr ⟨pruned.sub newer newerMem,
          Bool.and_eq_true_iff.mpr ⟨newerCommitted, newerVisible⟩⟩) found
      exact absurd later (not_lt.mpr atMost)
  have snapshot (opened : machine.openSnapshot txnId = some startTs) :=
    committed (fun version => decide (version.commitTs ≤ startTs)) (by
      intro version mem missing inTime
      rcases (pruned.superseded version mem missing).visible txnId startTs opened
        (of_decide_eq_true inTime) with ⟨newer, newerMem, newerCommitted, later, newerInTime⟩
      exact ⟨newer, newerMem, newerCommitted, later, decide_eq_true newerInTime⟩)
  cases level with
  | snapshot | serializableSnapshot => exact snapshot (opened rfl)
  | readCommitted =>
    apply committed fun _ => true
    intro version mem missing _
    obtain ⟨newer, newerMem, newerCommitted, later⟩ := (pruned.superseded version mem missing).newer
    exact ⟨newer, newerMem, newerCommitted, later, rfl⟩
  | readUncommitted =>
    apply argmax_eq_of_kept pruned.sub
    · intro left leftMem right rightMem same
      apply fullInv.eq_of_txnId_eq leftMem rightMem
      exact clock.seq_injective (fullInv.written left leftMem) (fullInv.written right rightMem) same
    · intro best found
      have bestMem := argmax_mem found
      by_contra missing
      have superseded := pruned.superseded best bestMem missing
      obtain ⟨newer, newerMem, newerCommitted, later⟩ := superseded.newer
      have above := ordered best bestMem newer (pruned.sub newer newerMem)
        superseded.committed newerCommitted later
      exact absurd above (not_lt.mpr (le_of_mem_argmax (pruned.sub newer newerMem) found))

/-- So does its whole read. -/
lemma ChainPruned.readChain_eq :
    readChain full.versions txnId level startTs = readChain kept.versions txnId level startTs := by
  have own : full.versions.find? (·.pendingOf txnId) =
      kept.versions.find? (·.pendingOf txnId) := by
    cases found : kept.versions.find? (·.pendingOf txnId) with
    | none =>
      rw [find?_eq_none] at found ⊢
      intro version mem pending
      exact found version (pruned.mem_of_pending mem (Version.pendingOf_iff.mp pending).2) pending
    | some version =>
      have pending := find?_some found
      have mem := pruned.sub version (mem_of_find?_eq_some found)
      cases foundFull : full.versions.find? (·.pendingOf txnId) with
      | none => exact absurd pending (find?_eq_none.mp foundFull version mem)
      | some other =>
        have otherPending := find?_some foundFull
        rw [fullInv.eq_of_txnId_eq (mem_of_find?_eq_some foundFull) mem
          ((Version.pendingOf_iff.mp otherPending).1.trans
            (Version.pendingOf_iff.mp pending).1.symm)]
  rw [readChain, readChain, own, pruned.bestVersion_eq fullInv clock ordered opened]

end

/-- A safe sweep prunes only what is superseded. -/
lemma ChainPruned.sweep (keptInv : ChainInv machine history key kept)
    (fullInv : ChainInv (machine.withTable table) history key full)
    (clock : ClockInv history machine.globalTs)
    (safe : ∀ txnId startTs, machine.openSnapshot txnId = some startTs → safeFor starts
      kept.versions startTs = true)
    (snapshots : ∀ txnId, machine'.openSnapshot txnId = machine.openSnapshot txnId) :
    ChainPruned machine' { kept with versions := sweepChain starts kept.versions } full where
  mutex := pruned.mutex
  sub version mem := pruned.sub version ((sweepChain_sublist _ _).subset mem)
  superseded := by
    intro version mem missing
    -- Unless it was pruned before, the version itself is kept up to this sweep.
    have before : version.committed = true ∧ ((version ∈ kept.versions) ∨
        Superseded machine kept.versions version) := by
      by_cases inKept : version ∈ kept.versions
      · exact ⟨(exists_newer_of_not_mem_sweepChain keptInv.nodesNodup inKept missing).1,
          Or.inl inKept⟩
      · have superseded := pruned.superseded version mem inKept
        exact ⟨superseded.committed, .inr superseded⟩
    obtain ⟨isCommitted, before⟩ := before
    have strict : ∀ newest ∈ sweepChain starts kept.versions, newest.committed = true →
        version.commitTs ≤ newest.commitTs → version.commitTs < newest.commitTs := by
      intro newest newestMem newestCommitted le
      refine lt_of_le_of_ne le fun same => missing ?_
      rw [fullInv.eq_of_commitTs_eq clock mem
        (pruned.sub newest ((sweepChain_sublist _ _).subset newestMem)) isCommitted
        newestCommitted same]
      exact newestMem
    refine ⟨isCommitted, ?_, ?_⟩
    · have start : ∃ newer ∈ kept.versions, newer.committed = true ∧
          version.commitTs ≤ newer.commitTs := by
        rcases before with inKept | superseded
        · exact ⟨version, inKept, isCommitted, le_rfl⟩
        · obtain ⟨newer, newerMem, newerCommitted, later⟩ := superseded.newer
          exact ⟨newer, newerMem, newerCommitted, later.le⟩
      obtain ⟨newer, newerMem, newerCommitted, later⟩ := start
      rcases keptInv.exists_visible_mem_sweepChain clock starts
        (fun _ _ _ _ _ _ _ => rfl) newerMem newerCommitted rfl with
        ⟨newest, newestMem, newestCommitted, _, latest⟩
      exact ⟨newest, newestMem, newestCommitted,
        strict newest newestMem newestCommitted (le_trans later latest)⟩
    · intro txnId startTs opened inTime
      rw [snapshots] at opened
      have start : ∃ newer ∈ kept.versions, newer.committed = true ∧
          version.commitTs ≤ newer.commitTs ∧ newer.commitTs ≤ startTs := by
        rcases before with inKept | superseded
        · exact ⟨version, inKept, isCommitted, le_rfl, inTime⟩
        · obtain ⟨newer, newerMem, newerCommitted, later, newerInTime⟩ :=
            superseded.visible txnId startTs opened inTime
          exact ⟨newer, newerMem, newerCommitted, later.le, newerInTime⟩
      have closed : ∀ older ∈ kept.versions, ∀ newer ∈ kept.versions,
          newer.committed = true → decide (older.commitTs ≤ startTs) = true →
          (∀ start ∈ starts, older.commitTs ≤ start → newer.commitTs ≤ start) →
          decide (newer.commitTs ≤ startTs) = true := by
        intro older _ newer newerMem newerCommitted olderInTime unneeded
        apply decide_eq_true
        rcases Bool.or_eq_true_iff.mp (safe txnId startTs opened) with gathered | after
        · exact unneeded startTs (of_decide_eq_true gathered) (of_decide_eq_true olderInTime)
        · have passes := all_eq_true.mp after newer newerMem
          simpa [newerCommitted] using passes
      obtain ⟨newer, newerMem, newerCommitted, later, newerInTime⟩ := start
      rcases keptInv.exists_visible_mem_sweepChain clock starts
        closed newerMem newerCommitted (decide_eq_true newerInTime) with
        ⟨newest, newestMem, newestCommitted, newestInTime, latest⟩
      exact ⟨newest, newestMem, newestCommitted,
        strict newest newestMem newestCommitted (le_trans later latest),
        of_decide_eq_true newestInTime⟩

end

end

/-! ## The run without collection -/

section

variable {machine machine' : Machine} {history : History} {action : Action} {event : Event}
variable {table : KeyType → Option VersionChain} {key : KeyType} {kept full : VersionChain}

/-- Commits lie in the past. -/
lemma Inv.commitTs_lt (inv : Inv machine history) (key : KeyType) :
    ∀ version ∈ ((machine.table key).getD {}).versions, version.committed = true →
      version.commitTs < machine.globalTs := by
  intro version mem isCommitted
  exact (inv.clock.committed ((inv.chainInv_getD key).commitTs version mem isCommitted)).1

lemma PrunedTable.lookup (pruned : PrunedTable machine table)
    (found : machine.table key = some kept) :
    ∃ full, table key = some full ∧ ChainPruned machine kept full := by
  have present := pruned.present key
  have here := pruned.chains key
  rw [found] at present here
  obtain ⟨full, found'⟩ := isSome_iff_exists.mp present
  rw [found'] at here
  exact ⟨full, found', here⟩

lemma PrunedTable.of_table_eq (pruned : PrunedTable machine table)
    (inv : Inv machine history) (narrower : Narrower machine machine')
    (same : machine'.table = machine.table) : PrunedTable machine' table where
  present key := by rw [same]; exact pruned.present key
  chains key := by
    rw [same]
    exact (pruned.chains key).step narrower (inv.commitTs_lt key) (pruned.chains key).mutex
      (pruned.chains key).sub (fun _ mem missing => ⟨mem, missing⟩)
      (fun _ mem _ => mem)

lemma PrunedTable.update (pruned : PrunedTable machine table)
    (inv : Inv machine history) (narrower : Narrower machine machine')
    (updated : machine'.table = update machine.table key (some kept))
    (here : ChainPruned machine' kept full) :
    PrunedTable machine' (update table key (some full)) where
  present query := by
    rw [updated]
    by_cases same : query = key
    · subst same
      simp
    · simp [same, pruned.present query]
  chains query := by
    rw [updated]
    by_cases same : query = key
    · subst same
      simpa using here
    · simp only [update_of_ne same]
      exact (pruned.chains query).step narrower (inv.commitTs_lt query)
        (pruned.chains query).mutex (pruned.chains query).sub
        (fun _ mem missing => ⟨mem, missing⟩) (fun _ mem _ => mem)

section

variable (inv : Inv machine history)
include inv

/-- A transaction that releases its locks is still registered. -/
lemma Inv.registered_of_releasing (thread : machine.thread txnId = .releasing held success) :
    ∃ txn, machine.txns txnId = some txn := by
  have position := (inv.own thread).position
  cases success with
  | true => exact isSome_iff_exists.mp position.1
  | false =>
    obtain ⟨txn, active⟩ := position
    exact ⟨txn, active.registered⟩

/-- Every transition but those of collection is a step. -/
lemma Inv.step_of_transition (notGc : action.isGc = false)
    (transition : Transition machine action event machine') :
    machine.step action = some (event, machine') := by
  cases transition with
  | drawTxnId => rfl
  | drawStartTs thread | register thread | lookupKey thread | lookupDone thread
  | markDone thread | eraseDone thread | close thread => simp only [Machine.step, thread]
  | beginCommit thread known | validate thread known
  | drawCommitTs thread known | unlockDone thread known | abort thread known =>
    simp only [Machine.step, thread, known]
  | readMissing thread known lookup =>
    simp only [Machine.step, thread, known, Machine.stepRead, lookup]
  | read thread known lookup unlocked =>
    simp only [Machine.step, thread, known, Machine.stepRead, lookup, if_pos unlocked]
  | overwrite thread known unlocked overwritten =>
    simp only [Machine.step, thread, known, Machine.stepWrite, if_pos unlocked, overwritten]
  | push thread known unlocked nonePending =>
    simp only [Machine.step, thread, known, Machine.stepWrite, if_pos unlocked, nonePending]
  | lockChain thread lookup unlocked | eraseVersion thread lookup unlocked =>
    simp only [Machine.step, thread, lookup, if_pos unlocked]
  | markVersion thread lookup => simp only [Machine.step, thread, lookup]
  | unlockChain thread lookup =>
    obtain ⟨txn, known⟩ := inv.registered_of_releasing thread
    simp only [Machine.step, thread, known, lookup]
  | collector _ isGc =>
    rw [notGc] at isGc
    cases isGc
  | gcSweep => cases notGc

section

variable (reference : Inv (machine.withTable table) history) (pruned : PrunedTable machine table)
include reference pruned

/-- Every step but those of collection can be taken without it, to the same effect. -/
lemma pruned_step (notGc : action.isGc = false)
    (stepped : machine.step action = some (event, machine')) :
    ∃ table', (machine.withTable table).step action =
        some (event, machine'.withTable table') ∧ PrunedTable machine' table' := by
  have narrower := narrower_step stepped
  have past : ∀ {key chain}, machine.table key = some chain → ∀ newer ∈ chain.versions,
      newer.committed = true → newer.commitTs < machine.globalTs := by
    intro key chain lookup
    have here := inv.commitTs_lt key
    rw [lookup] at here
    exact here
  have taken {table' : KeyType → Option VersionChain} (pruned' : PrunedTable machine' table')
      (transition : Transition (machine.withTable table) action event
        (machine'.withTable table')) :
      ∃ table', (machine.withTable table).step action =
        some (event, machine'.withTable table') ∧ PrunedTable machine' table' :=
    ⟨table', reference.step_of_transition notGc transition, pruned'⟩
  -- A step that leaves the chains alone is the same step on either table.
  have unchanged (same : machine'.table = machine.table) :=
    taken (pruned.of_table_eq inv narrower same)
  cases transition_of_step stepped with
  | drawTxnId level => exact unchanged rfl (.drawTxnId level)
  | drawStartTs thread => exact unchanged rfl (.drawStartTs thread)
  | register thread => exact unchanged rfl (.register thread)
  | @readMissing txnId txn key thread known lookup =>
    have missing : table key = none := by
      have present := pruned.present key
      rw [lookup] at present
      exact Option.not_isSome_iff_eq_none.mp (by simp [present])
    exact unchanged rfl (.readMissing thread known missing)
  | @read txnId txn key chain thread known lookup unlocked =>
    obtain ⟨full, found, here⟩ := pruned.lookup lookup
    have ordered : ∀ older ∈ full.versions, ∀ newer ∈ full.versions,
        older.committed = true → newer.committed = true →
        older.commitTs < newer.commitTs → older.seq < newer.seq := by
      intro older olderMem newer newerMem olderCommitted newerCommitted later
      have ne : older ≠ newer := by
        intro equal
        rw [equal] at later
        exact lt_irrefl _ later
      exact (reference.ordered_alike found olderMem newerMem ne olderCommitted
        newerCommitted).2.mpr later
    have opened : txn.isolation.isSnapshot = true →
        machine.openSnapshot txnId = some txn.startTs := by
      intro snapshot
      simp [Machine.openSnapshot, thread, known, snapshot]
    have same := here.readChain_eq (reference.chains key full found) inv.clock ordered opened
    apply unchanged rfl
    rw [← same]
    exact .read thread known found (here.mutex.trans unlocked)
  | @overwrite txnId txn key deleted value versions thread known unlocked overwritten =>
    have here := pruned.chains key
    rcases here.overwritePending narrower (inv.commitTs_lt key) (inv.chainInv_getD key)
      (reference.chainInv_getD key) (inv.active_of_idle thread known).unsettled
      overwritten with ⟨versions', overwritten', updated⟩
    exact taken (pruned.update inv narrower rfl updated)
      (.overwrite thread known (here.mutex.trans unlocked) overwritten')
  | @push txnId txn key deleted value thread known unlocked nonePending =>
    have here := pruned.chains key
    exact taken (pruned.update inv narrower rfl (here.push narrower (inv.commitTs_lt key) _))
      (.push thread known (here.mutex.trans unlocked)
        (here.overwritePending_none nonePending))
  | beginCommit thread known => exact unchanged rfl (.beginCommit thread known)
  | @lookupKey txnId key todo found thread =>
    apply unchanged rfl
    rw [← pruned.present key]
    exact .lookupKey thread
  | lookupDone thread => exact unchanged rfl (.lookupDone thread)
  | lockChain thread lookup unlocked =>
    obtain ⟨full, found, here⟩ := pruned.lookup lookup
    exact taken (pruned.update inv narrower rfl (here.setMutex narrower (past lookup) _))
      (.lockChain thread found (here.mutex.trans unlocked))
  | @validate txnId held txn thread known =>
    obtain ⟨_, active, _⟩ := (inv.own thread).position
    have conflicts : (fun key => chainConflicts ((machine.table key).getD {}).versions txnId
          txn.startTs) =
        fun key => chainConflicts ((table key).getD {}).versions txnId txn.startTs := by
      funext key
      exact ((pruned.chains key).chainConflicts_eq (inv.chainInv_getD key)
        active.unsettled txn.startTs).symm
    apply unchanged rfl
    rw [conflicts]
    exact .validate thread known
  | drawCommitTs thread known => exact unchanged rfl (.drawCommitTs thread known)
  | @markVersion txnId commitTs record todo held chain thread lookup =>
    obtain ⟨full, found, here⟩ := pruned.lookup lookup
    have position := (inv.own thread).position
    obtain ⟨own, ownMem, sameNode, _, pending, _⟩ := inv.designated position.designates lookup
    have updated := here.markCommitted narrower (past lookup)
      (reference.chains record.key full found) ownMem pending commitTs
    rw [sameNode] at updated
    exact taken (pruned.update inv narrower rfl updated) (.markVersion thread found)
  | markDone thread => exact unchanged rfl (.markDone thread)
  | unlockChain thread lookup =>
    obtain ⟨full, found, here⟩ := pruned.lookup lookup
    exact taken (pruned.update inv narrower rfl (here.setMutex narrower (past lookup) _))
      (.unlockChain thread found)
  | unlockDone thread known => exact unchanged rfl (.unlockDone thread known)
  | abort thread known => exact unchanged rfl (.abort thread known)
  | @eraseVersion txnId record todo chain thread lookup unlocked =>
    obtain ⟨full, found, here⟩ := pruned.lookup lookup
    have position := (inv.own thread).position
    obtain ⟨own, ownMem, sameNode, _, pending, _⟩ := inv.designated position.designates lookup
    have updated := here.eraseNode narrower (past lookup)
      (inv.chains record.key chain lookup) (reference.chains record.key full found)
      ownMem pending
    rw [sameNode] at updated
    exact taken (pruned.update inv narrower rfl updated)
      (.eraseVersion thread found (here.mutex.trans unlocked))
  | eraseDone thread => exact unchanged rfl (.eraseDone thread)
  | close thread => exact unchanged rfl (.close thread)
  | collector _ isGc =>
    rw [notGc] at isGc
    cases isGc
  | gcSweep => cases notGc

/-- A safe collection step is not noticed by the run without it. -/
lemma pruned_collect (isGc : action.isGc = true)
    (safe : sweepSafe machine action = true)
    (stepped : machine.step action = some (event, machine')) :
    event = .silent ∧ machine'.withTable table = machine.withTable table ∧
      PrunedTable machine' table := by
  have narrower := narrower_step stepped
  cases transition_of_step stepped with
  | collector => exact ⟨rfl, rfl, pruned.of_table_eq inv narrower rfl⟩
  | @gcSweep starts key chain pass collector lookup unlocked =>
    simp only [sweepSafe, collector, lookup, all_eq_true, mem_range] at safe
    have safeFor : ∀ txnId startTs, machine.openSnapshot txnId = some startTs →
        safeFor starts chain.versions startTs = true := by
      intro txnId startTs opened
      have born : txnId < machine.nextTxnId := by
        apply inv.born
        intro unborn
        rw [Machine.openSnapshot, unborn] at opened
        cases opened
      have here := safe txnId born
      rw [opened] at here
      exact here
    obtain ⟨full, found, here⟩ := pruned.lookup lookup
    have swept : ChainPruned
        (machine.setChain key { chain with versions := sweepChain starts chain.versions })
        { chain with versions := sweepChain starts chain.versions } full :=
      here.sweep (inv.chains key chain lookup) (reference.chains key full found)
        inv.clock safeFor (fun _ => rfl)
    have updated := pruned.update inv narrower rfl swept
    rw [update_eq_self_iff.mpr found.symm] at updated
    exact ⟨rfl, rfl, updated⟩
  | _ => cases isGc

/-- The run without collection has the same events, but for those of collection. -/
lemma events_of_pruned
    (safe : AtEvery (fun machine action => sweepSafe machine action = true) schedule machine)
    (ran : runTrace schedule machine = some (events, final)) :
    ∃ events' table', runTrace (schedule.filter fun action => !action.isGc)
        (machine.withTable table) = some (events', final.withTable table') ∧
      ∀ observed : Event → Bool, observed .silent = false →
        events.filter observed = events'.filter observed := by
  induction schedule generalizing machine history table events with
  | nil =>
    cases ran
    exact ⟨[], table, rfl, fun _ _ => rfl⟩
  | cons action rest ih =>
    obtain ⟨event, machine', later, stepped, ranRest, rfl⟩ := runTrace_cons ran
    have inv' := inv_step inv stepped
    cases isGc : action.isGc with
    | true =>
      obtain ⟨rfl, same, pruned'⟩ := pruned_collect inv reference pruned isGc safe.1 stepped
      rw [← same] at reference
      obtain ⟨events', table', ran', agree⟩ := ih inv' reference pruned' (safe.tail stepped) ranRest
      refine ⟨events', table', ?_, ?_⟩
      · rw [filter_cons_of_neg (by simp [isGc]), ← same]
        exact ran'
      · intro observed unseen
        rw [filter_cons_of_neg (by simp [unseen])]
        exact agree observed unseen
    | false =>
      obtain ⟨table', stepped', pruned'⟩ := pruned_step inv reference pruned isGc stepped
      obtain ⟨events', table'', ran', agree⟩ :=
        ih inv' (inv_step reference stepped') pruned' (safe.tail stepped) ranRest
      refine ⟨event :: events', table'', ?_, ?_⟩
      · rw [List.filter_cons_of_pos (by simp [isGc])]
        exact runTrace_cons_eq stepped' ran'
      · intro observed unseen
        rw [filter_cons, filter_cons, agree observed unseen]

end

end

end

/-- In a run whose sweeps are all safe, the same schedule without its collection steps can
be run as well, and every transaction with a snapshot reads the same in both. -/
theorem gc_invisible_to_snapshots {schedule : List Action} {events : List Event}
    {machine : Machine} (ran : runTrace schedule {} = some (events, machine))
    (safe : SweepsSafe schedule) :
    ∃ events' machine', runTrace (schedule.filter fun action => !action.isGc) {} =
        some (events', machine') ∧
      ∀ txnId level startTs, (History.ofEvents events).started txnId = some (level, startTs) →
        level.isSnapshot = true →
        events.filter (Event.isReadOf txnId) = events'.filter (Event.isReadOf txnId) := by
  have start : PrunedTable {} (fun _ => none) :=
    ⟨fun _ => rfl, fun _ => ⟨rfl, fun _ member => member, fun _ member missing =>
      absurd member missing⟩⟩
  rcases events_of_pruned inv_init inv_init start safe ran with ⟨events', table', ran', agree⟩
  refine ⟨events', machine.withTable table', ran', ?_⟩
  intro txnId _ _ _ _
  exact agree (Event.isReadOf txnId) rfl

/-- `Write` and `Commit` of one key by a transaction that has begun. -/
def writeAndCommit (txnId : TxnId) (key : KeyType) (value : Bytes) : List Action :=
  [.write txnId key false value, .beginCommit txnId, .lookupChain txnId, .lookupChain txnId,
    .lockChain txnId, .validate txnId, .drawCommitTs txnId, .markVersion txnId,
    .markVersion txnId, .unlockChain txnId, .unlockChain txnId, .close txnId]

/-- `Begin`, by a transaction whose id is the next one. -/
def beginTxn (txnId : TxnId) (level : IsolationLevel) : List Action :=
  [.drawTxnId level, .drawStartTs txnId, .register txnId]

/-- The first half of a collection pass. -/
def gather (pass : Nat) : List Action :=
  .gcBegin pass :: replicate txnShardCount (.gcCollect pass)

/-- A reader begins between two writers of a key; the pass gathers its snapshot. -/
def gatheredSnapshot : List Action :=
  beginTxn 0 .snapshot ++ writeAndCommit 0 7 [1] ++ beginTxn 1 .snapshot ++ gather 0 ++
    beginTxn 2 .snapshot ++ writeAndCommit 2 7 [2] ++ [.gcSweep 0 7, .read 1 7]

theorem gc_invisible_to_snapshots_gatheredSnapshot : ∃ events machine events' machine',
    runTrace gatheredSnapshot {} = some (events, machine) ∧ SweepsSafe gatheredSnapshot ∧
    runTrace (gatheredSnapshot.filter fun action => !action.isGc) {} =
      some (events', machine') ∧
    events.filter (Event.isReadOf 1) = events'.filter (Event.isReadOf 1) := by
  have observed : (evalTrace [7] sweepSafe gatheredSnapshot {}).any fun result =>
      decide ((History.ofEvents result.1).started 1 = some (.snapshot, 3)) := by
    decide +kernel
  rcases (Option.any_eq_true _ _).mp observed with ⟨⟨events, machine⟩, evaluated, started⟩
  rcases runTrace_of_evalTrace evaluated with ⟨ran, safe⟩
  rcases gc_invisible_to_snapshots ran safe with ⟨events', machine', ran', agree⟩
  exact ⟨events, machine, events', machine', ran, safe, ran',
    agree 1 .snapshot 3 (of_decide_eq_true started) rfl⟩

/-- The same, but the pass has gathered the snapshots before the reader begins. -/
def lateSnapshot : List Action :=
  beginTxn 0 .snapshot ++ writeAndCommit 0 7 [1] ++ gather 0 ++ beginTxn 1 .snapshot ++
    beginTxn 2 .snapshot ++ writeAndCommit 2 7 [2] ++ [.gcSweep 0 7, .read 1 7]

/-- The sweep takes the version the open snapshot resolves to. -/
theorem lateSnapshot_loses_version : ∃ events machine events' machine',
    runTrace lateSnapshot {} = some (events, machine) ∧
    runTrace (lateSnapshot.filter fun action => !action.isGc) {} =
      some (events', machine') ∧
    (History.ofEvents events).started 1 = some (.snapshot, 3) ∧
    events.filter (Event.isReadOf 1) = [.read 1 7 none] ∧
    events'.filter (Event.isReadOf 1) = [.read 1 7 (some [1])] := by
  have collected : (evalTrace [7] (fun _ _ => true) lateSnapshot {}).any fun result =>
      decide ((History.ofEvents result.1).started 1 = some (.snapshot, 3)) &&
      decide (result.1.filter (Event.isReadOf 1) = [.read 1 7 none]) := by decide +kernel
  have uncollected : (evalTrace [7] (fun _ _ => true)
      (lateSnapshot.filter fun action => !action.isGc) {}).any fun result =>
      decide (result.1.filter (Event.isReadOf 1) = [.read 1 7 (some [1])]) := by
    decide +kernel
  rcases (Option.any_eq_true _ _).mp collected with ⟨⟨events, machine⟩, evaluated, reads⟩
  rcases (Option.any_eq_true _ _).mp uncollected with ⟨⟨events', machine'⟩, evaluated', reads'⟩
  rw [Bool.and_eq_true, decide_eq_true_eq, decide_eq_true_eq] at reads
  exact ⟨events, machine, events', machine', (runTrace_of_evalTrace evaluated).1,
    (runTrace_of_evalTrace evaluated').1, reads.1, reads.2, of_decide_eq_true reads'⟩

end DbEngine.Mvcc
