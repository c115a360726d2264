import DbEngine.Common.Lists
import DbEngine.Common.Config

/-!
# Version chains

The per-key half of `mvcc/mvcc_store.cpp`: what one call does to one chain while
it holds that chain's mutex.  The whole store, and the interleaving of calls over
it, are built on these operations.

A `WriteRecord` of the source keeps a `std::list` iterator.  Here every list node
carries an identity, and an iterator is the identity of the node it designates.
-/

namespace DbEngine.Mvcc

/-- `txn_id`, drawn from `next_txn_id_`. -/
abbrev TxnId := Nat

inductive IsolationLevel where
  | readUncommitted
  | readCommitted
  | snapshot
  | serializableSnapshot
  deriving Repr, DecidableEq

/-- `MVCCStore::Version`, together with the identity of the list node holding it. -/
structure Version where
  node : Nat
  txnId : TxnId
  seq : Int
  commitTs : Int := -1
  committed : Bool := false
  deleted : Bool := false
  value : Bytes
  deriving Repr, DecidableEq

namespace Version

/-- The test of both pending-version loops: an uncommitted version of `txnId`. -/
def pendingOf (txnId : TxnId) (version : Version) : Bool :=
  decide (version.txnId = txnId) && !version.committed

/-- What a caller of `Read` gets from the version the loops settled on. -/
def result (version : Version) : Option Bytes :=
  if version.deleted then none else some version.value

variable {txnId : TxnId} {version : Version}

@[simp] lemma pendingOf_iff : version.pendingOf txnId = true ↔
      version.txnId = txnId ∧ version.committed = false := by
  simp [pendingOf]

lemma pendingOf_of_ne (foreign : version.txnId ≠ txnId) : version.pendingOf txnId = false := by
  simp [pendingOf, foreign]

end Version

/-- A chain grows by a version that has no counterpart on it. -/
lemma nodup_map_concat {β : Type} {field : Version → β} {versions : List Version}
    {added : Version} (nodup : (versions.map field).Nodup)
    (fresh : ∀ version ∈ versions, field version ≠ field added) :
    ((versions ++ [added]).map field).Nodup := by
  rw [← concat_eq_append, map_concat]
  apply List.Nodup.concat _ nodup
  intro mem
  obtain ⟨version, versionMem, same⟩ := mem_map.mp mem
  exact fresh version versionMem same

/-- `MVCCStore::IsVisible`; the caller has already checked `committed`. -/
def isVisible (version : Version) (isolation : IsolationLevel)
    (startTs : Int) : Bool :=
  match isolation with
  | .readCommitted => true
  | .snapshot | .serializableSnapshot => decide (version.commitTs ≤ startTs)
  | .readUncommitted => true

/-- Timestamps are compared as integers. -/
scoped instance timestampPreorder : Preorder Int := Int.instLinearOrder.toPreorder

/-- The `best` a reader without a pending version of its own ends up with.  The
source's loops keep a version until one with a strictly larger `seq` (under
`READ_UNCOMMITTED`) or `commit_ts` comes along, which is `List.argmax`. -/
def bestVersion (versions : List Version) (isolation : IsolationLevel)
    (startTs : Int) : Option Version :=
  match isolation with
  | .readUncommitted => versions.argmax (·.seq)
  | _ =>
    (versions.filter fun version =>
      version.committed && isVisible version isolation startTs).argmax (·.commitTs)

/-- The part of `MVCCStore::Read` that runs under the chain's mutex. -/
def readChain (versions : List Version) (txnId : TxnId)
    (isolation : IsolationLevel) (startTs : Int) : Option Bytes :=
  match versions.find? (·.pendingOf txnId) with
  | some own => own.result
  | none => (bestVersion versions isolation startTs).bind Version.result

/-- The loop of `WriteInternal`: overwrite the transaction's pending version in
place, or report that there is none. -/
def overwritePending (txnId : TxnId) (deleted : Bool) (value : Bytes)
    (seq : Int) : List Version → Option (List Version)
  | [] => none
  | version :: rest =>
    if version.pendingOf txnId then
      some ({ version with
        deleted, value := if deleted then [] else value, seq } :: rest)
    else
      (overwritePending txnId deleted value seq rest).map (version :: ·)

/-- The version `WriteInternal` pushes when the transaction has none pending. -/
def newVersion (node : Nat) (txnId : TxnId) (deleted : Bool) (value : Bytes)
    (seq : Int) : Version where
  node
  txnId
  seq
  deleted
  value := if deleted then [] else value

/-- `versions.erase(it)`. -/
def eraseNode (node : Nat) (versions : List Version) : List Version :=
  versions.eraseP fun version => decide (version.node = node)

/-- The two assignments through a write record's iterator in `Commit`. -/
def markCommitted (node : Nat) (commitTs : Int)
    (versions : List Version) : List Version :=
  versions.map fun version =>
    if version.node = node then { version with committed := true, commitTs } else version

/-- The conflict test of `Commit` on one chain. -/
def chainConflicts (versions : List Version) (txnId : TxnId)
    (startTs : Int) : Bool :=
  versions.any fun version =>
    version.committed && decide (version.txnId ≠ txnId) &&
      decide (startTs < version.commitTs)

/-- The committed versions of a chain in the order `RunGarbageCollection` sorts
them into. -/
def committedInOrder (versions : List Version) : List Version :=
  (versions.filter (·.committed)).mergeSort
    fun left right => decide (left.commitTs ≤ right.commitTs)

/-- The nodes one sweep reclaims: a committed version goes when it has a committed
successor and no active snapshot lies between the two. -/
def reclaimable (activeStarts : List Int) : List Version → List Nat
  | older :: newer :: rest =>
    let needed := activeStarts.any fun start =>
      decide (older.commitTs ≤ start) && decide (start < newer.commitTs)
    if needed then reclaimable activeStarts (newer :: rest)
    else older.node :: reclaimable activeStarts (newer :: rest)
  | _ => []

/-- One iteration of `RunGarbageCollection` over the table, under the chain's
mutex. -/
def sweepChain (activeStarts : List Int) (versions : List Version) :
    List Version :=
  let reclaimed := reclaimable activeStarts (committedInOrder versions)
  versions.filter fun version => decide (version.node ∉ reclaimed)

/-! ## What each operation does to the set of versions -/

section

variable {versions : List Version} {txnId : TxnId} {startTs : Int}
variable {deleted : Bool} {value : Bytes} {seq : Int} {updated : List Version} {node : Nat}
  {version newer : Version} {activeStarts : List Int}

/-- Either the transaction has no pending version, or exactly one entry changes in
place. -/
lemma overwritePending_eq_none : overwritePending txnId deleted value seq versions = none ↔
      ∀ version ∈ versions, version.pendingOf txnId = false := by
  induction versions with
  | nil => simp [overwritePending]
  | cons version rest ih =>
    by_cases pending : version.pendingOf txnId
    · simp [overwritePending, pending]
    · simp only [overwritePending, pending, Bool.false_eq_true, if_false,
        Option.map_eq_none_iff, ih, forall_mem_cons]
      simp

lemma overwritePending_eq_some
    (overwritten : overwritePending txnId deleted value seq versions = some updated) :
    ∃ before old after, versions = before ++ old :: after ∧ old.pendingOf txnId = true ∧
      updated = before ++
        { old with deleted, value := if deleted then [] else value, seq } :: after := by
  induction versions generalizing updated with
  | nil => simp [overwritePending] at overwritten
  | cons version rest ih =>
    by_cases pending : version.pendingOf txnId
    · simp only [overwritePending, pending, if_true, some.injEq] at overwritten
      exact ⟨[], version, rest, rfl, pending, overwritten.symm⟩
    · simp only [overwritePending, pending, Bool.false_eq_true, if_false,
        map_eq_some_iff] at overwritten
      obtain ⟨tail, tailEq, rfl⟩ := overwritten
      obtain ⟨before, old, after, rfl, oldPending, rfl⟩ := ih tailEq
      exact ⟨version :: before, old, after, rfl, oldPending, rfl⟩

/-- With one version per transaction, overwriting replaces exactly the writer's. -/
lemma mem_of_overwritePending (nodup : (versions.map Version.txnId).Nodup)
    (overwritten : overwritePending txnId deleted value seq versions = some updated) :
    updated.map Version.node = versions.map Version.node ∧
    updated.map Version.txnId = versions.map Version.txnId ∧
    ∃ old ∈ versions, old.pendingOf txnId = true ∧ ∀ version, version ∈ updated ↔
      (version ∈ versions ∧ version.txnId ≠ txnId) ∨
      version = { old with deleted, value := if deleted then [] else value, seq } := by
  obtain ⟨before, old, after, rfl, pending, rfl⟩ := overwritePending_eq_some overwritten
  refine ⟨by simp, by simp, old, by simp, pending, ?_⟩
  have owner : old.txnId = txnId := (Version.pendingOf_iff.mp pending).1
  have others : ∀ version ∈ before ++ after, version.txnId ≠ txnId := by
    intro version mem equal
    rw [map_append, map_cons, List.nodup_middle, nodup_cons] at nodup
    apply nodup.1
    rw [← map_append, owner, ← equal]
    exact mem_map_of_mem mem
  intro version
  constructor
  · intro mem
    rcases mem_append.mp mem with first | second
    · exact .inl ⟨by simp [first], others version (by simp [first])⟩
    · rcases mem_cons.mp second with equal | last
      · exact .inr equal
      · exact .inl ⟨by simp [last], others version (by simp [last])⟩
  · intro cases
    rcases cases with ⟨mem, ne⟩ | equal
    · rcases mem_append.mp mem with first | second
      · exact mem_append_left _ first
      · rcases mem_cons.mp second with equal | last
        · exact absurd (equal ▸ owner) ne
        · exact mem_append_right _ (mem_cons_of_mem _ last)
    · subst equal
      simp

lemma mem_eraseNode (nodup : (versions.map Version.node).Nodup) :
    version ∈ eraseNode node versions ↔ version ∈ versions ∧ version.node ≠ node := by
  induction versions with
  | nil => simp [eraseNode]
  | cons head rest ih =>
    simp only [map_cons, nodup_cons, mem_map, not_exists, not_and] at nodup
    unfold eraseNode at ih ⊢
    by_cases hit : head.node = node
    · rw [List.eraseP_cons_of_pos (by simpa using hit)]
      constructor
      · intro mem
        exact ⟨mem_cons_of_mem _ mem, fun equal =>
          nodup.1 version mem (equal.trans hit.symm)⟩
      · rintro ⟨mem, ne⟩
        rcases mem_cons.mp mem with rfl | mem
        · exact absurd hit ne
        · exact mem
    · rw [List.eraseP_cons_of_neg (by simpa using hit), mem_cons, mem_cons, ih nodup.2]
      constructor
      · rintro (rfl | ⟨mem, ne⟩)
        · exact ⟨.inl rfl, hit⟩
        · exact ⟨.inr mem, ne⟩
      · rintro ⟨rfl | mem, ne⟩
        · exact .inl rfl
        · exact .inr ⟨mem, ne⟩

lemma eraseNode_sublist (node : Nat) (versions : List Version) :
    (eraseNode node versions).Sublist versions :=
  List.eraseP_sublist

lemma mem_markCommitted {commitTs : Int} : version ∈ markCommitted node commitTs versions ↔
      (version ∈ versions ∧ version.node ≠ node) ∨ ∃ old ∈ versions, old.node = node ∧
        version = { old with committed := true, commitTs } := by
  simp only [markCommitted, mem_map]
  constructor
  · rintro ⟨old, mem, rfl⟩
    by_cases hit : old.node = node
    · exact .inr ⟨old, mem, hit, by simp [hit]⟩
    · exact .inl ⟨by simpa [hit] using mem, by simp [hit]⟩
  · rintro (⟨mem, ne⟩ | ⟨old, mem, hit, rfl⟩)
    · exact ⟨version, mem, by simp [ne]⟩
    · exact ⟨old, mem, by simp [hit]⟩

@[simp] lemma markCommitted_map_node (node : Nat) (commitTs : Int) (versions : List Version) :
    (markCommitted node commitTs versions).map Version.node = versions.map Version.node := by
  simp only [markCommitted, map_map]
  apply map_congr_left
  intro version _
  by_cases hit : version.node = node <;> simp [hit]

@[simp] lemma markCommitted_map_txnId (node : Nat) (commitTs : Int) (versions : List Version) :
    (markCommitted node commitTs versions).map Version.txnId = versions.map Version.txnId := by
  simp only [markCommitted, map_map]
  apply map_congr_left
  intro version _
  by_cases hit : version.node = node <;> simp [hit]

lemma chainConflicts_eq_false : chainConflicts versions txnId startTs = false ↔
      ∀ version ∈ versions, version.committed = true → version.txnId ≠ txnId →
        version.commitTs ≤ startTs := by
  simp only [chainConflicts, any_eq_false, Bool.and_eq_true, decide_eq_true_eq,
    not_and, not_lt, and_imp]

lemma sweepChain_sublist (activeStarts : List Int) (versions : List Version) :
    (sweepChain activeStarts versions).Sublist versions :=
  filter_sublist

lemma mem_committedInOrder : version ∈ committedInOrder versions ↔
      version ∈ versions ∧ version.committed = true := by
  simp [committedInOrder, mem_filter]

lemma committedInOrder_pairwise (versions : List Version) :
    (committedInOrder versions).Pairwise fun left right => left.commitTs ≤ right.commitTs := by
  have sorted := @List.pairwise_mergeSort _
    (fun left right : Version => decide (left.commitTs ≤ right.commitTs))
    (by simpa using fun a b c : Version => le_trans)
    (by simpa using fun a b : Version => le_total a.commitTs b.commitTs)
    (versions.filter (·.committed))
  simpa [committedInOrder] using sorted

/-- A reclaimed node is one of the sorted versions, but never the last one. -/
lemma mem_reclaimable : ∀ {sorted : List Version}, node ∈ reclaimable activeStarts sorted →
      ∃ before older newer after, sorted = before ++ older :: newer :: after ∧ older.node = node ∧
        ∀ start ∈ activeStarts, older.commitTs ≤ start → newer.commitTs ≤ start := by
  intro sorted
  induction sorted with
  | nil => simp [reclaimable]
  | cons older rest ih =>
    cases rest with
    | nil => simp [reclaimable]
    | cons newer rest =>
      intro mem
      have tail : node ∈ reclaimable activeStarts (newer :: rest) → ∃ before middle next after,
            older :: newer :: rest = before ++ middle :: next :: after ∧
            middle.node = node ∧
            ∀ start ∈ activeStarts, middle.commitTs ≤ start →
              next.commitTs ≤ start := by
        intro later
        obtain ⟨before, middle, next, after, split, rest⟩ := ih later
        exact ⟨older :: before, middle, next, after, by rw [split]; rfl, rest⟩
      simp only [reclaimable] at mem
      split at mem
      · exact tail mem
      next unneeded =>
        rcases mem_cons.mp mem with rfl | later
        · refine ⟨[], older, newer, rest, rfl, rfl, ?_⟩
          intro start active low
          by_contra high
          apply unneeded
          simp only [any_eq_true, Bool.and_eq_true, decide_eq_true_eq]
          exact ⟨start, active, low, not_le.mp high⟩
        · exact tail later

/-- The newest committed version survives every sweep, and so does any version a
listed snapshot still resolves to. -/
lemma exists_newer_of_not_mem_sweepChain (nodup : (versions.map Version.node).Nodup)
    (mem : version ∈ versions) (gone : version ∉ sweepChain activeStarts versions) :
    version.committed = true ∧ ∃ newer ∈ versions,
      newer.committed = true ∧ newer.node ≠ version.node ∧ version.commitTs ≤ newer.commitTs ∧
      ∀ start ∈ activeStarts, version.commitTs ≤ start → newer.commitTs ≤ start := by
  have reclaimed : version.node ∈ reclaimable activeStarts (committedInOrder versions) := by
    by_contra kept
    exact gone (mem_filter.mpr ⟨mem, by simpa using kept⟩)
  obtain ⟨before, older, newer, after, split, sameNode, unneeded⟩ := mem_reclaimable reclaimed
  have olderMem : older ∈ versions ∧ older.committed = true := by
    rw [← mem_committedInOrder, split]
    simp
  have newerMem : newer ∈ versions ∧ newer.committed = true := by
    rw [← mem_committedInOrder, split]
    simp
  have same : older = version := inj_on_of_nodup_map nodup olderMem.1 mem sameNode
  subst same
  have ordered := committedInOrder_pairwise versions
  rw [split, pairwise_append] at ordered
  have adjacent : older.commitTs ≤ newer.commitTs :=
    (pairwise_cons.mp ordered.2.1).1 newer (by simp)
  have sortedNodup : ((committedInOrder versions).map Version.node).Nodup := by
    have permuted : (committedInOrder versions).Perm (versions.filter (·.committed)) :=
      List.mergeSort_perm _ _
    rw [(permuted.map Version.node).nodup_iff]
    exact nodup.sublist (List.Sublist.map _ filter_sublist)
  have ne : newer.node ≠ older.node := by
    rw [split, map_append, nodup_append] at sortedNodup
    have tailNodup := sortedNodup.2.1
    simp only [map_cons, nodup_cons, mem_cons, not_or] at tailNodup
    exact fun equal => tailNodup.1.1 equal.symm
  exact ⟨olderMem.2, newer, newerMem.1, newerMem.2, ne, adjacent, unneeded⟩

/-- A version is reclaimed when no listed snapshot lies between it and the next one. -/
lemma mem_reclaimable_of_unneeded
    (unneeded : ∀ start ∈ activeStarts, older.commitTs ≤ start → newer.commitTs ≤ start) :
    ∀ before : List Version,
      older.node ∈ reclaimable activeStarts (before ++ older :: newer :: after) := by
  have skips (head : Version) (rest : List Version)
      (later : older.node ∈ reclaimable activeStarts rest) :
      older.node ∈ reclaimable activeStarts (head :: rest) := by
    cases rest with
    | nil => cases later
    | cons next rest =>
      simp only [reclaimable]
      split
      · exact later
      · exact mem_cons_of_mem _ later
  intro before
  induction before with
  | nil =>
    simp only [nil_append, reclaimable]
    rw [if_neg]
    · exact mem_cons_self
    · simpa using unneeded
  | cons head before ih => exact skips head _ ih

/-- A committed version that survives a sweep beside a newer one is what some listed
snapshot resolves to. -/
lemma exists_start_of_mem_sweepChain (kept : version ∈ sweepChain activeStarts versions)
    (isCommitted : version.committed = true) (newerMem : newer ∈ versions)
    (newerCommitted : newer.committed = true) (later : version.commitTs < newer.commitTs) :
    ∃ start ∈ activeStarts, version.commitTs ≤ start ∧ ∀ other ∈ versions,
      other.committed = true → version.commitTs < other.commitTs → start < other.commitTs := by
  obtain ⟨mem, notReclaimed⟩ := mem_filter.mp kept
  obtain ⟨before, after, split⟩ := List.append_of_mem (mem_committedInOrder.mpr ⟨mem, isCommitted⟩)
  have ordered := committedInOrder_pairwise versions
  rw [split, pairwise_append] at ordered
  have isAfter : ∀ other ∈ versions, other.committed = true →
      version.commitTs < other.commitTs → other ∈ after := by
    intro other otherMem otherCommitted above
    have listed := mem_committedInOrder.mpr ⟨otherMem, otherCommitted⟩
    rw [split, mem_append, mem_cons] at listed
    rcases listed with early | rfl | late
    · exact absurd (ordered.2.2 other early version mem_cons_self) (not_le.mpr above)
    · exact absurd above (lt_irrefl _)
    · exact late
  cases after with
  | nil => cases isAfter newer newerMem newerCommitted later
  | cons next rest =>
    by_contra none
    apply of_decide_eq_true notReclaimed
    rw [split]
    apply mem_reclaimable_of_unneeded
    intro start active low
    by_contra high
    refine none ⟨start, active, low, ?_⟩
    intro other otherMem otherCommitted above
    have nextFirst : next.commitTs ≤ other.commitTs := by
      rcases mem_cons.mp (isAfter other otherMem otherCommitted above) with rfl | late
      · exact le_rfl
      · exact (pairwise_cons.mp (pairwise_cons.mp ordered.2.1).2).1 other late
    exact lt_of_lt_of_le (not_le.mp high) nextFirst

/-- The newest version of a list is still the newest of any part that keeps it. -/
lemma argmax_eq_of_kept {all part : List Version} {rank : Version → Int}
    (isPart : ∀ version ∈ part, version ∈ all)
    (distinct : ∀ left ∈ all, ∀ right ∈ all, rank left = rank right → left = right)
    (kept : ∀ version, all.argmax rank = some version → version ∈ part) :
    part.argmax rank = all.argmax rank := by
  cases found : all.argmax rank with
  | none =>
    rw [argmax_eq_none] at found ⊢
    subst found
    exact List.eq_nil_iff_forall_not_mem.mpr fun version mem => by
      cases isPart version mem
  | some best =>
    have bestKept := kept best found
    cases foundPart : part.argmax rank with
    | none =>
      rw [argmax_eq_none.mp foundPart] at bestKept
      cases bestKept
    | some other =>
      have otherMem := argmax_mem foundPart
      have le : rank best ≤ rank other := le_of_mem_argmax bestKept foundPart
      have ge : rank other ≤ rank best := le_of_mem_argmax (isPart other otherMem) found
      rw [distinct other (isPart other otherMem) best (argmax_mem found) (le_antisymm ge le)]

end

end DbEngine.Mvcc
