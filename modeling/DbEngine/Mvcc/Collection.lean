import DbEngine.Mvcc.Reclaim

/-!
# Garbage collection as one step

`RunGarbageCollection` by a thread nobody interrupts: it gathers the start timestamps of
every shard and sweeps every chain.  Between calls each open snapshot belongs to a
registered transaction, so it is gathered, every sweep is safe, and the store afterwards
takes the same steps with the same events as the store before.  What a sweep leaves of a
chain is said version by version.
-/

namespace DbEngine.Mvcc

open Function

/-- `RunGarbageCollection` without interruption, visiting the chains in some order. -/
def collection (pass : Nat) (keys : List KeyType) : List Action :=
  gather pass ++ keys.map (.gcSweep pass) ++ [.gcEnd pass]

/-- Nobody is inside a call: no `Begin` has drawn its timestamp without registering, no
chain is locked. -/
structure Machine.BetweenCalls (machine : Machine) : Prop where
  begun : ∀ txnId level startTs, machine.thread txnId ≠ .drawnTs level startTs
  unlocked : ∀ key chain, machine.table key = some chain → chain.mutex = none

/-- The registered transactions. -/
def Machine.activeTxns (machine : Machine) : List Transaction :=
  (range machine.nextTxnId).filterMap machine.txns

section

variable {machine machine' : Machine} {history : History} {action : Action} {event : Event}
variable {table : KeyType → Option VersionChain}

lemma PrunedTable.lookup_full (pruned : PrunedTable machine table) (found : table key = some full) :
    ∃ kept, machine.table key = some kept ∧ ChainPruned machine kept full := by
  have present := pruned.present key
  have here := pruned.chains key
  rw [found] at present here
  obtain ⟨kept, found'⟩ := isSome_iff_exists.mp present.symm
  rw [found'] at here
  exact ⟨kept, found', here⟩

/-- Where the machine without collection can take a step, so can the other one. -/
lemma exists_step_of_withTable (inv : Inv machine history)
    (pruned : PrunedTable machine table) (notGc : action.isGc = false)
    (stepped : (machine.withTable table).step action = some (event, machine')) :
    ∃ event machine', machine.step action = some (event, machine') := by
  have taken {event : Event} {machine' : Machine}
      (transition : Transition machine action event machine') :
      ∃ event machine', machine.step action = some (event, machine') :=
    ⟨event, machine', inv.step_of_transition notGc transition⟩
  cases transition_of_step stepped with
  | drawTxnId level => exact taken (.drawTxnId level)
  | drawStartTs thread => exact taken (.drawStartTs thread)
  | register thread => exact taken (.register thread)
  | @readMissing txnId txn key thread known lookup =>
    have missing : machine.table key = none := by
      have present := pruned.present key
      rw [show table key = none from lookup] at present
      exact Option.not_isSome_iff_eq_none.mp (by simp [← present])
    exact taken (.readMissing thread known missing)
  | read thread known lookup unlocked =>
    obtain ⟨kept, found, here⟩ := pruned.lookup_full lookup
    exact taken (.read thread known found (here.mutex.symm.trans unlocked))
  | @overwrite txnId _ key deleted value _ thread known unlocked _
  | @push txnId _ key deleted value thread known unlocked _ =>
    have unlocked' := (pruned.chains key).mutex.symm.trans unlocked
    cases outcome : overwritePending txnId deleted value machine.globalTs
        ((machine.table key).getD {}).versions with
    | none => exact taken (.push thread known unlocked' outcome)
    | some versions => exact taken (.overwrite thread known unlocked' outcome)
  | beginCommit thread known => exact taken (.beginCommit thread known)
  | lookupKey thread => exact taken (.lookupKey thread)
  | lookupDone thread => exact taken (.lookupDone thread)
  | lockChain thread lookup unlocked =>
    obtain ⟨kept, found, here⟩ := pruned.lookup_full lookup
    exact taken (.lockChain thread found (here.mutex.symm.trans unlocked))
  | validate thread known => exact taken (.validate thread known)
  | drawCommitTs thread known => exact taken (.drawCommitTs thread known)
  | markVersion thread lookup =>
    obtain ⟨kept, found, here⟩ := pruned.lookup_full lookup
    exact taken (.markVersion thread found)
  | markDone thread => exact taken (.markDone thread)
  | unlockChain thread lookup =>
    obtain ⟨kept, found, here⟩ := pruned.lookup_full lookup
    exact taken (.unlockChain thread found)
  | unlockDone thread known => exact taken (.unlockDone thread known)
  | abort thread known => exact taken (.abort thread known)
  | eraseVersion thread lookup unlocked =>
    obtain ⟨kept, found, here⟩ := pruned.lookup_full lookup
    exact taken (.eraseVersion thread found (here.mutex.symm.trans unlocked))
  | eraseDone thread => exact taken (.eraseDone thread)
  | close thread => exact taken (.close thread)
  | collector _ isGc =>
    rw [notGc] at isGc
    cases isGc
  | gcSweep => cases notGc

/-- Whatever is scheduled next has the same events on either table, or cannot be run on
either. -/
lemma PrunedTable.same_future (inv : Inv machine history)
    (reference : Inv (machine.withTable table) history) (pruned : PrunedTable machine table)
    (noGc : ∀ action ∈ schedule, action.isGc = false) : (runTrace schedule machine).map Prod.fst =
      (runTrace schedule (machine.withTable table)).map Prod.fst := by
  induction schedule generalizing machine history table with
  | nil => rfl
  | cons action rest ih =>
    have notGc := noGc action mem_cons_self
    cases stepped : machine.step action with
    | none =>
      cases stepped' : (machine.withTable table).step action with
      | none => simp only [runTrace, stepped, stepped']
      | some result =>
        obtain ⟨event, machine', possible⟩ := exists_step_of_withTable inv pruned notGc stepped'
        rw [stepped] at possible
        cases possible
    | some result =>
      obtain ⟨event, machine'⟩ := result
      obtain ⟨table', stepped', pruned'⟩ := pruned_step inv reference pruned notGc stepped
      have later := ih (inv_step inv stepped) (inv_step reference stepped') pruned'
        fun action mem => noGc action (mem_cons_of_mem _ mem)
      simp only [runTrace, stepped, stepped', Option.map_map, comp_def]
      have events {result : Option (List Event × Machine)} :
          (result.map fun after => event :: after.1) =
            (result.map Prod.fst).map (event :: ·) := by
        rw [Option.map_map]
        rfl
      rw [events, events, later]

/-- The same chains with nothing pruned. -/
lemma PrunedTable.self (machine : Machine) : PrunedTable machine machine.table where
  present _ := rfl
  chains _ := ⟨rfl, fun _ mem => mem, fun _ mem missing => absurd mem missing⟩

end

/-! ## One uninterrupted pass -/

section

variable {machine final : Machine} {history : History} {pass : Nat} {starts : List Int}

/-- A pass moves on. -/
def Machine.setCollector (machine : Machine) (pass : Nat) (at_ : Collection) : Machine :=
  { machine with collector := update machine.collector pass at_ }

/-- The chains of some keys swept. -/
def Machine.swept (machine : Machine) (starts : List Int) (keys : List KeyType) : Machine :=
  { machine with table := fun key =>
      if key ∈ keys then (machine.table key).map fun chain =>
        { chain with versions := sweepChain starts chain.versions }
      else machine.table key }

lemma runTrace_append (ran : runTrace first machine = some (events, middle))
    (ran' : runTrace second middle = some (events', final)) :
    ∃ all, runTrace (first ++ second) machine = some (all, final) := by
  induction first generalizing machine events with
  | nil =>
    cases ran
    exact ⟨events', ran'⟩
  | cons action rest ih =>
    obtain ⟨event, machine', later, stepped, ranRest, rfl⟩ := runTrace_cons ran
    obtain ⟨all, ranAll⟩ := ih ranRest
    exact ⟨event :: all, runTrace_cons_eq stepped ranAll⟩

/-- Collection steps tell an observer nothing and keep the invariant. -/
lemma inv_of_collection (inv : Inv machine history) (isGc : ∀ action ∈ schedule, action.isGc = true)
    (ran : runTrace schedule machine = some (events, final)) : Inv final history := by
  induction schedule generalizing machine events with
  | nil =>
    cases ran
    exact inv
  | cons action rest ih =>
    obtain ⟨event, machine', later, stepped, ranRest, rfl⟩ := runTrace_cons ran
    have silent : event = .silent := by
      have gc := isGc action mem_cons_self
      cases transition_of_step stepped with
      | collector | gcSweep => rfl
      | _ => cases gc
    subst silent
    exact ih (inv_step inv stepped) (fun action mem => isGc action (mem_cons_of_mem _ mem)) ranRest

/-- The shards left are gathered one after the other. -/
lemma collect_run (count : shard + (left + 1) = txnShardCount)
    (current : machine.collector pass = .collecting shard starts) :
    ∃ events starts', runTrace (replicate (left + 1) (.gcCollect pass)) machine =
        some (events, machine.setCollector pass (.sweeping starts')) ∧
      ∀ start, start ∈ starts' ↔ start ∈ starts ∨ ∃ other, shard ≤ other ∧
        other < txnShardCount ∧ ∃ txn ∈ machine.shardTxns other, txn.startTs = start := by
  induction left generalizing machine shard starts with
  | zero =>
    have last : ¬ shard + 1 < txnShardCount := by omega
    refine ⟨[.silent], starts ++ (machine.shardTxns shard).map (·.startTs), ?_, ?_⟩
    · simp only [List.replicate_succ, List.replicate_zero, runTrace, Machine.step, current,
        if_neg last]
      rfl
    · intro start
      rw [mem_append, mem_map]
      refine or_congr_right ⟨fun found => ⟨shard, le_rfl, by omega, found⟩, ?_⟩
      rintro ⟨other, low, high, found⟩
      have only : other = shard := by omega
      rwa [only] at found
  | succ left ih =>
    have more : shard + 1 < txnShardCount := by omega
    have stepped : machine.step (.gcCollect pass) = some (.silent, machine.setCollector pass
        (.collecting (shard + 1) (starts ++ (machine.shardTxns shard).map (·.startTs)))) := by
      simp only [Machine.step, current, if_pos more]
      rfl
    rcases @ih (machine.setCollector pass _) _ (shard + 1) (by omega)
      (update_self pass _ machine.collector) with ⟨events, starts', ran, mem_iff⟩
    have same : (machine.setCollector pass (.collecting (shard + 1)
        (starts ++ (machine.shardTxns shard).map (·.startTs)))).setCollector pass
          (.sweeping starts') = machine.setCollector pass (.sweeping starts') := by
      simp [Machine.setCollector]
    rw [same] at ran
    refine ⟨_, starts', runTrace_cons_eq stepped ran, ?_⟩
    intro start
    rw [mem_iff, mem_append, mem_map, or_assoc]
    refine or_congr_right ⟨?_, ?_⟩
    · rintro (here | ⟨other, low, high, found⟩)
      · exact ⟨shard, le_rfl, by omega, here⟩
      · exact ⟨other, by omega, high, found⟩
    · rintro ⟨other, low, high, found⟩
      rcases Nat.eq_or_lt_of_le low with rfl | above
      · exact .inl found
      · exact .inr ⟨other, above, high, found⟩

lemma gather_run (free : machine.collector pass = .none) :
    ∃ events starts, runTrace (gather pass) machine =
        some (events, machine.setCollector pass (.sweeping starts)) ∧
      ∀ start, start ∈ starts ↔ ∃ txn ∈ machine.activeTxns, txn.startTs = start := by
  have stepped : machine.step (.gcBegin pass) =
      some (.silent, machine.setCollector pass (.collecting 0 [])) := by
    simp only [Machine.step, free]
    rfl
  rcases @collect_run (machine.setCollector pass (.collecting 0 [])) pass [] 0 15 rfl
    (update_self pass _ machine.collector) with ⟨events, starts, ran, mem_iff⟩
  have same : (machine.setCollector pass (.collecting 0 [])).setCollector pass
      (.sweeping starts) = machine.setCollector pass (.sweeping starts) := by
    simp [Machine.setCollector]
  rw [same] at ran
  refine ⟨_, starts, runTrace_cons_eq stepped ran, ?_⟩
  intro start
  rw [mem_iff]
  constructor
  · rintro (none | ⟨other, _, _, txn, mem, same⟩)
    · cases none
    · obtain ⟨txnId, listed, known⟩ := mem_filterMap.mp mem
      exact ⟨txn, mem_filterMap.mpr ⟨txnId, (mem_filter.mp listed).1, known⟩, same⟩
  · rintro ⟨txn, mem, same⟩
    obtain ⟨txnId, listed, known⟩ := mem_filterMap.mp mem
    refine Or.inr ⟨txnId % txnShardCount, Nat.zero_le _, Nat.mod_lt _ (by decide), txn, ?_, same⟩
    exact mem_filterMap.mpr ⟨txnId, mem_filter.mpr ⟨listed, decide_eq_true rfl⟩, known⟩

/-- The chains are swept one after the other. -/
lemma sweep_run (nodup : keys.Nodup) (current : machine.collector pass = .sweeping starts)
    (present : ∀ key ∈ keys, ∃ chain, machine.table key = some chain ∧ chain.mutex = none) :
    ∃ events, runTrace (keys.map (.gcSweep pass)) machine =
      some (events, machine.swept starts keys) := by
  induction keys generalizing machine with
  | nil => exact ⟨[], by simp [runTrace, Machine.swept]⟩
  | cons key rest ih =>
    obtain ⟨notLater, nodupRest⟩ := nodup_cons.mp nodup
    obtain ⟨chain, found, unlocked⟩ := present key mem_cons_self
    obtain ⟨machine', after⟩ : ∃ machine', machine' = machine.setChain key
        { chain with versions := sweepChain starts chain.versions } := ⟨_, rfl⟩
    have stepped : machine.step (.gcSweep pass key) = some (.silent, machine') := by
      simp only [Machine.step, current, found, if_pos unlocked, after]
    have present' : ∀ other ∈ rest, ∃ chain', machine'.table other = some chain' ∧
        chain'.mutex = none := by
      intro other mem
      have elsewhere : other ≠ key := by
        rintro rfl
        exact notLater mem
      rw [after, Machine.setChain_table, update_of_ne elsewhere]
      exact present other (mem_cons_of_mem _ mem)
    have current' : machine'.collector pass = .sweeping starts := by
      rw [after]
      exact current
    obtain ⟨events, ran⟩ := ih nodupRest current' present'
    have same : machine'.swept starts rest = machine.swept starts (key :: rest) := by
      simp only [after, Machine.swept, Machine.setChain, Machine.mk.injEq, true_and, and_true]
      funext query
      by_cases here : query = key
      · subst here
        simp [notLater, found]
      · simp [here]
    rw [same] at ran
    exact ⟨_, runTrace_cons_eq stepped ran⟩

/-- An uninterrupted pass sweeps every chain with the timestamps of every registered
transaction, and is over. -/
lemma collection_run (free : machine.collector pass = .none) (between : machine.BetweenCalls)
    (nodup : keys.Nodup) (listed : ∀ key, key ∈ keys ↔ (machine.table key).isSome) :
    ∃ events starts, runTrace (collection pass keys) machine =
        some (events, machine.swept starts keys) ∧
      ∀ start, start ∈ starts ↔ ∃ txn ∈ machine.activeTxns, txn.startTs = start := by
  obtain ⟨gathering, starts, gathered, mem_iff⟩ := gather_run free
  have present : ∀ key ∈ keys, ∃ chain, machine.table key = some chain ∧
      chain.mutex = none := by
    intro key mem
    obtain ⟨chain, found⟩ := isSome_iff_exists.mp ((listed key).mp mem)
    exact ⟨chain, found, between.unlocked key chain found⟩
  have sweeping : (machine.setCollector pass (.sweeping starts)).collector pass =
      .sweeping starts := update_self ..
  obtain ⟨events, swept⟩ := sweep_run nodup sweeping present
  have ended : runTrace [.gcEnd pass]
      ((machine.setCollector pass (.sweeping starts)).swept starts keys) =
        some ([.silent], machine.swept starts keys) := by
    have current : ((machine.setCollector pass (.sweeping starts)).swept starts keys).collector
        pass = .sweeping starts := sweeping
    have done : update (update machine.collector pass (.sweeping starts))
        pass .none = machine.collector := by
      rw [update_idem, update_eq_self_iff, free]
    simp only [runTrace, Machine.step, current, map_some]
    simp only [Machine.swept, Machine.setCollector, done]
  obtain ⟨_, ran⟩ := runTrace_append gathered swept
  obtain ⟨all, ranAll⟩ := runTrace_append ran ended
  exact ⟨all, starts, ranAll, mem_iff⟩

end

/-! ## What a pass leaves -/

section

variable {machine : Machine} {history : History} {key : KeyType} {chain : VersionChain}
variable {starts : List Int}

lemma ChainInv.argmax_eq (chainInv : ChainInv machine history key chain) {now : Int}
    (clock : ClockInv history now) {visible : Version → Bool} {version : Version}
    (mem : version ∈ chain.versions) (isCommitted : version.committed = true)
    (seen : visible version = true)
    (newest : ∀ other ∈ chain.versions, other.committed = true → visible other = true →
      other.commitTs ≤ version.commitTs) :
    (chain.versions.filter fun version => version.committed && visible version).argmax
      (·.commitTs) = some version := by
  have passes {other : Version} (listed : other ∈ chain.versions.filter fun version =>
      version.committed && visible version) :
      other ∈ chain.versions ∧ other.committed = true ∧ visible other = true := by
    obtain ⟨otherMem, both⟩ := mem_filter.mp listed
    exact ⟨otherMem, Bool.and_eq_true_iff.mp both⟩
  apply List.argmax_eq_some_iff.mpr
  refine ⟨mem_filter.mpr ⟨mem, Bool.and_eq_true_iff.mpr ⟨isCommitted, seen⟩⟩, ?_, ?_⟩
  · intro other listed
    obtain ⟨otherMem, otherCommitted, otherSeen⟩ := passes listed
    exact newest other otherMem otherCommitted otherSeen
  · intro other listed atLeast
    obtain ⟨otherMem, otherCommitted, otherSeen⟩ := passes listed
    rw [chainInv.eq_of_commitTs_eq clock otherMem mem otherCommitted isCommitted
      (le_antisymm (newest other otherMem otherCommitted otherSeen) atLeast)]

/-- A sweep leaves what is pending, the newest committed version, and what a listed
snapshot resolves to. -/
lemma ChainInv.mem_sweepChain (chainInv : ChainInv machine history key chain)
    (clock : ClockInv history now) {version : Version} :
    version ∈ sweepChain starts chain.versions ↔ version ∈ chain.versions ∧
      (version.committed = true → bestVersion chain.versions .readCommitted now = some version ∨
        ∃ start ∈ starts, bestVersion chain.versions .snapshot start = some version) := by
  constructor
  · intro kept
    have mem := (sweepChain_sublist starts chain.versions).subset kept
    refine ⟨mem, fun isCommitted => ?_⟩
    by_cases newest : ∀ other ∈ chain.versions, other.committed = true →
        other.commitTs ≤ version.commitTs
    · left
      apply chainInv.argmax_eq clock mem isCommitted rfl
      intro other otherMem otherCommitted _
      exact newest other otherMem otherCommitted
    · push Not at newest
      obtain ⟨newer, newerMem, newerCommitted, later⟩ := newest
      obtain ⟨start, active, low, high⟩ :=
        exists_start_of_mem_sweepChain kept isCommitted newerMem newerCommitted later
      refine Or.inr ⟨start, active,
        chainInv.argmax_eq clock mem isCommitted (decide_eq_true low) ?_⟩
      intro other otherMem otherCommitted inTime
      by_contra above
      have after := high other otherMem otherCommitted (not_le.mp above)
      exact absurd (of_decide_eq_true inTime) (not_le.mpr after)
  · rintro ⟨mem, resolved⟩
    by_contra gone
    obtain ⟨isCommitted, newer, newerMem, newerCommitted, ne, later, unneeded⟩ :=
      exists_newer_of_not_mem_sweepChain chainInv.nodesNodup mem gone
    -- Whoever resolves to the version would rather have the newer one.
    have beaten (visible : Version → Bool) (seen : visible newer = true)
        (best : (chain.versions.filter fun version =>
          version.committed && visible version).argmax (·.commitTs) = some version) : False := by
      have atMost : newer.commitTs ≤ version.commitTs := le_of_mem_argmax (mem_filter.mpr ⟨newerMem,
          Bool.and_eq_true_iff.mpr ⟨newerCommitted, seen⟩⟩) best
      have same := chainInv.eq_of_commitTs_eq clock newerMem mem newerCommitted isCommitted
        (le_antisymm atMost later)
      exact ne (by rw [same])
    rcases resolved isCommitted with best | ⟨start, active, best⟩
    · exact beaten (fun _ => true) rfl best
    · have inTime : version.commitTs ≤ start := by
        have listed := (mem_filter.mp (argmax_mem best)).2
        exact of_decide_eq_true (Bool.and_eq_true_iff.mp listed).2
      exact beaten (fun version => decide (version.commitTs ≤ start))
        (decide_eq_true (unneeded start active inTime)) best

/-- Between calls, an open snapshot is that of a registered transaction. -/
lemma Machine.BetweenCalls.gathered (between : machine.BetweenCalls) (inv : Inv machine history)
    (gathered : ∀ start, start ∈ starts ↔ ∃ txn ∈ machine.activeTxns, txn.startTs = start)
    (opened : machine.openSnapshot txnId = some startTs) : startTs ∈ starts := by
  unfold Machine.openSnapshot at opened
  split at opened
  next level start thread => exact absurd thread (between.begun txnId level start)
  next thread =>
    obtain ⟨txn, known, chosen⟩ := bind_eq_some_iff.mp opened
    have born : txnId < machine.nextTxnId := by
      apply inv.born
      rw [thread]
      exact Phase.noConfusion
    split at chosen
    · cases chosen
      exact (gathered _).mpr ⟨txn, mem_filterMap.mpr ⟨txnId, mem_range.mpr born, known⟩, rfl⟩
    · cases chosen
  · cases opened

/-- Sweeping every chain between calls prunes only what is superseded. -/
lemma Machine.BetweenCalls.pruned_swept (between : machine.BetweenCalls) (inv : Inv machine history)
    (gathered : ∀ start, start ∈ starts ↔ ∃ txn ∈ machine.activeTxns, txn.startTs = start)
    (keys : List KeyType) : PrunedTable (machine.swept starts keys) machine.table where
  present key := by
    simp only [Machine.swept]
    split
    · rw [Option.isSome_map]
    · rfl
  chains key := by
    cases found : machine.table key with
    | none =>
      have missing : (machine.swept starts keys).table key = none := by
        simp [Machine.swept, found]
      rw [missing]
      exact ⟨rfl, fun _ mem => mem, fun _ mem missing => absurd mem missing⟩
    | some chain =>
      by_cases listed : key ∈ keys
      · have here : (machine.swept starts keys).table key =
            some { chain with versions := sweepChain starts chain.versions } := by
          simp [Machine.swept, listed, found]
        rw [here]
        have unpruned : ChainPruned machine chain chain :=
          ⟨rfl, fun _ mem => mem, fun _ mem missing => absurd mem missing⟩
        have plain : Inv (machine.withTable machine.table) history :=
          inv_setCollector inv fun _ => .none
        apply unpruned.sweep (inv.chains key chain found) (plain.chains key chain found) inv.clock
        · intro txnId startTs opened
          exact Bool.or_eq_true_iff.mpr
            (.inl (decide_eq_true (between.gathered inv gathered opened)))
        · intro txnId
          rfl
      · have here : (machine.swept starts keys).table key = some chain := by
          simp [Machine.swept, listed, found]
        rw [here]
        exact ⟨rfl, fun _ mem => mem, fun _ mem missing => absurd mem missing⟩

end

/-- Garbage collection as one step, in any state between calls that any interleaving can
reach and whatever order it visits the chains in: it runs to its end.  Every later schedule
has the same events as without it, whether reads at any level or commits and conflicts, or
cannot be run in either case.  Of each chain it leaves exactly the pending versions, the
newest committed one, and those that the `start_ts` of a registered transaction resolves
to. -/
theorem collection_invisible {machine : Machine} {history : History}
    (reachable : Reachable (fun _ => True) (machine, history))
    (between : machine.BetweenCalls) {pass : Nat} (free : machine.collector pass = .none)
    {keys : List KeyType} (nodup : keys.Nodup)
    (listed : ∀ key, key ∈ keys ↔ (machine.table key).isSome) :
    ∃ events after, runTrace (collection pass keys) machine = some (events, after) ∧
      (∀ schedule : List Action, (∀ action ∈ schedule, action.isGc = false) →
        (runTrace schedule after).map Prod.fst =
          (runTrace schedule machine).map Prod.fst) ∧
      ∀ key chain, machine.table key = some chain → ∃ chain', after.table key = some chain' ∧
        ∀ version, version ∈ chain'.versions ↔ version ∈ chain.versions ∧
          (version.committed = true →
            bestVersion chain.versions .readCommitted machine.globalTs = some version ∨
            ∃ txn ∈ machine.activeTxns,
              bestVersion chain.versions .snapshot txn.startTs = some version) := by
  have inv : Inv machine history := inv_of_reachable reachable
  rcases collection_run free between nodup listed with ⟨events, starts, ran, gathered⟩
  have isGc : ∀ action ∈ collection pass keys, action.isGc = true := by
    intro action member
    simp only [collection, gather, mem_append, mem_cons, mem_map,
      List.mem_replicate, not_mem_nil, or_false] at member
    rcases member with ((rfl | ⟨_, rfl⟩) | ⟨key, _, rfl⟩) | rfl <;> rfl
  have inv' : Inv (machine.swept starts keys) history := inv_of_collection inv isGc ran
  have plain : Inv (machine.withTable machine.table) history := inv_setCollector inv fun _ => .none
  refine ⟨events, _, ran, ?_, ?_⟩
  · intro schedule noGc
    exact ((between.pruned_swept inv gathered keys).same_future inv' plain noGc).trans
      ((PrunedTable.self machine).same_future inv plain noGc).symm
  · intro key chain found
    have listedHere : key ∈ keys := (listed key).mpr (by rw [found]; rfl)
    refine ⟨{ chain with versions := sweepChain starts chain.versions },
      by simp [Machine.swept, listedHere, found], ?_⟩
    intro version
    rw [(inv.chains key chain found).mem_sweepChain inv.clock]
    refine and_congr_right fun _ => imp_congr_right fun _ => or_congr_right ?_
    constructor
    · rintro ⟨start, active, best⟩
      rcases (gathered start).mp active with ⟨txn, member, rfl⟩
      exact ⟨txn, member, best⟩
    · rintro ⟨txn, member, best⟩
      exact ⟨txn.startTs, (gathered _).mpr ⟨txn, member, rfl⟩, best⟩

/-- A transaction begins and writes a key. -/
def pendingWrite : List Action :=
  beginTxn 0 .snapshot ++ [.write 0 7 false [1]]

theorem collection_invisible_pendingWrite : ∃ started machine events after,
    runTrace pendingWrite {} = some (started, machine) ∧
    runTrace (collection 0 [7]) machine = some (events, after) ∧
    (runTrace [.read 0 7] after).map Prod.fst =
      (runTrace [.read 0 7] machine).map Prod.fst := by
  obtain ⟨started, machine, ran, thread, table, free⟩ : ∃ started machine,
      runTrace pendingWrite {} = some (started, machine) ∧
      (∀ txnId, machine.thread txnId = if txnId = 0 then .idle else .unborn) ∧
      (∀ key, machine.table key =
        if key = 7 then some { versions := [newVersion 0 0 false [1] 1] } else none) ∧
      machine.collector 0 = .none := by
    refine ⟨_, _, rfl, ?_, ?_, rfl⟩
    · intro txnId
      by_cases first : txnId = 0
      · rw [first]
        rfl
      · simp [first]
    · intro key
      by_cases here : key = 7
      · rw [here]
        rfl
      · simp [here, Machine.setThread]
  have between : machine.BetweenCalls := by
    constructor
    · intro txnId level startTs
      rw [thread]
      split <;> exact Phase.noConfusion
    · intro key chain found
      rw [table] at found
      split at found
      · cases found
        rfl
      · cases found
  have listed : ∀ key, key ∈ [7] ↔ (machine.table key).isSome := by
    intro key
    rw [table]
    split <;> simp_all
  rcases collection_invisible (run_of_runTrace ran {}) between free (List.nodup_singleton 7)
    listed with ⟨events, after, collected, future, _⟩
  exact ⟨started, machine, events, after, ran, collected,
    future [.read 0 7] (by simp [Action.isGc])⟩

end DbEngine.Mvcc
