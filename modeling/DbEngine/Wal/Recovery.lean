import DbEngine.Wal.Chains

/-!
# Recovery

Analysis finds, for every transaction with updates still to be undone, the record from
which undo meets them, whether it reads the whole log or starts at a checkpoint; redo makes
the tree agree with the log; and undo, in any order, leaves nothing to be undone.
-/

namespace DbEngine.Wal

open Lib AList WALBPlusTreeEngine

variable {policy : Policy} {log pre records : List LogRecord} {txnId : TxnId}

/-! ## Analysis -/

/-- The records have one from which the transaction could be undone. -/
def Touched (txnId : TxnId) (records : List LogRecord) : Prop :=
  ∃ record ∈ records, record.undoneBy = some txnId

variable {record : LogRecord} {lsn : Lsn} {pointer : Option Lsn} {fuel : Nat}

lemma touched_concat : Touched txnId (records ++ [record]) ↔
      Touched txnId records ∨ record.undoneBy = some txnId := by
  simp [Touched, or_and_right, exists_or]

lemma touched_drop (found : log[lsn]? = some record) (ours : record.undoneBy = some txnId)
    (covered : start ≤ lsn) : Touched txnId (log.drop start) := by
  refine ⟨record, mem_of_getElem? (i := lsn - start) ?_, ours⟩
  rw [List.getElem?_drop, Nat.add_sub_cancel' covered]
  exact found

/-- What analysis knows of a transaction: where its undo starts, or that nothing of it is
to be undone. -/
def Located (log : List LogRecord) (txnId : TxnId) : Option (Option Lsn) → Prop
  | some lastLsn =>
    ∃ lsn, lastLsn = some lsn ∧ Resume log txnId lsn ((logState log).pending txnId)
  | none => (logState log).pending txnId = []

lemma analyze_concat (lsn : Lsn) (active : ActiveTable) (records : List LogRecord)
    (record : LogRecord) : analyze lsn active (records ++ [record]) =
      analyzeRecord (analyze lsn active records) (lsn + records.length) record := by
  induction records generalizing lsn active with
  | nil => rfl
  | cons head rest ih =>
    rw [cons_append, analyze, ih, analyze, length_cons, Nat.add_right_comm, Nat.add_assoc]

lemma Located.concat_of_ne (located : Located log txnId found)
    (other : record.undoneBy ≠ some txnId) (running : ∀ prevLsn, record ≠ .commit txnId prevLsn) :
    Located (log ++ [record]) txnId found := by
  have pending := pending_concat_of_ne log other running
  cases found with
  | none => exact pending.trans located
  | some lastLsn =>
    obtain ⟨lsn, same, resume⟩ := located
    refine ⟨lsn, same, ?_⟩
    rw [pending]
    exact resume.append

/-- One iteration locates the transaction of its record and disturbs no other. -/
lemma Located.analyzeRecord (fits : Fits log record)
    (located : record.undoneBy ≠ some txnId → Located log txnId (active.lookup txnId)) :
    Located (log ++ [record]) txnId ((analyzeRecord active log.length record).lookup txnId) := by
  by_cases ours : record.undoneBy = some txnId
  · have resume := fits.resume ours
    have found : (WALBPlusTreeEngine.analyzeRecord active log.length record).lookup txnId =
        some (some log.length) := by
      cases record with
      | begin | update | clr =>
        cases ours
        exact lookup_insert _
      | _ => cases ours
    rw [found]
    exact ⟨log.length, rfl, resume⟩
  · cases record with
    | begin owner | update owner | clr owner =>
      have ne : txnId ≠ owner := by
        intro same
        subst same
        exact ours rfl
      rw [WALBPlusTreeEngine.analyzeRecord, lookup_insert_ne ne]
      exact (located ours).concat_of_ne ours nofun
    | commit owner prevLsn =>
      by_cases same : txnId = owner
      · subst same
        rw [WALBPlusTreeEngine.analyzeRecord, lookup_erase]
        exact pending_concat_commit log prevLsn
      · rw [WALBPlusTreeEngine.analyzeRecord, lookup_erase_ne same]
        apply (located ours).concat_of_ne ours
        intro prevLsn' equal
        cases equal
        exact same rfl
    | _ =>
      exact (located ours).concat_of_ne ours nofun

/-- Analysis locates every transaction it reads a record of. -/
lemma located_of_touched (seeds : ActiveTable) (logged : Logged policy (pre ++ records))
    (touched : Touched txnId records) :
    Located (pre ++ records) txnId ((analyze pre.length seeds records).lookup txnId) := by
  induction records using reverseRecOn with
  | nil =>
    obtain ⟨record, impossible, -⟩ := touched
    cases impossible
  | append_singleton records record ih =>
    rw [← append_assoc] at logged ⊢
    rw [analyze_concat, ← length_append]
    apply Located.analyzeRecord logged.of_concat.2
    intro other
    exact ih logged.of_concat.1 ((touched_concat.mp touched).resolve_right other)

/-- Of the others it knows what it was told at the start. -/
lemma lookup_analyze_of_not_touched {seeds : ActiveTable} (untouched : ¬ Touched txnId records)
    (unseeded : seeds.lookup txnId = none) : (analyze lsn seeds records).lookup txnId = none := by
  induction records using reverseRecOn with
  | nil => exact unseeded
  | append_singleton records record ih =>
    rw [touched_concat, not_or] at untouched
    have before := ih untouched.1
    rw [analyze_concat]
    cases record with
    | begin owner | update owner | clr owner =>
      have ne : txnId ≠ owner := by
        intro same
        subst same
        exact untouched.2 rfl
      rw [WALBPlusTreeEngine.analyzeRecord, lookup_insert_ne ne]
      exact before
    | commit owner =>
      by_cases same : txnId = owner
      · subst same
        exact lookup_erase _ _
      · rw [WALBPlusTreeEngine.analyzeRecord, lookup_erase_ne same]
        exact before
    | _ => exact before

/-- A transaction without records in a part of the log has no more to undo after it. -/
lemma pending_append_of_not_touched (untouched : ¬ Touched txnId records)
    (idle : (logState pre).pending txnId = []) :
    (logState (pre ++ records)).pending txnId = [] := by
  induction records using reverseRecOn with
  | nil =>
    rw [append_nil]
    exact idle
  | append_singleton records record ih =>
    rw [touched_concat, not_or] at untouched
    rw [← append_assoc]
    by_cases done : ∃ prevLsn, record = .commit txnId prevLsn
    · obtain ⟨prevLsn, rfl⟩ := done
      exact pending_concat_commit _ prevLsn
    · rw [pending_concat_of_ne _ untouched.2 fun prevLsn same => done ⟨prevLsn, same⟩]
      exact ih untouched.1

/-! ## Checkpoints -/

/-- The pointer in the meta page, if there is one, is to a complete checkpoint that lists
every transaction with updates to be undone. -/
def CheckpointOk (log : List LogRecord) : Option Lsn → Prop
  | none => True
  | some beginLsn =>
    ∃ pre active post, log = pre ++ (bracket active ++ post) ∧ pre.length = beginLsn ∧
      (∀ entry ∈ active, ∃ lsn record, entry.2.lastLsn = some lsn ∧
        pre[lsn]? = some record ∧ record.undoneBy = some entry.1) ∧
      ∀ txnId, (logState pre).pending txnId ≠ [] → ∃ entry ∈ active, entry.1 = txnId

lemma CheckpointOk.append (ok : CheckpointOk log pointer) (more : List LogRecord) :
    CheckpointOk (log ++ more) pointer := by
  cases pointer with
  | none => trivial
  | some beginLsn =>
    obtain ⟨pre, active, post, same, rest⟩ := ok
    refine ⟨pre, active, post ++ more, ?_, rest⟩
    rw [same]
    simp

lemma readBracket_bracket (active : List (Sigma fun _ : TxnId => TxnState))
    (post : List LogRecord) :
    readBracket (active.map (fun entry => .activeTxn entry.1 entry.2.lastLsn) ++
      (.checkpointEnd :: post)) = some (active.map fun entry => (entry.1, entry.2.lastLsn)) := by
  induction active with
  | nil => rfl
  | cons entry rest ih =>
    rw [map_cons, cons_append, readBracket, ih]
    rfl

/-- Where recovery starts: no transaction with updates to be undone, and none the
checkpoint lists, has its last record before that point. -/
structure StartsAt (log : List LogRecord) (start : Lsn × List (TxnId × Option Lsn)) : Prop where
  seeded : ∀ {txnId lastLsn}, (txnId, lastLsn) ∈ start.2 → Touched txnId (log.drop start.1)
  covers : ∀ {txnId}, ¬ Touched txnId (log.drop start.1) → (logState log).pending txnId = []

lemma StartsAt.zero (log : List LogRecord) : StartsAt log (0, []) where
  seeded := nofun
  covers := by
    intro txnId untouched
    have nothing : (logState []).pending txnId = [] := rfl
    exact pending_append_of_not_touched untouched nothing

lemma foldl_min_le (lsns : List Lsn) (start : Lsn) :
    lsns.foldl min start ≤ start ∧ ∀ lsn ∈ lsns, lsns.foldl min start ≤ lsn := by
  induction lsns generalizing start with
  | nil => exact ⟨le_rfl, nofun⟩
  | cons head rest ih =>
    obtain ⟨below, each⟩ := ih (min start head)
    refine ⟨below.trans (Nat.min_le_left ..), ?_⟩
    intro lsn mem
    rcases mem_cons.mp mem with rfl | mem
    · exact below.trans (Nat.min_le_right ..)
    · exact each lsn mem

lemma CheckpointOk.startsAt (ok : CheckpointOk log pointer) :
    StartsAt log (redoStart log pointer) ∧ (redoStart log pointer).1 ≤ pointer.getD 0 := by
  cases pointer with
  | none => exact ⟨.zero log, le_rfl⟩
  | some beginLsn =>
    obtain ⟨pre, active, post, same, length, listed, complete⟩ := ok
    have found : log[beginLsn]? = some .checkpointBegin := by
      rw [same, ← length]
      simp [bracket]
    have read : readBracket (log.drop (beginLsn + 1)) =
        some (active.map fun entry => (entry.1, entry.2.lastLsn)) := by
      rw [← readBracket_bracket active post, same, ← length]
      simp [bracket, List.drop_append, drop_eq_nil_of_le (Nat.le_succ _)]
    rw [redoStart, if_pos found, read]
    have bounds := foldl_min_le ((active.map fun entry => (entry.1, entry.2.lastLsn)).filterMap
      Prod.snd) beginLsn
    have seeded : ∀ entry ∈ active, Touched entry.1 (log.drop (((active.map
        fun entry => (entry.1, entry.2.lastLsn)).filterMap Prod.snd).foldl min beginLsn)) := by
      intro entry mem
      obtain ⟨lsn, record, last, found, ours⟩ := listed entry mem
      have found : log[lsn]? = some record := by
        rw [same, getElem?_append_left (getElem?_eq_some_iff.mp found).1]
        exact found
      refine touched_drop found ours (bounds.2 lsn ?_)
      rw [mem_filterMap]
      exact ⟨(entry.1, some lsn), mem_map.mpr ⟨entry, mem, by rw [last]⟩, rfl⟩
    refine ⟨⟨?_, ?_⟩, bounds.1⟩
    · intro txnId lastLsn mem
      obtain ⟨entry, inActive, equal⟩ := mem_map.mp mem
      cases equal
      exact seeded entry inActive
    · intro txnId untouched
      have idle : (logState pre).pending txnId = [] := by
        by_contra pending
        obtain ⟨entry, mem, rfl⟩ := complete txnId pending
        exact untouched (seeded entry mem)
      rw [same]
      apply pending_append_of_not_touched _ idle
      intro touched
      obtain ⟨record, mem, ours⟩ := touched
      apply untouched
      obtain ⟨index, found⟩ := List.mem_iff_getElem?.mp mem
      have found' : log[pre.length + index]? = some record := by
        rw [same, List.getElem?_append_right (Nat.le_add_right ..), Nat.add_sub_cancel_left]
        exact found
      exact touched_drop found' ours (bounds.1.trans (length ▸ Nat.le_add_right ..))

/-! ## Undo -/

variable {engine : WALBPlusTreeEngine}

/-- The tree agrees with a log that is in order. -/
structure InStep (policy : Policy) (engine : WALBPlusTreeEngine) : Prop where
  logged : Logged policy engine.log
  tree_eq : engine.tree = (logState engine.log).contents

/-- The engine after some undo: compensation records were appended and nothing but the
tree has changed with them. -/
structure Undone (policy : Policy) (before after : WALBPlusTreeEngine) : Prop where
  inStep : InStep policy after
  same : after = { before with tree := after.tree, log := after.log }
  appended : ∃ clrs, after.log = before.log ++ clrs ∧ ∀ record ∈ clrs,
    ∃ txnId prevLsn op key undoNextLsn, record = .clr txnId prevLsn op key undoNextLsn

lemma Undone.refl (inStep : InStep policy engine) : Undone policy engine engine :=
  ⟨inStep, rfl, [], (append_nil _).symm, nofun⟩

lemma Undone.trans {first second third : WALBPlusTreeEngine}
    (left : Undone policy first second) (right : Undone policy second third) :
    Undone policy first third := by
  obtain ⟨clrs, log_eq, isClr⟩ := left.appended
  obtain ⟨clrs', log_eq', isClr'⟩ := right.appended
  refine ⟨right.inStep, ?_, clrs ++ clrs', ?_, ?_⟩
  · rw [right.same, left.same]
  · rw [log_eq', log_eq, append_assoc]
  · intro record mem
    rcases mem_append.mp mem with mem | mem
    · exact isClr record mem
    · exact isClr' record mem

/-- One update is compensated: the newest of its transaction that is still to be undone. -/
lemma Undone.compensate (prevLsn : Option Lsn)
    (may : ∀ state txnId key value, policy state (.undo txnId key value))
    (inStep : InStep policy engine)
    (found : engine.log[lsn]? = some (.update txnId (some next) op key oldValue))
    (restores : (computeCompensation op oldValue).value = oldValue)
    (top : (logState engine.log).pending txnId = (key, oldValue) :: rest)
    (resume : Resume engine.log txnId next rest)
    (done : after = (engine.applyOp (computeCompensation op oldValue) key).append (.clr txnId
      prevLsn (computeCompensation op oldValue) key (some next))) :
    Undone policy engine after ∧ (logState after.log).pending txnId = rest ∧
      ∀ other, other ≠ txnId →
        (logState after.log).pending other = (logState engine.log).pending other := by
  have log_eq : after.log = engine.log ++
      [.clr txnId prevLsn (computeCompensation op oldValue) key (some next)] := by
    rw [done]
    rfl
  have fits : Fits engine.log
      (.clr txnId prevLsn (computeCompensation op oldValue) key (some next)) := by
    refine ⟨lsn, next, op, oldValue, rest, rfl, found, rfl, ?_, resume⟩
    rw [restores]
    exact top
  refine ⟨⟨⟨?_, ?_⟩, ?_, ?_⟩, ?_, ?_⟩
  · rw [log_eq]
    refine .concat inStep.logged fits ?_
    intro entry written
    cases written
    exact may _ _ _ _
  · rw [log_eq, contents_concat, ← inStep.tree_eq, done]
    rfl
  · rw [done]
    rfl
  · refine ⟨_, log_eq, ?_⟩
    intro record mem
    rw [mem_singleton.mp mem]
    exact ⟨_, _, _, _, _, rfl⟩
  · rw [log_eq, logState_concat]
    simp [LogRecord.entry, TransactionLog.State.step, top]
  · intro other ne
    rw [log_eq]
    apply pending_concat_of_ne
    · intro ours
      cases ours
      exact ne rfl
    · rintro _ ⟨⟩

/-- One transaction is undone, and the others are left alone. -/
lemma undoTransactionFromLog_ok
    (may : ∀ state txnId key value, policy state (.undo txnId key value))
    (resume : Resume log txnId lsn stack) (extra : List LogRecord)
    (grown : engine.log = log ++ extra) (inStep : InStep policy engine)
    (top : (logState engine.log).pending txnId = stack) (enough : lsn < fuel) :
    ∃ after, undoTransactionFromLog txnId fuel (some lsn) engine = some after ∧
      Undone policy engine after ∧ (logState after.log).pending txnId = [] ∧
      ∀ other, other ≠ txnId →
        (logState after.log).pending other = (logState engine.log).pending other := by
  have kept {lsn : Lsn} {record : LogRecord} {engine : WALBPlusTreeEngine}
      {extra : List LogRecord} (grown : engine.log = log ++ extra)
      (found : log[lsn]? = some record) : engine.log[lsn]? = some record := by
    rw [grown, getElem?_append_left (getElem?_eq_some_iff.mp found).1]
    exact found
  induction resume generalizing engine extra fuel with
  | begin found =>
    cases fuel with
    | zero => cases enough
    | succ fuel =>
      refine ⟨engine, ?_, .refl inStep, top, fun _ _ => rfl⟩
      rw [undoTransactionFromLog, kept grown found]
  | clr found earlier _ ih =>
    cases fuel with
    | zero => cases enough
    | succ fuel =>
      rw [undoTransactionFromLog, kept grown found]
      exact ih extra grown inStep top (earlier.trans_le (Nat.le_of_lt_succ enough))
  | @update op key oldValue rest lsn next found earlier restores resume ih =>
    cases fuel with
    | zero => cases enough
    | succ fuel =>
      have here := kept grown found
      rw [undoTransactionFromLog, here]
      have resume' : Resume engine.log txnId next rest := grown ▸ resume.append
      have step := Undone.compensate none may inStep here restores top resume' rfl
      have grown' : ((engine.applyOp (computeCompensation op oldValue) key).append
          (.clr txnId none (computeCompensation op oldValue) key (some next))).log =
          log ++ (extra ++ [.clr txnId none (computeCompensation op oldValue) key
            (some next)]) := by
        rw [← append_assoc, ← grown]
        rfl
      obtain ⟨after, ran, undone, idle, others⟩ :=
        ih _ grown' step.1.inStep step.2.1 (earlier.trans_le (Nat.le_of_lt_succ enough))
      refine ⟨after, ran, step.1.trans undone, idle, ?_⟩
      intro other ne
      rw [others other ne, step.2.2 other ne]

/-- The undo loop, over losers in any order. -/
lemma undoAll_ok (losers : List (Sigma fun _ : TxnId => Option Lsn))
    (may : ∀ state txnId key value, policy state (.undo txnId key value))
    (inStep : InStep policy engine) (distinct : losers.NodupKeys)
    (located : ∀ loser ∈ losers, ∃ lsn, loser.2 = some lsn ∧ lsn < fuel ∧ Resume engine.log
      loser.1 lsn ((logState engine.log).pending loser.1)) :
    ∃ after, undoAll fuel losers engine = some after ∧ Undone policy engine after ∧
      (∀ loser ∈ losers, (logState after.log).pending loser.1 = []) ∧ ∀ other, other ∉ losers.keys →
        (logState after.log).pending other = (logState engine.log).pending other := by
  induction losers generalizing engine with
  | nil => exact ⟨engine, rfl, .refl inStep, nofun, fun _ _ => rfl⟩
  | cons loser rest ih =>
    rw [List.nodupKeys_cons] at distinct
    obtain ⟨lsn, same, enough, resume⟩ := located loser mem_cons_self
    rcases undoTransactionFromLog_ok may resume [] (append_nil _).symm inStep rfl enough
      with ⟨middle, ran, undone, idle, others⟩
    have ne : ∀ other ∈ rest.keys, other ≠ loser.1 := by
      intro other mem equal
      exact distinct.1 (equal ▸ mem)
    have located' : ∀ other ∈ rest, ∃ lsn, other.2 = some lsn ∧ lsn < fuel ∧
        Resume middle.log other.1 lsn ((logState middle.log).pending other.1) := by
      intro other mem
      obtain ⟨lsn, same, enough, resume⟩ := located other (mem_cons_of_mem _ mem)
      obtain ⟨clrs, log_eq, -⟩ := undone.appended
      refine ⟨lsn, same, enough, ?_⟩
      rw [others other.1 (ne other.1 (List.mem_keys_of_mem mem)), log_eq]
      exact resume.append
    obtain ⟨after, ran', undone', idle', others'⟩ := ih undone.inStep distinct.2 located'
    refine ⟨after, ?_, undone.trans undone', ?_, ?_⟩
    · rw [undoAll, List.foldlM_cons, same, ran]
      exact ran'
    · intro other mem
      rcases mem_cons.mp mem with equal | mem
      · rw [equal, others' loser.1 distinct.1]
        exact idle
      · exact idle' other mem
    · intro other absent
      rw [List.keys_cons, mem_cons, not_or] at absent
      rw [others' other absent.2, others other absent.1]

/-! ## The three phases together -/

lemma mem_of_lookup_seeds {listed : List (TxnId × Option Lsn)} {table : ActiveTable}
    (found : (listed.foldl (fun active seed => active.insert seed.1 seed.2) table).lookup txnId =
      some lastLsn) : (∃ seed ∈ listed, seed.1 = txnId) ∨ table.lookup txnId = some lastLsn := by
  induction listed generalizing table with
  | nil => exact .inr found
  | cons seed rest ih =>
    rcases ih found with ⟨other, mem, same⟩ | found
    · exact .inl ⟨other, mem_cons_of_mem _ mem, same⟩
    · by_cases same : seed.1 = txnId
      · exact .inl ⟨seed, mem_cons_self, same⟩
      · rw [lookup_insert_ne (Ne.symm same)] at found
        exact .inr found

lemma CheckpointOk.le_length (ok : CheckpointOk log pointer) : pointer.getD 0 ≤ log.length := by
  cases pointer with
  | none => exact Nat.zero_le _
  | some beginLsn =>
    obtain ⟨pre, active, post, rfl, rfl, -⟩ := ok
    simp

/-- Analysis locates every transaction. -/
lemma CheckpointOk.located (ok : CheckpointOk log pointer) (logged : Logged policy log)
    (txnId : TxnId) :
    Located log txnId ((analyze (redoStart log pointer).1 (seedTable (redoStart log pointer).2)
      (log.drop (redoStart log pointer).1)).lookup txnId) := by
  obtain ⟨starts, bound⟩ := ok.startsAt
  by_cases touched : Touched txnId (log.drop (redoStart log pointer).1)
  · have length : (log.take (redoStart log pointer).1).length = (redoStart log pointer).1 := by
      rw [length_take, Nat.min_eq_left (bound.trans ok.le_length)]
    have whole := take_append_drop (redoStart log pointer).1 log
    have located := located_of_touched (seedTable (redoStart log pointer).2)
      (whole.symm ▸ logged) touched
    rw [length, whole] at located
    exact located
  · rw [lookup_analyze_of_not_touched touched]
    · exact starts.covers touched
    · by_contra seeded
      obtain ⟨lastLsn, found⟩ := ne_none_iff_exists'.mp seeded
      rcases mem_of_lookup_seeds found with ⟨seed, mem, rfl⟩ | impossible
      · exact touched (starts.seeded mem)
      · cases impossible

/-- Recovery of a log in order, from a tree that holds some beginning of it and at least
what the last checkpoint flushed. -/
lemma recoverOnStartup_ok (order : VisitOrder (Sigma fun _ : TxnId => Option Lsn))
    (may : ∀ state txnId key value, policy state (.undo txnId key value))
    (logged : Logged policy engine.log) (ok : CheckpointOk engine.log engine.lastCheckpointBeginLsn)
    (covered : engine.lastCheckpointBeginLsn.getD 0 ≤ reached)
    (onDisk : engine.tree = redoAll (engine.log.take reached) fun _ => none) :
    ∃ after, recoverOnStartup order engine = some after ∧
      Undone policy { engine with tree := (logState engine.log).contents } after ∧
      ∀ txnId, (logState after.log).pending txnId = [] := by
  have located := ok.located logged
  rw [recoverOnStartup]
  generalize active_eq : analyze _ _ _ = active at located ⊢
  have redone : redoAll (engine.log.drop (redoStart engine.log engine.lastCheckpointBeginLsn).1)
      engine.tree = (logState engine.log).contents := by
    rw [onDisk, redoAll_drop_take (ok.startsAt.2.trans covered), logState_contents]
  rw [redone]
  have inStep : InStep policy { engine with tree := (logState engine.log).contents } :=
    ⟨logged, rfl⟩
  have distinct : (order.visit active.entries).NodupKeys :=
    (List.perm_nodupKeys (order.perm _)).mpr active.nodupKeys
  have found : ∀ loser ∈ order.visit active.entries, ∃ lsn, loser.2 = some lsn ∧
      lsn < engine.log.length ∧
      Resume engine.log loser.1 lsn ((logState engine.log).pending loser.1) := by
    intro loser mem
    have known := located loser.1
    rw [mem_lookup_iff.mpr ((order.perm _).mem_iff.mp mem)] at known
    obtain ⟨lsn, same, resume⟩ := known
    exact ⟨lsn, same, resume.lt_length, resume⟩
  obtain ⟨after, ran, undone, idle, others⟩ := undoAll_ok _ may inStep distinct found
  refine ⟨after, ran, undone, ?_⟩
  intro txnId
  by_cases loser : txnId ∈ (order.visit active.entries).keys
  · obtain ⟨entry, mem, rfl⟩ := mem_map.mp loser
    exact idle entry mem
  · rw [others txnId loser]
    have known := located txnId
    rw [lookup_eq_none.mpr] at known
    · exact known
    · intro mem
      exact loser (((order.perm _).map _).mem_iff.mpr mem)

end DbEngine.Wal
