import DbEngine.Lsm.Invariant

/-!
# The order of the layers

The active memtable, the retired memtables and the tables in the tiers are layers, newest
first.  As long as tables are put into the first tier in the order in which their memtables
were retired, every step but a write leaves what the layers say, and of two entries for a
key the one in the layer above is the later one.
-/

namespace DbEngine.Lsm

open Lib Function LSMTreeEngine

/-- All layers, newest first. -/
def LSMTreeEngine.layers (engine : LSMTreeEngine) : List Entries :=
  (engine.memTables engine.active).list ::
    (engine.retired.map fun memTable => (engine.memTables memTable).list) ++
      engine.tiers.flatten.map SSTable.entries

/-- What may happen to layers without a write. -/
inductive Quiet : List Entries → List Entries → Prop where
  | same : Quiet list list
  | push : Quiet list (.empty :: list)
  | drop : Quiet (above ++ .empty :: below) (above ++ below)
  /-- Tombstones are left out only when nothing is below. -/
  | compact {merged : Option Entries} (bottommost : Bool)
      (is : ∀ key, resolve merged.toList key =
        (resolve middle key).filter fun value => !(value.deleted && bottommost))
      (nothing : bottommost = true → ∀ key, resolve below key = none) :
      Quiet (above ++ middle ++ below) (above ++ merged.toList ++ below)

namespace Quiet

variable {layers layers' : List Entries}

/-- A reader sees no difference. -/
lemma current (quiet : Quiet layers layers') (key : KeyType) :
    Lib.current LSMValue.live layers' key = Lib.current LSMValue.live layers key := by
  cases quiet with
  | same => rfl
  | push => rw [Lib.current, resolve_cons_empty, Lib.current]
  | drop => simp only [Lib.current, resolve_append, resolve_cons_empty]
  | compact bottommost is nothing =>
    cases bottommost with
    | false =>
      rw [Lib.current, Lib.current]
      apply congrArg
      apply resolve_replace
      rw [is]
      cases resolve _ key with
      | none => rfl
      | some value => simp [Option.filter]
    | true =>
      apply current_replace_last
      · rw [is]
        simp only [Bool.and_true]
        rfl
      · exact nothing rfl key

/-- No entry comes from nowhere. -/
lemma mem (quiet : Quiet layers layers') (inLayers : layer' ∈ layers')
    (found : layer'.lookup key = some value) : ∃ layer ∈ layers, layer.lookup key = some value := by
  cases quiet with
  | same => exact ⟨layer', inLayers, found⟩
  | push =>
    rcases mem_cons.mp inLayers with rfl | inLayers
    · cases found
    · exact ⟨layer', inLayers, found⟩
  | drop =>
    refine ⟨layer', ?_, found⟩
    simp only [mem_append, mem_cons] at inLayers ⊢
    exact inLayers.imp_right .inr
  | @compact middle below above merged bottommost is nothing =>
    simp only [mem_append] at inLayers
    rcases inLayers with (inAbove | isMerged) | inBelow
    · exact ⟨layer', by simp [inAbove], found⟩
    · have resolved := is key
      rw [Option.mem_toList] at isMerged
      rw [isMerged, toList_some, resolve_cons, found] at resolved
      obtain ⟨layer, inMiddle, found⟩ :=
        mem_of_resolve (Option.eq_some_of_filter_eq_some resolved.symm)
      exact ⟨layer, by simp [inMiddle], found⟩
    · exact ⟨layer', by simp [inBelow], found⟩

/-- Newer entries stay above older ones. -/
lemma newerFirst (quiet : Quiet layers layers') (ordered : NewerFirst LSMValue.number layers) :
    NewerFirst LSMValue.number layers' := by
  cases quiet with
  | same => exact ordered
  | push => exact pairwise_cons.mpr ⟨fun _ _ _ _ _ => nofun, ordered⟩
  | @drop above below =>
    have ordered : NewerFirst LSMValue.number (above ++ [.empty] ++ below) := by
      rw [append_assoc]
      exact ordered
    exact ordered.remove
  | @compact middle below above merged bottommost is nothing =>
    cases merged with
    | none =>
      rw [Option.toList_none, append_nil]
      exact ordered.remove
    | some layer =>
      rw [toList_some, append_assoc]
      apply ordered.replace
      intro key value found
      have resolved := is key
      rw [toList_some, resolve_cons, found] at resolved
      exact Option.eq_some_of_filter_eq_some resolved.symm

end Quiet

/-! ## Steps -/

/-- Tables are put into the first tier in the order in which their memtables were retired. -/
def InOrder (engine : LSMTreeEngine) : Label → Prop
  | .install _ memTable => engine.retired.getLast? = some memTable
  | _ => True

variable {config : Config} {engine after : LSMTreeEngine} {label : Label}

lemma layers_swap (sound : Sound engine) (config : Config) :
    (engine.swapMemTable config).layers = .empty :: engine.layers := by
  have older : ∀ memTable ∈ engine.active :: engine.retired,
      (update engine.memTables (engine.active + 1) {} memTable).list =
        (engine.memTables memTable).list := by
    intro memTable mem
    rw [update_of_ne]
    rcases mem_cons.mp mem with rfl | mem
    · exact ne_of_lt (Nat.lt_succ_self _)
    · exact ne_of_lt (Nat.lt_succ_of_lt (sound.flushes.below memTable mem))
  have swapped : (update engine.memTables (engine.active + 1) {} (engine.active + 1)).list ::
      ((engine.active :: engine.retired).map fun memTable =>
        (update engine.memTables (engine.active + 1) {} memTable).list) ++
        engine.tiers.flatten.map SSTable.entries = .empty :: engine.layers := by
    rw [map_congr_left older, update_self]
    rfl
  rw [swapMemTable_eq]
  exact swapped

variable {client memTable : Nat} {allowed : LSMTreeEngine → Label → Prop} {opened : LSMTreeEngine}
  {labels : List Label}

/-- In order, the table takes the place of its memtable. -/
lemma layers_install (sound : Sound engine)
    (had : engine.flushed client = some (memTable, some table))
    (oldest : engine.retired.getLast? = some memTable) :
    (engine.installFlushed memTable table).layers = engine.layers := by
  obtain ⟨newer, retired⟩ := List.getLast?_eq_some_iff.mp oldest
  have nodup := sound.flushes.nodup
  rw [retired, nodup_append] at nodup
  have erased : (newer ++ [memTable]).erase memTable = newer := by
    rw [List.erase_append_right, erase_cons_head, append_nil]
    intro mem
    exact nodup.2.2 memTable mem memTable (mem_singleton_self _) rfl
  simp only [layers, installFlushed, flatten_pushFront, retired, erased, map_append,
    map_cons, map_nil, sound.flushes.built had]
  simp

/-- A memtable without entries goes. -/
lemma quiet_flushNothing (sound : Sound engine)
    (had : engine.flushed client = some (memTable, table))
    (empty : (engine.memTables memTable).entryCount = 0) : Quiet engine.layers
      ({ engine with retired := engine.retired.erase memTable } : LSMTreeEngine).layers := by
  obtain ⟨newer, older, -, retired, erased⟩ := List.exists_erase_eq (sound.flushes.mem had)
  have nothing : (engine.memTables memTable).list = .empty :=
    SortedMap.ext (length_eq_zero_iff.mp empty)
  let list := fun memTable => (engine.memTables memTable).list
  let tables := engine.tiers.flatten.map SSTable.entries
  have before : engine.layers =
      (list engine.active :: newer.map list) ++ .empty :: (older.map list ++ tables) := by
    rw [layers, retired, map_append, map_cons, nothing]
    simp [list, tables]
  have after : ({ engine with retired := engine.retired.erase memTable } : LSMTreeEngine).layers =
      (list engine.active :: newer.map list) ++ (older.map list ++ tables) := by
    rw [erased, layers]
    simp [list, tables]
  rw [before, after]
  exact .drop

/-- The compacted tables are replaced by what they resolve to. -/
lemma quiet_compact (sound : Sound engine)
    (stands : engine.compaction = some ⟨runner, .built tier toCompact newSst⟩) :
    Quiet engine.layers (engine.installCompacted tier toCompact newSst).layers := by
  obtain ⟨has, bottommost, is, nothing⟩ := sound.pass _ stands
  obtain ⟨above, below, flat, promoted, bottom⟩ := flatten_promote has sound.ids.nodup newSst
  let newer := (engine.memTables engine.active).list ::
    (engine.retired.map fun memTable => (engine.memTables memTable).list) ++
      above.map SSTable.entries
  have before : engine.layers =
      newer ++ toCompact.map SSTable.entries ++ below.map SSTable.entries := by
    rw [layers, flat]
    simp [newer]
  have after : (engine.installCompacted tier toCompact newSst).layers =
      newer ++ (newSst.map SSTable.entries).toList ++ below.map SSTable.entries := by
    have layers : (engine.installCompacted tier toCompact newSst).layers =
      (engine.memTables engine.active).list ::
        (engine.retired.map fun memTable => (engine.memTables memTable).list) ++
          (promote tier toCompact newSst engine.tiers).flatten.map SSTable.entries := rfl
    rw [layers, promoted]
    cases newSst <;> simp [newer]
  rw [before, after]
  refine .compact bottommost ?_ ?_
  · intro key
    rw [← lookup_compacted, ← is key]
    cases newSst <;> rfl
  · intro last key
    rw [bottom (nothing last)]
    rfl

section

variable (runner : Option Nat) (thrown : Option String)

lemma endPass_only (engine : LSMTreeEngine) :
    engine.endPass runner thrown =
      { engine with compaction := none, clients := (engine.endPass runner thrown).clients } := by
  rcases endPass_cases runner thrown engine with eq | ⟨client, call, answer, -, eq⟩
  · rw [eq]
  · rw [eq]
    rfl

lemma layers_endPass : (engine.endPass runner thrown).layers = engine.layers := by
  rw [endPass_only]
  rfl

lemma writes_endPass : (engine.endPass runner thrown).writes = engine.writes := by
  rw [endPass_only]

end

/-- A step that does not write is quiet, if tables are installed in order. -/
lemma Step.quiet (step : Step config engine label after) (sound : Sound engine)
    (inOrder : InOrder engine label) (reads : ∀ client key, label ≠ .write client key) :
    Quiet engine.layers after.layers ∧ after.writes = engine.writes := by
  cases step with
  | putWrite | deleteWrite => exact absurd rfl (reads _ _)
  | swap =>
    have swapped := layers_swap sound config
    rw [swapMemTable_eq] at swapped ⊢
    refine ⟨?_, rfl⟩
    refine swapped.symm ▸ Quiet.push
  | flushNothing stands empty =>
    have quiet := quiet_flushNothing sound (congrArg Client.flushed stands) empty
    rw [retire_eq]
    exact ⟨quiet, rfl⟩
  | @install _ _ _ memTable table _ stands | @installThrows _ _ _ memTable table _ stands =>
    have same := layers_install sound (congrArg Client.flushed stands) inOrder
    have quiet : Quiet engine.layers (engine.installFlushed memTable table).layers := by
      rw [same]
      exact .same
    exact ⟨quiet, rfl⟩
  | @nothingToDo runner =>
    rw [layers_endPass, writes_endPass]
    exact ⟨.same, rfl⟩
  | compact stands | compactThrows stands =>
    rw [layers_endPass, writes_endPass]
    exact ⟨quiet_compact sound stands, rfl⟩
  | _ => exact ⟨.same, rfl⟩

/-- A write goes into the first layer. -/
lemma layers_write (sound : Sound engine) (config : Config) (key : KeyType) (op : Wal.LogOp) :
    (engine.write config key op).layers =
      (engine.memTables engine.active).list.insert key (entryOf op engine.writes) ::
        engine.layers.tail := by
  have older : ∀ memTable ∈ engine.retired, ((engine.write config key op).memTables memTable).list =
        (engine.memTables memTable).list := by
    intro memTable mem
    have ne := ne_of_lt (sound.flushes.below memTable mem)
    exact congrArg MemTable.list (update_of_ne ne ..)
  have first : ((engine.write config key op).memTables engine.active).list =
      (engine.memTables engine.active).list.insert key (entryOf op engine.writes) := by
    simp only [write, update_self]
    rfl
  have layers : (engine.write config key op).layers =
      ((engine.write config key op).memTables engine.active).list ::
        (engine.retired.map fun memTable =>
          ((engine.write config key op).memTables memTable).list) ++
          engine.tiers.flatten.map SSTable.entries := rfl
  rw [layers, map_congr_left older, first]
  rfl

/-! ## Recency -/

/-- Newer entries are above older ones, and all are older than the next. -/
structure Recent (engine : LSMTreeEngine) : Prop where
  ordered : NewerFirst LSMValue.number engine.layers
  old : ∀ layer ∈ engine.layers, ∀ {key value}, layer.lookup key = some value →
    value.number < engine.writes

lemma Recent.write (recent : Recent engine) (sound : Sound engine) (config : Config)
    (key : KeyType) (op : Wal.LogOp) : Recent (engine.write config key op) := by
  have number : (entryOf op engine.writes).number = engine.writes := by cases op <;> rfl
  have ordered := pairwise_cons.mp recent.ordered
  have written {query : KeyType} {value : LSMValue}
      (found : ((engine.memTables engine.active).list.insert key
        (entryOf op engine.writes)).lookup query = some value) :
      (query = key ∧ value.number = engine.writes) ∨
        (engine.memTables engine.active).list.lookup query = some value := by
    by_cases same : query = key
    · subst same
      rw [SortedMap.lookup_insert_self] at found
      cases found
      exact .inl ⟨rfl, number⟩
    · rw [SortedMap.lookup_insert_of_ne same] at found
      exact .inr found
  constructor
  · rw [layers_write sound]
    refine pairwise_cons.mpr ⟨?_, ordered.2⟩
    intro older mem query value value' found found'
    rcases written found with ⟨-, last⟩ | found
    · rw [last]
      exact recent.old older (mem_cons_of_mem _ mem) found'
    · exact ordered.1 older mem query value value' found found'
  · rw [layers_write sound]
    intro layer mem query value found
    rcases mem_cons.mp mem with rfl | mem
    · rcases written found with ⟨-, last⟩ | found
      · rw [last]
        exact Nat.lt_succ_self _
      · exact Nat.lt_succ_of_lt (recent.old _ mem_cons_self found)
    · exact Nat.lt_succ_of_lt (recent.old layer (mem_cons_of_mem _ mem) found)

/-- Every step keeps the order, if tables are installed in order. -/
lemma Recent.step (recent : Recent engine) (sound : Sound engine)
    (inOrder : InOrder engine label) (step : Step config engine label after) : Recent after := by
  by_cases writes : ∃ client key, label = .write client key
  · obtain ⟨client, key, rfl⟩ := writes
    cases step with
    | @putWrite _ _ value =>
      have written := recent.write sound config key (.put value)
      exact ⟨written.ordered, written.old⟩
    | deleteWrite =>
      have written := recent.write sound config key .delete
      exact ⟨written.ordered, written.old⟩
  · obtain ⟨quiet, same⟩ := step.quiet sound inOrder fun client key is => writes ⟨client, key, is⟩
    refine ⟨quiet.newerFirst recent.ordered, ?_⟩
    intro layer' mem key value found
    obtain ⟨layer, mem, found⟩ := quiet.mem mem found
    rw [same]
    exact recent.old layer mem found

/-! ## Runs -/

/-- Nobody is using the engine. -/
structure AtRest (engine : LSMTreeEngine) : Prop where
  clients : ∀ client, engine.clients client = .idle
  retired : engine.retired = []
  compaction : engine.compaction = none
  nodup : (engine.tiers.flatten.map SSTable.id).Nodup
  below : ∀ table ∈ engine.tiers.flatten, table.id < engine.nextSstableId
  absent : ∀ id, engine.nextSstableId ≤ id → engine.disk.tables.lookup id = none

lemma AtRest.sound (rest : AtRest engine) : Sound engine := by
  have flushed (client : Nat) : engine.flushed client = none := by
    rw [LSMTreeEngine.flushed, rest.clients]
    rfl
  have pending (owner : Option Nat) : engine.pendingId owner = none := by
    cases owner with
    | none =>
      rw [LSMTreeEngine.pendingId, rest.compaction]
      rfl
    | some client =>
      rw [LSMTreeEngine.pendingId, rest.clients]
      rfl
  constructor
  · constructor
    · rw [rest.retired]
      rintro _ ⟨⟩
    · rw [rest.retired]
      exact nodup_nil
    · intro client memTable table found
      rw [flushed] at found
      cases found
    · intro client client' memTable table table' found
      rw [flushed] at found
      cases found
    · intro client memTable table found
      rw [flushed] at found
      cases found
  · constructor
    · exact rest.nodup
    · exact rest.below
    · intro owner id found
      rw [pending] at found
      cases found
    · intro owner owner' id found
      rw [pending] at found
      cases found
  · rw [rest.compaction]
    rintro _ ⟨⟩
  · refine ⟨rest.absent, ?_, ?_⟩
    · intro client
      rw [rest.clients]
      rintro _ ⟨⟩
    · rw [rest.compaction]
      rintro _ ⟨⟩

lemma atRest_created (config : Config) : AtRest (created config) := by
  rw [created]
  split <;> exact ⟨fun _ => rfl, rfl, rfl, nodup_nil, nofun, fun _ _ => rfl⟩

lemma Run.sound (start : Sound opened) (run : Run config allowed opened labels engine) :
    Sound engine := by
  induction run with
  | opened => exact start
  | step _ _ step ih => exact ih.step step

lemma Run.recent (start : Sound opened) (first : Recent opened)
    (run : Run config InOrder opened labels engine) : Recent engine := by
  induction run with
  | opened => exact first
  | step before inOrder step ih => exact ih.step (before.sound start) inOrder step

lemma recent_created (config : Config) : Recent (created config) := by
  have layers : (created config).layers = [.empty] := by
    rw [created]
    split <;> rfl
  constructor
  · rw [layers]
    exact pairwise_singleton ..
  · rw [layers]
    intro layer mem key value found
    cases mem_singleton.mp mem
    cases found

/-- Of two entries for a key, the first table has the later one. -/
def NewerTable (first second : SSTable) : Prop :=
  ∀ key newer older, first.entries.lookup key = some newer →
    second.entries.lookup key = some older → older.number < newer.number

/-- When tables are put into the first tier in the order in which their memtables were
retired, `Get` searches newer tables first, and the active memtable is newer than all. -/
theorem tiers_newest_first {labels : List Label}
    (run : Run config InOrder (created config) labels engine) :
    engine.tiers.flatten.Pairwise NewerTable ∧
      ∀ table ∈ engine.tiers.flatten, ∀ key newer older,
        (engine.memTables engine.active).list.lookup key = some newer →
        table.entries.lookup key = some older → older.number < newer.number := by
  have recent := run.recent (atRest_created config).sound (recent_created config)
  have ordered := pairwise_append.mp recent.ordered
  have tables := pairwise_map.mp ordered.2.1
  refine ⟨tables, ?_⟩
  intro table mem
  exact ordered.2.2 _ mem_cons_self _ (mem_map_of_mem mem)

lemma Run.next (run : Run config allowed opened labels engine)
    (step : Step config engine label after) (may : allowed engine label := by trivial) :
    Run config allowed opened (labels ++ [label]) after :=
  .step run may step

/-- Every write is flushed at once. -/
def flushEach : Config where
  flushThresholdBytes := 0
  tierThreshold := 4
  walEnabled := false
  sizing := ⟨fun _ => 8, fun _ => 1, fun _ => by decide⟩

/-- A client writes a key three times; the first two writes have been flushed. -/
theorem tiers_newest_first_flushEach :
    ∃ (labels : List Label) (engine : LSMTreeEngine) (second first : SSTable)
      (newest newer older : LSMValue), Run flushEach InOrder (created flushEach) labels engine ∧
      engine.tiers = [[second, first]] ∧
      (engine.memTables engine.active).list.lookup 7 = some newest ∧
      second.entries.lookup 7 = some newer ∧ first.entries.lookup 7 = some older ∧
      older.number < newer.number ∧ newer.number < newest.number := by
  have run : Run flushEach InOrder (created flushEach) [] _ := .opened
  have run := run.next (@Step.start _ _ 0 (.put 7 [1]) rfl)
  have run := run.next (@Step.putWrite _ _ 0 7 [1] rfl (by decide))
  have run := run.next (@Step.swap _ _ 0 _ _ rfl)
  have run := run.next (@Step.buildStart _ _ 0 _ _ _ _ rfl (by decide))
  have run := run.next (@Step.buildEnd _ _ 0 _ _ _ _ _ _ _ rfl rfl)
  have run := run.next (@Step.install _ _ 0 _ _ _ _ _ rfl rfl) rfl
  have run := run.next (@Step.finish _ _ 0 _ _ rfl)
  have run := run.next (@Step.start _ _ 0 (.put 7 [2]) rfl)
  have run := run.next (@Step.putWrite _ _ 0 7 [2] rfl (by decide))
  have run := run.next (@Step.swap _ _ 0 _ _ rfl)
  have run := run.next (@Step.buildStart _ _ 0 _ _ _ _ rfl (by decide))
  have run := run.next (@Step.buildEnd _ _ 0 _ _ _ _ _ _ _ rfl rfl)
  have run := run.next (@Step.install _ _ 0 _ _ _ _ _ rfl rfl) rfl
  have run := run.next (@Step.finish _ _ 0 _ _ rfl)
  have run := run.next (@Step.start _ _ 0 (.put 7 [3]) rfl)
  have run := run.next (@Step.putWrite _ _ 0 7 [3] rfl (by decide))
  rcases tiers_newest_first run with ⟨tables, active⟩
  refine ⟨_, _, _, _, ⟨[3], false, 2⟩, ⟨[2], false, 1⟩, ⟨[1], false, 0⟩, run, rfl, ?_, ?_, ?_,
    (pairwise_cons.mp tables).1 _ mem_cons_self 7 _ _ ?_ ?_, active _ mem_cons_self 7 _ _ ?_ ?_⟩
  all_goals decide +kernel

/-- Two clients write a key one after the other, and the second flushes faster: `Get` then
finds the first value, and will for good. -/
theorem overtaking_flush_inverts :
    ∃ (labels : List Label) (engine : LSMTreeEngine) (first second : SSTable),
      Run flushEach (fun _ _ => True) (created flushEach) labels engine ∧
      engine.tiers = [[first, second]] ∧
      first.entries.lookup 7 = some { value := [1], number := 0 } ∧
      second.entries.lookup 7 = some { value := [2], number := 1 } ∧
      engine.read engine.snapshot 7 = some [1] := by
  have run : Run flushEach (fun _ _ => True) (created flushEach) [] _ := .opened
  have run := run.next (@Step.start _ _ 0 (.put 7 [1]) rfl)
  have run := run.next (@Step.putWrite _ _ 0 7 [1] rfl (by decide))
  have run := run.next (@Step.swap _ _ 0 _ _ rfl)
  have run := run.next (@Step.start _ _ 1 (.put 7 [2]) rfl)
  have run := run.next (@Step.putWrite _ _ 1 7 [2] rfl (by decide))
  have run := run.next (@Step.swap _ _ 1 _ _ rfl)
  have run := run.next (@Step.buildStart _ _ 1 _ _ _ _ rfl (by decide))
  have run := run.next (@Step.buildEnd _ _ 1 _ _ _ _ _ _ _ rfl rfl)
  have run := run.next (@Step.install _ _ 1 _ _ _ _ _ rfl rfl)
  have run := run.next (@Step.buildStart _ _ 0 _ _ _ _ rfl (by decide))
  have run := run.next (@Step.buildEnd _ _ 0 _ _ _ _ _ _ _ rfl rfl)
  have run := run.next (@Step.install _ _ 0 _ _ _ _ _ rfl rfl)
  refine ⟨_, _, _, _, run, rfl, ?_, ?_, ?_⟩
  · decide +kernel
  · decide +kernel
  · decide +kernel

end DbEngine.Lsm
