import DbEngine.Lsm.OneWriter

/-!
# The capacity of the manifest

The manifest page has room for eight tiers of sixteen tables.  When a flush is installed only
while no pass is running and no tier has reached the threshold, at most one tier is full at
any time, and both bounds hold as long as the last tier does not fill up.  Without that, a pass
that makes no progress lets the first tier grow past the page.
-/

namespace DbEngine.Lsm

open Lib Function LSMTreeEngine

/-- The tier has reached the threshold. -/
def Full (config : Config) (tier : List SSTable) : Prop := config.tierThreshold ≤ tier.length

instance (config : Config) (tier : List SSTable) : Decidable (Full config tier) :=
  inferInstanceAs (Decidable (_ ≤ _))

/-- Compaction has caught up when a flush is installed, and the last tier never fills up. -/
def KeepsUp (config : Config) (engine : LSMTreeEngine) (label : Label) : Prop :=
  (∀ client memTable, label = .install client memTable →
    engine.compaction = none ∧ engine.findTierNeedingCompaction config = none) ∧
  ∀ tier, engine.tiers[maxManifestTiers - 1]? = some tier → ¬ Full config tier

/-- The tiers fit, and at most one of them is full. -/
structure Fits (config : Config) (tiers : List (List SSTable)) : Prop where
  depth : tiers.length ≤ maxManifestTiers
  size : ∀ {i : Nat} {tier : List SSTable}, tiers[i]? = some tier →
    (tier.length : Int) ≤ config.tierThreshold
  once : ∀ {i j : Nat} {first second : List SSTable}, tiers[i]? = some first →
    tiers[j]? = some second → Full config first → Full config second → i = j

/-- A pass compacts all of a full tier that is not the last one. -/
def PassFits (config : Config) (tiers : List (List SSTable)) : Pass → Prop
  | .claimed => True
  | .snapshot tier toCompact _ | .building tier toCompact _ _ _ | .built tier toCompact _ =>
    tiers[tier]? = some toCompact ∧ Full config toCompact ∧ tier + 1 < maxManifestTiers

/-- What keeps the manifest small. -/
structure Bounded (config : Config) (engine : LSMTreeEngine) : Prop where
  fits : Fits config engine.tiers
  pass : ∀ compaction ∈ engine.compaction, PassFits config engine.tiers compaction.pass

variable {config : Config} {engine after : LSMTreeEngine} {label : Label}
  {tiers : List (List SSTable)}

/-! ## One step -/

lemma not_full_of_find (none : engine.findTierNeedingCompaction config = none) {i : Nat}
    (found : engine.tiers[i]? = some tier) : ¬ Full config tier := by
  have small := List.findIdx?_eq_none_iff.mp none tier (mem_of_getElem? found)
  exact of_decide_eq_false small

/-- A table is pushed into a first tier that is not full. -/
lemma Fits.pushFront (fits : Fits config tiers) (positive : 1 ≤ config.tierThreshold)
    (free : ∀ {i : Nat} {tier : List SSTable}, tiers[i]? = some tier → ¬ Full config tier)
    (table : SSTable) : Fits config (LSMTreeEngine.pushFront table tiers) := by
  have at_succ (i : Nat) : (LSMTreeEngine.pushFront table tiers)[i + 1]? = tiers[i + 1]? := by
    cases tiers with
    | nil | cons first rest => rfl
  have later {i : Nat} {tier : List SSTable}
      (found : (LSMTreeEngine.pushFront table tiers)[i + 1]? = some tier) : ¬ Full config tier := by
    rw [at_succ] at found
    exact free found
  constructor
  · cases tiers with
    | nil => exact Nat.le_of_ble_eq_true rfl
    | cons first rest => exact fits.depth
  · intro i tier found
    cases i with
    | succ i =>
      rw [at_succ] at found
      exact fits.size found
    | zero =>
      cases tiers with
      | nil =>
        cases found
        exact positive
      | cons first rest =>
        cases found
        have small : ¬ Full config first := @free 0 first rfl
        rw [Full] at small
        rw [length_cons]
        omega
  · intro i j first second found found' full full'
    cases i with
    | succ i => exact absurd full (later found)
    | zero =>
      cases j with
      | succ j => exact absurd full' (later found')
      | zero => rfl

lemma getElem?_promote (tier : Nat) (toCompact : List SSTable) (newSst : Option SSTable)
    (tiers : List (List SSTable)) (i : Nat) : (promote tier toCompact newSst tiers)[i]? =
      ((tiers ++ replicate (tier + 2 - tiers.length) [])[i]?).map fun tables =>
        if i = tier then remaining toCompact tables
        else if i = tier + 1 then newSst.toList ++ tables else tables := by
  rw [promote, List.getElem?_modify, List.getElem?_modify]
  cases (tiers ++ replicate (tier + 2 - tiers.length) [])[i]? with
  | none => rfl
  | some tables =>
    simp only [map_some, Option.map_eq_map]
    by_cases here : tier = i
    · subst here
      simp
    · by_cases next : tier + 1 = i
      · subst next
        simp
      · simp [here, next, Ne.symm here, Ne.symm next]

lemma length_promote (tier : Nat) (toCompact : List SSTable) (newSst : Option SSTable)
    (tiers : List (List SSTable)) :
    (promote tier toCompact newSst tiers).length = max tiers.length (tier + 2) := by
  simp only [promote, List.length_modify, length_append, List.length_replicate]
  omega

/-- All tables that are compacted go. -/
lemma remaining_self (toCompact : List SSTable) : remaining toCompact toCompact = [] := by
  apply filter_eq_nil_iff.mpr
  intro table mem
  rw [Bool.not_eq_true', Bool.not_eq_false, any_eq_true]
  exact ⟨table, mem, beq_self_eq_true _⟩

/-- The tables of a full tier become at most one in the tier below, which was not full. -/
lemma Fits.promote (fits : Fits config tiers) (positive : 1 ≤ config.tierThreshold)
    (found : tiers[tier]? = some toCompact) (full : Full config toCompact)
    (inside : tier + 1 < maxManifestTiers) (newSst : Option SSTable) :
    Fits config (promote tier toCompact newSst tiers) := by
  have empty : ¬ Full config [] := fun full => absurd (positive.trans full) (by decide)
  -- A tier afterwards: the one that was emptied, the one below, or one that was there.
  have afterwards {i : Nat} {tables : List SSTable}
      (there : (LSMTreeEngine.promote tier toCompact newSst tiers)[i]? = some tables) :
      (tables.length : Int) ≤ config.tierThreshold ∧ (Full config tables → i = tier + 1) := by
    rw [getElem?_promote] at there
    obtain ⟨before, was, rfl⟩ := map_eq_some_iff.mp there
    have old : tiers[i]? = some before ∨ before = [] := by
      rw [List.getElem?_append] at was
      split at was
      · exact .inl was
      · exact .inr (List.eq_of_mem_replicate (mem_of_getElem? was))
    have small : (before.length : Int) ≤ config.tierThreshold := by
      rcases old with old | rfl
      · exact fits.size old
      · exact Int.le_trans (by decide) positive
    have notFull (other : i ≠ tier) : ¬ Full config before := by
      rcases old with old | rfl
      · exact fun isFull => other (fits.once old found isFull full)
      · exact empty
    split
    next here =>
      have bound : tier < tiers.length := (getElem?_eq_some_iff.mp found).1
      rw [here, getElem?_append_left bound, found] at was
      cases was
      rw [remaining_self]
      exact ⟨Int.le_trans (by decide) positive, fun isFull => absurd isFull empty⟩
    next other =>
      split
      next below =>
        refine ⟨?_, fun _ => below⟩
        have free := notFull other
        rw [Full] at free
        rw [length_append]
        cases newSst with
        | none => simpa using small
        | some table =>
          simp only [toList_some, length_singleton]
          omega
      · exact ⟨small, fun isFull => absurd isFull (notFull other)⟩
  constructor
  · rw [length_promote]
    exact max_le fits.depth inside
  · exact fun there => (afterwards there).1
  · intro i j first second there there' isFull isFull'
    rw [(afterwards there).2 isFull, (afterwards there').2 isFull']

/-- A pass that a step does not touch still fits. -/
lemma Bounded.same (bounded : Bounded config engine) (tiers : after.tiers = engine.tiers)
    (compaction : after.compaction = engine.compaction) : Bounded config after := by
  constructor
  · rw [tiers]
    exact bounded.fits
  · rw [tiers, compaction]
    exact bounded.pass

/-- A pass goes on. -/
lemma Bounded.setPass (fits : Fits config engine.tiers) (runner : Option Nat) {pass : Pass}
    (ok : PassFits config engine.tiers pass) : Bounded config (engine.setPass runner pass) := by
  refine ⟨fits, ?_⟩
  intro compaction mem
  cases mem
  exact ok

lemma Bounded.endPass (fits : Fits config engine.tiers) (runner : Option Nat)
    (thrown : Option String) : Bounded config (engine.endPass runner thrown) := by
  rw [endPass_only]
  exact ⟨fits, nofun⟩

/-- The tier that a pass chooses is full and not the last. -/
lemma passFits_chooseTier (bounded : Bounded config engine) (keepsUp : KeepsUp config engine label)
    (found : engine.findTierNeedingCompaction config = some tier) : PassFits config engine.tiers
      (.snapshot tier (engine.tiers.getD tier []) (engine.isBottommost tier)) := by
  obtain ⟨inside, full, -⟩ := List.findIdx?_eq_some_iff_getElem.mp found
  have there : engine.tiers[tier]? = some (engine.tiers.getD tier []) := by
    rw [getD_eq_getElem?_getD, getElem?_eq_getElem inside]
    rfl
  have isFull : Full config (engine.tiers.getD tier []) := by
    rw [getD_eq_getElem?_getD, getElem?_eq_getElem inside]
    exact of_decide_eq_true full
  refine ⟨there, isFull, ?_⟩
  have notLast : tier ≠ maxManifestTiers - 1 := by
    rintro rfl
    exact keepsUp.2 _ there isFull
  have depth := bounded.fits.depth
  simp only [maxManifestTiers] at depth notLast ⊢
  omega

/-- Every step keeps the tiers small, if compaction keeps up. -/
lemma Bounded.step (bounded : Bounded config engine) (positive : 1 ≤ config.tierThreshold)
    (keepsUp : KeepsUp config engine label) (step : Step config engine label after) :
    Bounded config after := by
  have pushed {client memTable : Nat} (installs : label = .install client memTable)
      (table : SSTable) : Bounded config (engine.installFlushed memTable table) := by
    obtain ⟨idle, none⟩ := keepsUp.1 client memTable installs
    refine ⟨bounded.fits.pushFront positive (not_full_of_find none) table, ?_⟩
    intro compaction mem
    rw [installFlushed, idle] at mem
    cases mem
  have promoted {runner : Option Nat} {tier : Nat} {toCompact : List SSTable}
      {newSst : Option SSTable}
      (stands : engine.compaction = some ⟨runner, .built tier toCompact newSst⟩) :
      Fits config (promote tier toCompact newSst engine.tiers) := by
    obtain ⟨found, full, inside⟩ := bounded.pass _ stands
    exact bounded.fits.promote positive found full inside newSst
  cases step with
  | swap =>
    rw [swapMemTable_eq]
    exact bounded.same rfl rfl
  | flushNothing =>
    rw [retire_eq]
    exact bounded.same rfl rfl
  | install | installThrows =>
    have installed := pushed rfl
    exact (installed _).same rfl rfl
  | help =>
    have claimed : PassFits config engine.tiers .claimed := trivial
    exact (Bounded.setPass bounded.fits _ claimed).same rfl rfl
  | claim =>
    have claimed : PassFits config engine.tiers .claimed := trivial
    exact .setPass bounded.fits _ claimed
  | nothingToDo => exact .endPass bounded.fits _ _
  | chooseTier stands found =>
    exact .setPass bounded.fits _ (passFits_chooseTier bounded keepsUp found)
  | mergeNothing stands | mergeStart stands | mergeEnd stands =>
    have ok := bounded.pass _ stands
    apply Bounded.setPass
    · exact bounded.fits
    · exact ok
  | compact stands | compactThrows stands =>
    apply Bounded.endPass
    exact promoted stands
  | _ =>
    exact bounded.same rfl rfl

/-! ## Runs -/

lemma Run.bounded (positive : 1 ≤ config.tierThreshold)
    (run : Run config (KeepsUp config) (created config) labels engine) : Bounded config engine := by
  induction run with
  | opened =>
    have tiers : (created config).tiers = [] := by
      rw [created]
      split <;> rfl
    constructor
    · rw [tiers]
      exact ⟨Nat.zero_le _, by rintro _ _ ⟨⟩, by rintro _ _ _ _ ⟨⟩⟩
    · rw [(atRest_created config).compaction]
      rintro _ ⟨⟩
  | step _ keepsUp step ih => exact ih.step positive keepsUp step

/-- The manifest has room for the tiers. -/
lemma persistManifest_of_fits (small : config.tierThreshold ≤ maxSSTablesPerManifestTier)
    (fits : Fits config engine.tiers) : ∃ manifest, engine.persistManifest = .ok manifest := by
  rw [persistManifest, if_neg (not_lt.mpr fits.depth), if_neg]
  · exact ⟨_, rfl⟩
  · rw [any_eq_true]
    rintro ⟨tier, mem, large⟩
    obtain ⟨i, found⟩ := getElem?_of_mem mem
    have bound := fits.size found
    have large := of_decide_eq_true large
    omega

/-- If compaction has caught up whenever a flush is installed, and the last tier never fills
up, the tiers fit the manifest in every state and it is always written. -/
theorem manifest_never_overflows {labels : List Label} (low : 2 ≤ config.tierThreshold)
    (high : config.tierThreshold ≤ maxSSTablesPerManifestTier)
    (run : Run config (KeepsUp config) (created config) labels engine) :
    engine.tiers.length ≤ maxManifestTiers ∧
      (∀ tier ∈ engine.tiers, tier.length ≤ maxSSTablesPerManifestTier) ∧
      (∀ client call answer memTable table,
        engine.clients client = .flushing call answer (.built memTable none table) →
        KeepsUp config engine (.install client memTable) →
        ∃ manifest, (engine.installFlushed memTable table).persistManifest = .ok manifest) ∧
      ∀ runner tier toCompact newSst,
        engine.compaction = some ⟨runner, .built tier toCompact newSst⟩ →
        ∃ manifest, (engine.installCompacted tier toCompact newSst).persistManifest =
          .ok manifest := by
  have positive : 1 ≤ config.tierThreshold := Int.le_trans (by decide) low
  have bounded := run.bounded positive
  refine ⟨bounded.fits.depth, ?_, ?_, ?_⟩
  · intro tier mem
    rcases getElem?_of_mem mem with ⟨i, found⟩
    have bound := bounded.fits.size found
    omega
  · intro client call answer memTable table _ keepsUp
    rcases keepsUp.1 client memTable rfl with ⟨-, none⟩
    exact persistManifest_of_fits high
      (bounded.fits.pushFront positive (not_full_of_find none) table)
  · intro runner tier toCompact newSst stands
    rcases bounded.pass _ stands with ⟨found, full, inside⟩
    exact persistManifest_of_fits high (bounded.fits.promote positive found full inside newSst)

/-- One client flushes a write. -/
theorem manifest_never_overflows_flushEach :
    ∃ engine : LSMTreeEngine, engine.tiers.length = 1 ∧ engine.tiers.length ≤ maxManifestTiers ∧
      ∀ tier ∈ engine.tiers, tier.length ≤ maxSSTablesPerManifestTier := by
  have run : Run flushEach (KeepsUp flushEach) (created flushEach) [] _ := .opened
  have run := run.next (@Step.start _ _ 0 (.put 7 [1]) rfl) ⟨fun _ _ => nofun, fun _ => nofun⟩
  have run := run.next (@Step.putWrite _ _ 0 7 [1] rfl (by decide))
    ⟨fun _ _ => nofun, fun _ => nofun⟩
  have run := run.next (@Step.swap _ _ 0 _ _ rfl) ⟨fun _ _ => nofun, fun _ => nofun⟩
  have run := run.next (@Step.buildStart _ _ 0 _ _ _ _ rfl (by decide))
    ⟨fun _ _ => nofun, fun _ => nofun⟩
  have run := run.next (@Step.buildEnd _ _ 0 _ _ _ _ _ _ _ rfl rfl)
    ⟨fun _ _ => nofun, fun _ => nofun⟩
  have run := run.next (@Step.install _ _ 0 _ _ _ _ _ rfl rfl)
    ⟨fun _ _ _ => ⟨rfl, rfl⟩, fun _ => nofun⟩
  rcases manifest_never_overflows (by decide) (by decide) run with ⟨depth, size, -⟩
  exact ⟨_, rfl, depth, size⟩

/-! ## A pass that makes no progress -/

/-- The clients and the pass stand as given, and the first tier has the given tables, of which
the manifest names as many of the oldest as it has room for. -/
structure Piled (clients : Nat → Client) (busy : Option Compaction) (tables : List SSTable)
    (engine : LSMTreeEngine) : Prop where
  clients : engine.clients = clients
  busy : engine.compaction = busy
  tiers : ∀ table, pushFront table engine.tiers = [table :: tables]
  named : engine.disk.manifest.tiers.flatten =
    (tables.drop (tables.length - maxSSTablesPerManifestTier)).map SSTable.id

/-- A memtable that was written to is not empty. -/
lemma entryCount_written (memTables : Nat → MemTable) (active : Nat) (key : KeyType)
    (entry : LSMValue) : (update (update memTables active ((memTables active).write key entry))
      (active + 1) {} active).entryCount ≠ 0 := by
  rw [update_of_ne (ne_of_lt (Nat.lt_succ_self active)), update_self]
  intro none
  have found : ((memTables active).write key entry).list.lookup key = some entry :=
    SortedMap.lookup_insert_self
  rw [SortedMap.lookup, length_eq_zero_iff.mp none] at found
  cases found

lemma persistManifest_singleton (only : engine.tiers = [tier]) : engine.persistManifest =
      if maxSSTablesPerManifestTier < tier.length then
        .error "LSMTreeEngine: exceeded manifest per-tier SSTable capacity"
      else .ok { nextSstableId := engine.nextSstableId, tiers := [tier.map SSTable.id] } := by
  have shallow : ¬ maxManifestTiers < [tier].length := by
    rw [length_singleton]
    decide
  rw [persistManifest, only, if_neg shallow]
  simp

section

variable {clients : Nat → Client} {busy : Option Compaction} {tables : List SSTable} {client : Nat}
  (piled : Piled clients busy tables engine) (idle : clients client = .idle)
include piled idle

/-- A write of a client, up to the table of its memtable. -/
lemma Piled.build :
    ∃ labels built memTable table, Run flushEach (fun _ => OneWriter client) engine labels built ∧
      built.clients client = .flushing (.put 7 [1]) .done (.built memTable none table) ∧
      (∀ state, update built.clients client state = update clients client state) ∧
      built.compaction = busy ∧ built.disk.manifest = engine.disk.manifest ∧
      (built.installFlushed memTable table).tiers = [table :: tables] := by
  obtain ⟨rfl, rfl, first, -⟩ := piled
  have run : Run flushEach (fun _ => OneWriter client) engine [] _ := .opened
  have run := run.next (@Step.start _ _ client (.put 7 [1]) idle) fun _ => rfl
  have run := run.next (@Step.putWrite _ _ client 7 [1] (update_self ..) (by decide))
  have run := run.next (@Step.swap _ _ client _ _ (update_self ..))
  have run := run.next (@Step.buildStart _ _ client _ _ _ _ (update_self ..)
    (entryCount_written engine.memTables engine.active 7 _))
  have run := run.next (@Step.buildEnd _ _ client _ _ _ _ _ _ _ (update_self ..) rfl)
  refine ⟨_, _, _, _, run, update_self .., fun state => ?_, rfl, rfl, first _⟩
  iterate 4 apply (update_idem _ _ _).trans
  exact update_idem ..

/-- The client puts its table into the first tier, if need be without the manifest, and goes
on: it does not help when somebody else runs a pass, or when the tier is small. -/
lemma Piled.flush (alone : busy = none → tables.length + 1 < writeStallTierSize) :
    ∃ labels table after, Run flushEach (fun _ => OneWriter client) engine labels after ∧
      Piled clients busy (table :: tables) after := by
  obtain ⟨labels, built, memTable, table, run, stands, others, pass, kept, only⟩ := piled.build idle
  have returned (state : Client) :
      update (update built.clients client state) client .idle = clients := by
    rw [update_idem, others, ← idle, update_eq_self]
  have pushed (next : SSTable) : pushFront next (built.installFlushed memTable table).tiers =
      [next :: table :: tables] := by
    rw [only]
    rfl
  by_cases large : maxSSTablesPerManifestTier < (table :: tables).length
  · have throws := (persistManifest_singleton only).trans (if_pos large)
    have run := run.next (.installThrows stands throws)
    have run := run.next (@Step.finish _ _ client _ _ (update_self ..))
    refine ⟨_, table, _, run, returned _, pass, pushed, ?_⟩
    have full : (table :: tables).length - maxSSTablesPerManifestTier =
        tables.length - maxSSTablesPerManifestTier + 1 := by
      rw [length_cons] at large ⊢
      omega
    rw [full, List.drop_succ_cons, ← piled.named, ← kept]
    rfl
  · have persists := (persistManifest_singleton only).trans (if_neg large)
    have run := run.next (.install stands persists)
    have names : [(table :: tables).map SSTable.id].flatten = ((table :: tables).drop
        ((table :: tables).length - maxSSTablesPerManifestTier)).map SSTable.id := by
      rw [Nat.sub_eq_zero_of_le (not_lt.mp large)]
      exact append_nil _
    have next := update_self client
      ((built.installFlushed memTable table).afterFlush (.put 7 [1]) .done) built.clients
    by_cases waits : (built.installFlushed memTable table).backlogged = true
    · have running : built.compaction ≠ none := by
        intro none
        rw [backlogged, only] at waits
        exact absurd (alone (pass.symm.trans none)) (not_lt.mpr (of_decide_eq_true waits))
      have run := run.next (.helpNot (next.trans (if_pos waits)) running)
      have run := run.next (@Step.finish _ _ client _ _ (update_self ..))
      refine ⟨_, table, _, run, ?_, pass, pushed, names⟩
      exact (update_idem ..).trans (returned _)
    · have run := run.next (.finish (next.trans (if_neg waits))) trivial
      exact ⟨_, table, _, run, returned _, pass, pushed, names⟩

end

lemma Run.append {allowed : LSMTreeEngine → Label → Prop} {opened middle : LSMTreeEngine}
    {first second : List Label} (run : Run config allowed opened first middle)
    (rest : Run config allowed middle second engine) :
    Run config allowed opened (first ++ second) engine := by
  induction rest with
  | opened =>
    rw [append_nil]
    exact run
  | step _ may step ih =>
    rw [← append_assoc]
    exact ih.next step may

/-- A client flushes as often as one wants. -/
lemma Piled.pile {clients : Nat → Client} {busy : Option Compaction}
    (idle : clients client = .idle) (piled : Piled clients busy tables engine) (count : Nat)
    (alone : busy = none → tables.length + count < writeStallTierSize) :
    ∃ labels newer after, Run flushEach (fun _ => OneWriter client) engine labels after ∧
      newer.length = count ∧ Piled clients busy (newer ++ tables) after := by
  induction count with
  | zero => exact ⟨[], [], engine, .opened, rfl, piled⟩
  | succ count ih =>
    obtain ⟨first, newer, middle, run, length, piled⟩ :=
      ih fun free => Nat.lt_of_succ_lt (alone free)
    have more : busy = none → (newer ++ tables).length + 1 < writeStallTierSize := by
      intro free
      rw [length_append, length, Nat.add_comm count, Nat.add_assoc]
      exact alone free
    obtain ⟨second, table, after, rest, piled⟩ := piled.flush idle more
    exact ⟨_, table :: newer, after, run.append rest, congrArg (· + 1) length, piled⟩

/-- While the background thread stays in one pass, a client flushes seventeen times, and the
last call throws. -/
theorem starved_pass_overflows :
    ∃ labels engine tables, Run flushEach (fun _ => OneWriter 0) (created flushEach) labels engine ∧
      engine.tiers = [tables] ∧ tables.length = 17 ∧
      engine.clients 0 = .returning (.put 7 [1])
        (.runtimeError "LSMTreeEngine: exceeded manifest per-tier SSTable capacity") := by
  have run : Run flushEach (fun _ => OneWriter 0) (created flushEach) [] _ := .opened
  have run := run.next (@Step.claim _ _ rfl)
  have piled : Piled (fun _ => .idle) (some ⟨none, .claimed⟩) []
      ((created flushEach).setPass none .claimed) := ⟨rfl, rfl, fun _ => rfl, rfl⟩
  have idle : (fun _ : Nat => Client.idle) 0 = .idle := rfl
  rcases piled.pile idle 16 nofun with ⟨_, newer, engine, rest, length, piled⟩
  rcases piled.build idle with ⟨_, built, memTable, table, last, stands, -, -, -, only⟩
  have large : (table :: (newer ++ [])).length = 17 := by
    rw [append_nil, length_cons, length]
  have throws := (persistManifest_singleton only).trans (if_pos (large ▸ by decide))
  have run := ((run.append rest).append last).next (.installThrows stands throws) trivial
  exact ⟨_, _, _, run, only, large, rfl⟩

end DbEngine.Lsm
