import DbEngine.Lsm.Engine

/-!
# The invariant of the engine

What holds in every state, however many clients there are: who flushes which memtable, that
the tables in the tiers and those being built have different ids, and that a running
compaction still finds its tables at the end of their tier.  Each part is stated of the
fields it is about, so that steps which leave those alone keep it at once.
-/

namespace DbEngine.Lsm

open Lib Function LSMTreeEngine LSMTreeEngine

variable {α β : Type} {map : α → Option β} {key query : α} {found : β} {memTable tier : Nat}
  {table' : Option SSTable} {config : Config}

lemma of_update [DecidableEq α] (there : update map key value query = some found) :
    (query = key ∧ value = some found) ∨ (query ≠ key ∧ map query = some found) := by
  by_cases here : query = key
  · subst here
    rw [update_self] at there
    exact .inl ⟨rfl, there⟩
  · rw [update_of_ne here] at there
    exact .inr ⟨here, there⟩

lemma of_update_none [DecidableEq α] (there : update map key none query = some found) :
    map query = some found := by
  rcases of_update there with ⟨-, impossible⟩ | ⟨-, there⟩
  · cases impossible
  · exact there

/-! ## Memtables being flushed -/

/-- The memtable a client is flushing, with its table once that is complete. -/
def Client.flushed : Client → Option (Nat × Option SSTable)
  | .flushing _ _ (.retired memTable _) | .flushing _ _ (.building memTable _ _ _) =>
    some (memTable, none)
  | .flushing _ _ (.built memTable _ table) => some (memTable, some table)
  | _ => none

/-- Every memtable is flushed by at most one client, and is no longer written to. -/
structure Flushes (memTables : Nat → MemTable) (active : Nat) (retired : List Nat)
    (flushed : Nat → Option (Nat × Option SSTable)) : Prop where
  below : ∀ memTable ∈ retired, memTable < active
  nodup : retired.Nodup
  mem : ∀ {client memTable table}, flushed client = some (memTable, table) → memTable ∈ retired
  once : ∀ {client client' memTable table table'}, flushed client = some (memTable, table) →
    flushed client' = some (memTable, table') → client = client'
  built : ∀ {client memTable table}, flushed client = some (memTable, some table) →
    table.entries = (memTables memTable).list

namespace Flushes

variable {memTables : Nat → MemTable} {active : Nat} {retired : List Nat}
  {flushed : Nat → Option (Nat × Option SSTable)} {client memTable : Nat}
  {table : Option SSTable}

section

variable (flushes : Flushes memTables active retired flushed)
include flushes

/-- A client stops flushing. -/
lemma leave (client : Nat) : Flushes memTables active retired (update flushed client none) := by
  constructor
  · exact flushes.below
  · exact flushes.nodup
  · exact fun there => flushes.mem (of_update_none there)
  · exact fun there there' => flushes.once (of_update_none there) (of_update_none there')
  · exact fun there => flushes.built (of_update_none there)

/-- A client goes on flushing its memtable. -/
lemma stay (had : flushed client = some (memTable, table))
    (is : ∀ table ∈ table', table.entries = (memTables memTable).list) :
    Flushes memTables active retired (update flushed client (some (memTable, table'))) := by
  have before {other found : Nat} {table : Option SSTable}
      (there : update flushed client (some (memTable, table')) other =
        some (found, table)) : ∃ table, flushed other = some (found, table) := by
    rcases of_update there with ⟨rfl, same⟩ | ⟨-, there⟩
    · cases same
      exact ⟨_, had⟩
    · exact ⟨_, there⟩
  constructor
  · exact flushes.below
  · exact flushes.nodup
  · intro other found table there
    obtain ⟨_, there⟩ := before there
    exact flushes.mem there
  · intro other other' found table table' there there'
    obtain ⟨_, there⟩ := before there
    obtain ⟨_, there'⟩ := before there'
    exact flushes.once there there'
  · intro other found table there
    rcases of_update there with ⟨-, same⟩ | ⟨-, there⟩
    · cases same
      exact is table rfl
    · exact flushes.built there

/-- The active memtable is written to. -/
lemma write (written : MemTable) :
    Flushes (update memTables active written) active retired flushed := by
  constructor
  · exact flushes.below
  · exact flushes.nodup
  · exact flushes.mem
  · exact flushes.once
  · intro client memTable table there
    have ne := ne_of_lt (flushes.below memTable (flushes.mem there))
    rw [update_of_ne ne]
    exact flushes.built there

/-- The active memtable is retired by a client. -/
lemma swap (client : Nat) :
    Flushes (update memTables (active + 1) {}) (active + 1) (active :: retired)
      (update flushed client (some (active, none))) := by
  have notActive {other : Nat} {table : Option SSTable}
      (there : flushed other = some (active, table)) : False :=
    lt_irrefl active (flushes.below active (flushes.mem there))
  constructor
  · intro memTable mem
    rcases mem_cons.mp mem with rfl | mem
    · exact Nat.lt_succ_self _
    · exact Nat.lt_succ_of_lt (flushes.below memTable mem)
  · refine nodup_cons.mpr ⟨?_, flushes.nodup⟩
    intro mem
    exact lt_irrefl active (flushes.below active mem)
  · intro other memTable table there
    rcases of_update there with ⟨-, same⟩ | ⟨-, there⟩
    · cases same
      exact mem_cons_self
    · exact mem_cons_of_mem _ (flushes.mem there)
  · intro other other' memTable table table' there there'
    rcases of_update there with ⟨rfl, same⟩ | ⟨-, there⟩
    · cases same
      rcases of_update there' with ⟨rfl, -⟩ | ⟨-, there'⟩
      · rfl
      · exact (notActive there').elim
    · rcases of_update there' with ⟨-, same⟩ | ⟨-, there'⟩
      · cases same
        exact (notActive there).elim
      · exact flushes.once there there'
  · intro other memTable table there
    rcases of_update there with ⟨-, same⟩ | ⟨-, there⟩
    · cases same
    · have bound := flushes.below memTable (flushes.mem there)
      rw [update_of_ne (ne_of_lt (Nat.lt_succ_of_lt bound))]
      exact flushes.built there

/-- A client is done with its memtable. -/
lemma drop (had : flushed client = some (memTable, table)) :
    Flushes memTables active (retired.erase memTable) (update flushed client none) := by
  have left := flushes.leave client
  constructor
  · exact fun other mem => flushes.below other (List.mem_of_mem_erase mem)
  · exact flushes.nodup.erase memTable
  · intro other found table there
    refine flushes.nodup.mem_erase_iff.mpr ⟨?_, left.mem there⟩
    intro same
    subst same
    rcases of_update there with ⟨-, impossible⟩ | ⟨ne, there⟩
    · cases impossible
    · exact ne (flushes.once there had)
  · exact left.once
  · exact left.built

end

end Flushes

/-! ## Ids -/

/-- The id that a client has drawn for a table. -/
def Client.tableId : Client → Option Nat
  | .flushing _ _ (.building _ _ id _) => some id
  | .flushing _ _ (.built _ _ table) => some table.id
  | _ => none

/-- The id that a pass has drawn for a table. -/
def Pass.tableId : Pass → Option Nat
  | .building _ _ id _ _ => some id
  | .built _ _ newSst => newSst.map SSTable.id
  | _ => none

/-- The id drawn by a client, or by the running pass. -/
def LSMTreeEngine.pendingId (engine : LSMTreeEngine) : Option Nat → Option Nat
  | some client => (engine.clients client).tableId
  | none => engine.compaction.bind fun compaction => compaction.pass.tableId

/-- No id is used twice. -/
structure TableIds (tables : List SSTable) (next : Nat) (pending : Option Nat → Option Nat) :
    Prop where
  nodup : (tables.map SSTable.id).Nodup
  below : ∀ table ∈ tables, table.id < next
  fresh : ∀ {owner id}, pending owner = some id → id < next ∧ ∀ table ∈ tables, table.id ≠ id
  once : ∀ {owner owner' id}, pending owner = some id → pending owner' = some id →
    owner = owner'

namespace TableIds

variable {tables above middle below : List SSTable} {next : Nat}
  {pending : Option Nat → Option Nat} {owner : Option Nat} {table : SSTable}

/-- The owner of an id no longer has it. -/
lemma release (ids : TableIds tables next pending) (owner : Option Nat) :
    TableIds tables next (update pending owner none) := by
  constructor
  · exact ids.nodup
  · exact ids.below
  · exact fun there => ids.fresh (of_update_none there)
  · exact fun there there' => ids.once (of_update_none there) (of_update_none there')

/-- An id is drawn. -/
lemma draw (ids : TableIds tables next pending) (owner : Option Nat) :
    TableIds tables (next + 1) (update pending owner (some next)) := by
  have notNext {other : Option Nat} (there : pending other = some next) : False :=
    lt_irrefl next (ids.fresh there).1
  constructor
  · exact ids.nodup
  · exact fun table mem => Nat.lt_succ_of_lt (ids.below table mem)
  · intro other id there
    rcases of_update there with ⟨-, same⟩ | ⟨-, there⟩
    · cases same
      exact ⟨Nat.lt_succ_self _, fun table mem => ne_of_lt (ids.below table mem)⟩
    · exact ⟨Nat.lt_succ_of_lt (ids.fresh there).1, (ids.fresh there).2⟩
  · intro other other' id there there'
    rcases of_update there with ⟨here, same⟩ | ⟨-, there⟩
    · cases same
      rcases of_update there' with ⟨here', -⟩ | ⟨-, there'⟩
      · rw [here, here']
      · exact (notNext there').elim
    · rcases of_update there' with ⟨-, same⟩ | ⟨-, there'⟩
      · cases same
        exact (notNext there).elim
      · exact ids.once there there'

/-- Some tables go. -/
lemma sublist (ids : TableIds tables next pending) (kept : tables'.Sublist tables) :
    TableIds tables' next pending := by
  constructor
  · exact ids.nodup.sublist (kept.map SSTable.id)
  · exact fun table mem => ids.below table (kept.subset mem)
  · intro owner id there
    exact ⟨(ids.fresh there).1, fun table mem => (ids.fresh there).2 table (kept.subset mem)⟩
  · exact ids.once

/-- A table with an id that was drawn for it comes in. -/
lemma insert (ids : TableIds (above ++ below) next pending) (had : pending owner = some table.id) :
    TableIds (above ++ table :: below) next (update pending owner none) := by
  have moved : (above ++ table :: below).Perm (table :: (above ++ below)) := List.perm_middle
  have fresh := ids.fresh had
  have released := ids.release owner
  constructor
  · apply (moved.map SSTable.id).nodup_iff.mpr
    refine nodup_cons.mpr ⟨?_, ids.nodup⟩
    intro mem
    obtain ⟨other, inTables, same⟩ := mem_map.mp mem
    exact fresh.2 other inTables same
  · intro other mem
    rcases mem_cons.mp (moved.mem_iff.mp mem) with rfl | mem
    · exact fresh.1
    · exact ids.below other mem
  · intro other id there
    refine ⟨(released.fresh there).1, ?_⟩
    intro other' mem same
    rcases mem_cons.mp (moved.mem_iff.mp mem) with rfl | mem
    · rcases of_update there with ⟨-, impossible⟩ | ⟨ne, there⟩
      · cases impossible
      · rw [← same] at there
        exact ne (ids.once there had)
    · exact (released.fresh there).2 other' mem same
  · exact released.once

end TableIds

/-! ## Files -/

/-- The page a client has taken for a header. -/
def Client.header : Client → Option Nat
  | .flushing _ _ (.building _ _ _ header) => some header
  | _ => none

/-- The page a pass has taken for a header. -/
def Pass.header : Pass → Option Nat
  | .building _ _ _ header _ => some header
  | _ => none

/-- An id that was not drawn has no file, so the headers of new tables come first. -/
structure FreshFiles (tables : SortedMap Nat TableFile) (next : Nat) (clients : Nat → Client)
    (compaction : Option Compaction) : Prop where
  absent : ∀ id, next ≤ id → tables.lookup id = none
  first : ∀ client, ∀ header ∈ (clients client).header, header = 0
  passFirst : ∀ running ∈ compaction, ∀ header ∈ running.pass.header, header = 0

namespace FreshFiles

variable {tables : SortedMap Nat TableFile} {next : Nat} {clients : Nat → Client}
  {compaction : Option Compaction}

section

variable (files : FreshFiles tables next clients compaction)
include files

/-- A client moves. -/
lemma client (first : ∀ header ∈ state.header, header = 0) :
    FreshFiles tables next (update clients mover state) compaction := by
  refine ⟨files.absent, ?_, files.passFirst⟩
  intro client
  by_cases same : client = mover
  · rw [same, update_self]
    exact first
  · rw [update_of_ne same]
    exact files.first client

/-- A pass moves. -/
lemma pass {pass : Pass} (first : ∀ header ∈ pass.header, header = 0) :
    FreshFiles tables next clients (some ⟨runner, pass⟩) := by
  refine ⟨files.absent, files.first, ?_⟩
  intro running mem
  cases mem
  exact first

lemma ended : FreshFiles tables next clients none := ⟨files.absent, files.first, nofun⟩

/-- An id is drawn. -/
lemma draw (file : TableFile) :
    FreshFiles (tables.insert next file) (next + 1) clients compaction := by
  refine ⟨?_, files.first, files.passFirst⟩
  intro id above
  rw [SortedMap.lookup_insert_of_ne (Nat.ne_of_gt above)]
  exact files.absent id (Nat.le_of_succ_le above)

/-- A file of a drawn id is written. -/
lemma insert {id : Nat} (below : id < next) (file : TableFile) :
    FreshFiles (tables.insert id file) next clients compaction := by
  refine ⟨?_, files.first, files.passFirst⟩
  intro other above
  rw [SortedMap.lookup_insert_of_ne (Nat.ne_of_gt (lt_of_lt_of_le below above))]
  exact files.absent other above

lemma erase (id : Nat) : FreshFiles (tables.erase id) next clients compaction := by
  refine ⟨?_, files.first, files.passFirst⟩
  intro other above
  rw [SortedMap.lookup_erase]
  split
  · rfl
  · exact files.absent other above

end

end FreshFiles

/-! ## Compaction -/

/-- The tables are the oldest of their tier. -/
def HasOldest (tiers : List (List SSTable)) (tier : Nat) (tables : List SSTable) : Prop :=
  ∃ newer, tiers[tier]? = some (newer ++ tables)

/-- The tiers below have no table. -/
def NothingBelow (tiers : List (List SSTable)) (tier : Nat) : Prop :=
  ∀ below ∈ tiers.drop (tier + 1), below = []

/-- A pass still has what it found, and has left out tombstones only if that is safe. -/
def PassOk (tiers : List (List SSTable)) : Pass → Prop
  | .claimed => True
  | .snapshot tier toCompact bottommost =>
    HasOldest tiers tier toCompact ∧ (bottommost = true → NothingBelow tiers tier)
  | .building tier toCompact _ _ merged =>
    HasOldest tiers tier toCompact ∧ ∃ bottommost, merged = compacted toCompact bottommost ∧
      (bottommost = true → NothingBelow tiers tier)
  | .built tier toCompact newSst =>
    HasOldest tiers tier toCompact ∧ ∃ bottommost,
      (∀ key, resolve (newSst.toList.map SSTable.entries) key =
        (compacted toCompact bottommost).lookup key) ∧
      (bottommost = true → NothingBelow tiers tier)

section

variable {tiers : List (List SSTable)} {tier : Nat} {tables toCompact : List SSTable}
  {table : SSTable}

lemma HasOldest.pushFront (has : HasOldest tiers tier tables) (table : SSTable) :
    HasOldest (pushFront table tiers) tier tables := by
  obtain ⟨newer, found⟩ := has
  cases tiers with
  | nil => cases found
  | cons first rest =>
    cases tier with
    | zero =>
      cases found
      exact ⟨table :: newer, rfl⟩
    | succ tier => exact ⟨newer, found⟩

lemma NothingBelow.pushFront (nothing : NothingBelow tiers tier)
    (has : HasOldest tiers tier tables) (table : SSTable) :
    NothingBelow (pushFront table tiers) tier := by
  obtain ⟨newer, found⟩ := has
  cases tiers with
  | nil => cases found
  | cons first rest => exact nothing

/-- A flush does not disturb a pass. -/
lemma PassOk.pushFront {pass : Pass} (ok : PassOk tiers pass) (table : SSTable) :
    PassOk (pushFront table tiers) pass := by
  cases pass with
  | claimed => trivial
  | snapshot tier toCompact bottommost =>
    exact ⟨ok.1.pushFront table, fun bottom => (ok.2 bottom).pushFront ok.1 table⟩
  | building | built =>
    obtain ⟨has, bottommost, is, nothing⟩ := ok
    exact ⟨has.pushFront table, bottommost, is, fun bottom => (nothing bottom).pushFront has table⟩

lemma flatten_pushFront (table : SSTable) (tiers : List (List SSTable)) :
    (pushFront table tiers).flatten = table :: tiers.flatten := by
  cases tiers with
  | nil | cons first rest => rfl

/-- With different ids, exactly the compacted tables go. -/
lemma remaining_append (nodup : ((newer ++ toCompact).map SSTable.id).Nodup) :
    remaining toCompact (newer ++ toCompact) = newer := by
  rw [map_append, nodup_append] at nodup
  rw [remaining, filter_append]
  have kept : (newer.filter fun table =>
      !toCompact.any fun compacted => compacted.id == table.id) = newer := by
    apply filter_eq_self.mpr
    intro table mem
    rw [Bool.not_eq_true', any_eq_false]
    intro compacted mem' same
    exact nodup.2.2 table.id (mem_map_of_mem mem) compacted.id (mem_map_of_mem mem')
      (beq_iff_eq.mp same).symm
  have gone : (toCompact.filter fun table =>
      !toCompact.any fun compacted => compacted.id == table.id) = [] := by
    apply filter_eq_nil_iff.mpr
    intro table mem
    rw [Bool.not_eq_true', Bool.not_eq_false, any_eq_true]
    exact ⟨table, mem, beq_self_eq_true _⟩
  rw [kept, gone, append_nil]

lemma promote_cons (first : List SSTable) (newSst : Option SSTable) :
    promote (tier + 1) toCompact newSst (first :: tiers) =
      first :: promote tier toCompact newSst tiers := by
  have length : tier + 1 + 2 - (tiers.length + 1) = tier + 2 - tiers.length := by omega
  simp [promote, length]

/-- A compaction replaces its tables, where they are, by the one it has built. -/
lemma flatten_promote (has : HasOldest tiers tier toCompact)
    (nodup : (tiers.flatten.map SSTable.id).Nodup) (newSst : Option SSTable) :
    ∃ above below, tiers.flatten = above ++ toCompact ++ below ∧
      (promote tier toCompact newSst tiers).flatten = above ++ newSst.toList ++ below ∧
      (NothingBelow tiers tier → below = []) := by
  obtain ⟨newer, found⟩ := has
  -- The tiers before the one that is compacted stay as they are.
  induction tier generalizing tiers with
  | zero =>
    cases tiers with
    | nil => cases found
    | cons first rest =>
      cases found
      refine ⟨newer, rest.flatten, rfl, ?_, List.flatten_eq_nil_iff.mpr⟩
      have kept : remaining toCompact (newer ++ toCompact) = newer := by
        apply remaining_append
        rw [flatten_cons, map_append, nodup_append] at nodup
        exact nodup.1
      cases rest with
      | nil | cons next rest => simp [promote, kept]
  | succ tier ih =>
    cases tiers with
    | nil => cases found
    | cons first rest =>
      have tail : (rest.flatten.map SSTable.id).Nodup := by
        rw [flatten_cons, map_append, nodup_append] at nodup
        exact nodup.2.1
      obtain ⟨above, below, flat, promoted, nothing⟩ := ih tail found
      refine ⟨first ++ above, below, ?_, ?_, nothing⟩
      · rw [flatten_cons, flat]
        simp
      · rw [promote_cons, flatten_cons, promoted]
        simp

end

/-! ## The invariant -/

/-- The memtables that clients are flushing. -/
def LSMTreeEngine.flushed (engine : LSMTreeEngine) (client : Nat) :
    Option (Nat × Option SSTable) :=
  (engine.clients client).flushed

/-- What holds in every state. -/
structure Sound (engine : LSMTreeEngine) : Prop where
  flushes : Flushes engine.memTables engine.active engine.retired engine.flushed
  ids : TableIds engine.tiers.flatten engine.nextSstableId engine.pendingId
  pass : ∀ compaction ∈ engine.compaction, PassOk engine.tiers compaction.pass
  files : FreshFiles engine.disk.tables engine.nextSstableId engine.clients engine.compaction

section

variable (engine : LSMTreeEngine) (client : Nat) (state : Client)

lemma flushed_setClient : (engine.setClient client state).flushed =
      update engine.flushed client state.flushed := by
  funext other
  exact apply_update (fun _ => Client.flushed) engine.clients client state other

lemma pendingId_setClient : (engine.setClient client state).pendingId =
      update engine.pendingId (some client) state.tableId := by
  funext owner
  cases owner with
  | none => rfl
  | some other =>
    by_cases same : other = client
    · subst same
      simp [pendingId, setClient]
    · simp [pendingId, setClient, same]

lemma pendingId_setPass (runner : Option Nat) (pass : Pass) :
    (engine.setPass runner pass).pendingId = update engine.pendingId none pass.tableId := by
  funext owner
  cases owner with
  | none | some other => rfl

end

variable {engine : LSMTreeEngine} {client : Nat} {state : Client}

lemma pendingId_pass {pass : Pass} (stands : engine.compaction = some ⟨runner, pass⟩) :
    engine.pendingId none = pass.tableId := by
  rw [pendingId, stands]
  rfl

/-- A client that builds no table has taken no page. -/
lemma Client.header_eq_none (tableId : state.tableId = none) : state.header = none := by
  cases state with
  | flushing call answer flush =>
    cases flush with
    | building => cases tableId
    | _ => rfl
  | _ => rfl

lemma Pass.header_eq_none {pass : Pass} (tableId : pass.tableId = none) : pass.header = none := by
  cases pass with
  | building => cases tableId
  | _ => rfl

/-- A client that has no part in a flush moves. -/
lemma Sound.move (sound : Sound engine) (flushed : state.flushed = none)
    (tableId : state.tableId = none) : Sound (engine.setClient client state) where
  flushes := by
    rw [flushed_setClient, flushed]
    exact sound.flushes.leave client
  ids := by
    rw [pendingId_setClient, tableId]
    exact sound.ids.release (some client)
  pass := sound.pass
  files := by
    apply sound.files.client
    rw [Client.header_eq_none tableId]
    exact nofun

/-- What `afterWrite` and `afterFlush` lead to has no part in a flush. -/
lemma flushed_afterWrite (config : Config) (call : Call) (answer : Answer) :
    (engine.afterWrite config call answer).flushed = none ∧
      (engine.afterWrite config call answer).tableId = none := by
  rw [afterWrite]
  split <;> exact ⟨rfl, rfl⟩

lemma flushed_afterFlush (call : Call) (answer : Answer) :
    (engine.afterFlush call answer).flushed = none ∧
      (engine.afterFlush call answer).tableId = none := by
  rw [afterFlush]
  split <;> exact ⟨rfl, rfl⟩

/-- `write` changes no table file. -/
lemma tables_write (config : Config) (key : KeyType) (op : Wal.LogOp) :
    (engine.write config key op).disk.tables = engine.disk.tables := by
  rw [write]
  split <;> rfl

lemma Sound.write (sound : Sound engine) (config : Config) (key : KeyType)
    (op : Wal.LogOp) : Sound (engine.write config key op) where
  flushes := sound.flushes.write _
  ids := sound.ids
  pass := sound.pass
  files := by
    rw [tables_write]
    exact sound.files

lemma retire_eq (oldWal : Option Nat) (engine : LSMTreeEngine) : engine.removeWal oldWal =
    { engine with disk := { engine.disk with memWals := (engine.removeWal oldWal).disk.memWals } } := by
  cases oldWal with
  | none | some generation => rfl

lemma swapMemTable_eq (config : Config) (engine : LSMTreeEngine) : engine.swapMemTable config =
    { engine with
      memTables := update engine.memTables (engine.active + 1) {}
      active := engine.active + 1
      retired := engine.active :: engine.retired
      nextWalGeneration := (engine.swapMemTable config).nextWalGeneration
      disk := { engine.disk with memWals := (engine.swapMemTable config).disk.memWals } } := by
  rw [swapMemTable]
  split
  · rfl
  · rfl

section

variable (sound : Sound engine)
include sound

lemma Sound.swap (config : Config) (client : Nat)
    (flushed : state.flushed = some (engine.active, none)) (tableId : state.tableId = none) :
    Sound ((engine.swapMemTable config).setClient client state) := by
  have flushes := sound.flushes.swap client
  have files : FreshFiles engine.disk.tables engine.nextSstableId
      (update engine.clients client state) engine.compaction := by
    apply sound.files.client
    rw [Client.header_eq_none tableId]
    exact nofun
  have ids := sound.ids.release (some client)
  rw [← flushed, ← flushed_setClient] at flushes
  rw [← tableId, ← pendingId_setClient] at ids
  rw [swapMemTable_eq]
  exact ⟨flushes, ids, sound.pass, files⟩

/-- Of the disk only the table files matter. -/
lemma Sound.withDisk (disk : Disk)
    (files : FreshFiles disk.tables engine.nextSstableId engine.clients engine.compaction) :
    Sound { engine with disk } :=
  ⟨sound.flushes, sound.ids, sound.pass, files⟩

variable {table : Option SSTable} {pass : Pass}

/-- A client is done with its memtable. -/
lemma Sound.drop (had : engine.flushed client = some (memTable, table))
    (flushed : state.flushed = none) (tableId : state.tableId = none) :
    Sound (({ engine with retired := engine.retired.erase memTable } : LSMTreeEngine).setClient
      client state) where
  flushes := by
    rw [flushed_setClient, flushed]
    exact sound.flushes.drop had
  ids := (sound.move flushed tableId).ids
  pass := sound.pass
  files := (sound.move flushed tableId).files

/-- A client goes on with its flush. -/
lemma Sound.stay (state : Client) (had : engine.flushed client = some (memTable, table))
    (flushed : state.flushed = some (memTable, table'))
    (is : ∀ table ∈ table', table.entries = (engine.memTables memTable).list)
    (tableId : state.tableId = engine.pendingId (some client)) (header : state.header = none) :
    Sound (engine.setClient client state) where
  flushes := by
    rw [flushed_setClient, flushed]
    exact sound.flushes.stay had is
  ids := by
    rw [pendingId_setClient, tableId, update_eq_self]
    exact sound.ids
  pass := sound.pass
  files := by
    apply sound.files.client
    rw [header]
    exact nofun

/-- The header of the next table comes first. -/
lemma Sound.nextHeader_eq : engine.nextHeader = 0 := by
  rw [nextHeader, Disk.tableFile, sound.files.absent _ le_rfl]
  rfl

/-- A client draws an id for its memtable. -/
lemma Sound.drawClient (had : engine.flushed client = some (memTable, table))
    (flushed : state.flushed = some (memTable, none))
    (tableId : state.tableId = some engine.nextSstableId)
    (header : state.header = some engine.nextHeader) :
    Sound (engine.startTable.setClient client state) where
  flushes := by
    rw [flushed_setClient, flushed]
    exact sound.flushes.stay had nofun
  ids := by
    rw [pendingId_setClient, tableId]
    exact sound.ids.draw (some client)
  pass := sound.pass
  files := by
    apply (sound.files.draw _).client
    rw [header, sound.nextHeader_eq]
    exact fun _ mem => (mem_some.mp mem).symm

/-- The table of a memtable goes into the first tier. -/
lemma Sound.install {table : SSTable} (had : engine.flushed client = some (memTable, table'))
    (hadId : engine.pendingId (some client) = some table.id) (flushed : state.flushed = none)
    (tableId : state.tableId = none) :
    Sound ((engine.installFlushed memTable table).setClient client state) where
  flushes := by
    rw [flushed_setClient, flushed]
    exact sound.flushes.drop had
  ids := by
    rw [pendingId_setClient, tableId]
    have ids : TableIds ([] ++ engine.tiers.flatten) engine.nextSstableId engine.pendingId :=
      sound.ids
    have inserted := ids.insert hadId
    rw [nil_append, ← flatten_pushFront] at inserted
    exact inserted
  pass := fun compaction mem => (sound.pass compaction mem).pushFront table
  files := (sound.move flushed tableId).files

/-- A pass moves without a new id. -/
lemma Sound.movePass (runner : Option Nat) (tableId : pass.tableId = none)
    (ok : PassOk engine.tiers pass) : Sound (engine.setPass runner pass) where
  flushes := sound.flushes
  ids := by
    rw [pendingId_setPass, tableId]
    exact sound.ids.release none
  pass := by
    intro compaction mem
    cases mem
    exact ok
  files := by
    apply sound.files.pass
    rw [Pass.header_eq_none tableId]
    exact nofun

/-- A pass draws an id. -/
lemma Sound.drawPass (runner : Option Nat) (tableId : pass.tableId = some engine.nextSstableId)
    (ok : PassOk engine.tiers pass) (header : pass.header = some engine.nextHeader) :
    Sound (engine.startTable.setPass runner pass) where
  flushes := sound.flushes
  ids := by
    rw [pendingId_setPass, tableId]
    exact sound.ids.draw none
  pass := by
    intro compaction mem
    cases mem
    exact ok
  files := by
    apply (sound.files.draw _).pass
    rw [header, sound.nextHeader_eq]
    exact fun _ mem => (mem_some.mp mem).symm

/-- A pass moves with its id. -/
lemma Sound.stayPass (runner : Option Nat) (tableId : pass.tableId = engine.pendingId none)
    (ok : PassOk engine.tiers pass) (header : pass.header = none) :
    Sound (engine.setPass runner pass) where
  flushes := sound.flushes
  ids := by
    rw [pendingId_setPass, tableId, update_eq_self]
    exact sound.ids
  pass := by
    intro compaction mem
    cases mem
    exact ok
  files := by
    apply sound.files.pass
    rw [header]
    exact nofun

/-- The file of a drawn id is written. -/
lemma Sound.setTable {id : Nat} (pending : engine.pendingId owner = some id) (file : TableFile) :
    Sound { engine with disk := engine.disk.setTable id file } :=
  sound.withDisk _ (sound.files.insert (sound.ids.fresh pending).1 file)

end

/-- What was built with its header first is what is opened. -/
lemma openTable_finishTable (config : Config) (id : Nat) (entries : Entries) :
    (engine.finishTable id 0 entries).openTable config id = .build config.sizing id entries := by
  rw [openTable, finishTable, Disk.tableFile, Disk.setTable, SortedMap.lookup_insert_self]
  rfl

/-- A tier that is found has its tables, and is bottommost if nothing is below. -/
lemma Sound.chooseTier (_sound : Sound engine)
    (found : engine.findTierNeedingCompaction config = some tier) : PassOk engine.tiers
      (.snapshot tier (engine.tiers.getD tier []) (engine.isBottommost tier)) := by
  obtain ⟨inside, -, -⟩ := List.findIdx?_eq_some_iff_getElem.mp found
  constructor
  · refine ⟨[], ?_⟩
    rw [nil_append, getD_eq_getElem?_getD, getElem?_eq_getElem inside]
    rfl
  · intro bottom below mem
    exact List.isEmpty_iff.mp (all_eq_true.mp bottom below mem)

/-- How a pass ends: a client that ran it returns or throws. -/
lemma endPass_cases (runner : Option Nat) (thrown : Option String) (engine : LSMTreeEngine) :
    engine.endPass runner thrown = { engine with compaction := none } ∨
      ∃ client call answer, engine.clients client = .helping call answer ∧
        engine.endPass runner thrown =
          ({ engine with compaction := none } : LSMTreeEngine).setClient client
            (.returning call (thrown.elim answer .runtimeError)) := by
  cases runner with
  | none => exact .inl rfl
  | some client =>
    simp only [endPass]
    split
    next call answer helps => exact .inr ⟨client, call, answer, helps, rfl⟩
    · exact .inl rfl

/-- A pass ends with its tables replaced. -/
lemma Sound.endPass (flushes : Flushes engine.memTables engine.active engine.retired
      engine.flushed) (ids : TableIds engine.tiers.flatten engine.nextSstableId
      (update engine.pendingId none none))
    (files : FreshFiles engine.disk.tables engine.nextSstableId engine.clients engine.compaction)
    (runner : Option Nat) (thrown : Option String) : Sound (engine.endPass runner thrown) := by
  have ended : Sound { engine with compaction := none } := by
    constructor
    · exact flushes
    · have view : ({ engine with compaction := none } : LSMTreeEngine).pendingId =
          update engine.pendingId none none := by
        funext owner
        cases owner <;> rfl
      rw [view]
      exact ids
    · exact nofun
    · exact files.ended
  rcases endPass_cases runner thrown engine with eq | ⟨client, call, answer, -, eq⟩
  · rw [eq]
    exact ended
  · rw [eq]
    exact ended.move rfl rfl

lemma Sound.compact (sound : Sound engine)
    (stands : engine.compaction = some ⟨runner, .built tier toCompact newSst⟩) :
    TableIds (promote tier toCompact newSst engine.tiers).flatten engine.nextSstableId
      (update engine.pendingId none none) := by
  have ok := sound.pass _ stands
  obtain ⟨above, below, flat, promoted, -⟩ := flatten_promote ok.1 sound.ids.nodup newSst
  have ids := sound.ids
  rw [flat] at ids
  have kept : TableIds (above ++ below) engine.nextSstableId engine.pendingId := by
    apply ids.sublist
    rw [append_assoc]
    exact (List.sublist_append_right toCompact below).append_left above
  rw [promoted]
  cases newSst with
  | none =>
    rw [Option.toList_none, append_nil]
    exact kept.release none
  | some table =>
    rw [toList_some, append_assoc]
    exact kept.insert (pendingId_pass stands)

/-- Every step keeps the invariant. -/
lemma Sound.step (sound : Sound engine) (step : Step config engine label after) : Sound after := by
  cases step with
  | putWrite | deleteWrite =>
    exact (sound.write config _ _).move (flushed_afterWrite ..).1 (flushed_afterWrite ..).2
  | swap => exact sound.swap config _ rfl rfl
  | flushNothing stands =>
    have had := congrArg Client.flushed stands
    rw [retire_eq]
    have removed (memWals) := sound.withDisk { engine.disk with memWals } sound.files
    exact (removed _).drop had rfl rfl
  | buildStart stands => exact sound.drawClient (congrArg Client.flushed stands) rfl rfl rfl
  | @buildWrite client call answer memTable oldWal id header pages stands =>
    have pending : engine.pendingId (some client) = some id := congrArg Client.tableId stands
    exact sound.setTable pending _
  | @buildEnd client call answer memTable oldWal id header table stands opens =>
    have had := congrArg Client.flushed stands
    have pending : engine.pendingId (some client) = some id := congrArg Client.tableId stands
    have first : header = 0 := sound.files.first client header (congrArg Client.header stands)
    subst first
    rw [openTable_finishTable] at opens
    subst opens
    have written := sound.setTable pending
      ((engine.disk.tableFile id).writeHeader 0 (engine.memTables memTable).list)
    refine written.stay (.flushing call answer (.built memTable oldWal _)) had rfl ?_ ?_ rfl
    · intro other mem
      cases mem
      rfl
    · exact pending.symm
  | @walRemove client call answer memTable generation table stands =>
    have had := congrArg Client.flushed stands
    have removed := sound.withDisk { engine.disk with
      memWals := engine.disk.memWals.erase generation } sound.files
    refine removed.stay (.flushing call answer (.built memTable none table)) had rfl ?_
      (congrArg Client.tableId stands).symm rfl
    intro other mem
    cases mem
    exact sound.flushes.built had
  | @install client call answer memTable table manifest stands =>
    have next := @flushed_afterFlush (engine.installFlushed memTable table) call answer
    have installed := sound.install (congrArg Client.flushed stands)
      (congrArg Client.tableId stands) next.1 next.2
    exact installed.withDisk _ installed.files
  | installThrows stands =>
    exact sound.install (congrArg Client.flushed stands) (congrArg Client.tableId stands) rfl rfl
  | @help client =>
    have claimed : PassOk engine.tiers .claimed := trivial
    exact (sound.movePass (some client) rfl claimed).move rfl rfl
  | claim =>
    have claimed : PassOk engine.tiers .claimed := trivial
    exact sound.movePass none rfl claimed
  | nothingToDo => exact .endPass sound.flushes (sound.ids.release none) sound.files _ _
  | chooseTier stands found => exact sound.movePass _ rfl (sound.chooseTier found)
  | mergeNothing stands empty =>
    apply sound.movePass _ rfl
    obtain ⟨has, nothing⟩ := sound.pass _ stands
    refine ⟨has, _, ?_, nothing⟩
    intro key
    rw [SortedMap.lookup, empty]
    rfl
  | mergeStart stands =>
    obtain ⟨has, nothing⟩ := sound.pass _ stands
    exact sound.drawPass _ rfl ⟨has, _, rfl, nothing⟩ rfl
  | mergeWrite _ stands => exact sound.setTable (pendingId_pass stands) _
  | @mergeEnd runner toCompact merged table tier id header stands opens =>
    have pending := pendingId_pass stands
    have first : header = 0 := sound.files.passFirst _ stands header rfl
    subst first
    rw [openTable_finishTable] at opens
    subst opens
    have written := sound.setTable pending ((engine.disk.tableFile id).writeHeader 0 merged)
    obtain ⟨has, bottommost, rfl, nothing⟩ := sound.pass _ stands
    refine written.stayPass runner (pending.symm) ?_ rfl
    refine ⟨has, bottommost, ?_, nothing⟩
    intro key
    rw [toList_some, map_cons, map_nil, resolve_cons, resolve_nil, or_none]
    rfl
  | @compact runner tier toCompact newSst manifest stands =>
    have ids := sound.compact stands
    let installed := (engine.installCompacted tier toCompact newSst).setManifest manifest
    have flushes : Flushes installed.memTables installed.active installed.retired
        installed.flushed := sound.flushes
    exact .endPass flushes ids sound.files runner none
  | @compactThrows client tier toCompact newSst what stands =>
    have ids := sound.compact stands
    let installed := engine.installCompacted tier toCompact newSst
    have flushes : Flushes installed.memTables installed.active installed.retired
        installed.flushed := sound.flushes
    exact .endPass flushes ids sound.files (some client) (some what)
  | fileRemove => exact ⟨sound.flushes, sound.ids, sound.pass, sound.files.erase _⟩
  | _ =>
    exact sound.move rfl rfl

end DbEngine.Lsm
