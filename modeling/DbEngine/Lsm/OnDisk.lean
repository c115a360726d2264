import DbEngine.Lsm.Database
import DbEngine.Lsm.Manifest
import DbEngine.Lsm.Progress

/-!
# Table files and the manifest

While an engine runs, every table that is in a tier or waits to be put there has its file, and
no obsolete file is one of those.  As long as nothing is thrown, the manifest names the tables
of the tiers, and an id that it does not record as drawn is one of a table under way.
-/

namespace DbEngine.Lsm

open Lib Function
open Wal (LogOp)
open LSMTreeEngine

/-- The table that a client has built. -/
def Client.builtTable : Client → Option SSTable
  | .flushing _ _ (.built _ _ table) => some table
  | _ => none

/-- The table that a pass has built. -/
def Pass.builtTable : Pass → Option SSTable
  | .built _ _ newSst => newSst
  | _ => none

/-- The table that a client, or the running pass, has built and not yet put into a tier. -/
def LSMTreeEngine.builtTable (engine : LSMTreeEngine) : Option Nat → Option SSTable
  | some client => (engine.clients client).builtTable
  | none => engine.compaction.bind fun compaction => compaction.pass.builtTable

/-- Opening the file of a table again gives the table. -/
def InFile (config : Config) (tables : SortedMap Nat TableFile) (table : SSTable) : Prop :=
  ∃ file, tables.lookup table.id = some file ∧
    SSTable.build config.sizing table.id file.entries = table

/-- The tables in use are in their files, and obsolete files are not in use. -/
structure Stored (config : Config) (engine : LSMTreeEngine) : Prop where
  live : ∀ table ∈ engine.tiers.flatten, InFile config engine.disk.tables table
  built : ∀ {owner table}, engine.builtTable owner = some table →
    InFile config engine.disk.tables table
  obsolete : ∀ id ∈ engine.obsolete, id < engine.nextSstableId ∧
    (∀ table ∈ engine.tiers.flatten, table.id ≠ id) ∧ ∀ owner, engine.pendingId owner ≠ some id

variable {config : Config} {engine after : LSMTreeEngine} {label : Label} {client : Nat}
  {state : Client}

section

lemma Client.tableId_of_builtTable (built : state.builtTable = some table) :
    state.tableId = some table.id := by
  cases state with
  | flushing call answer flush =>
    cases flush with
    | built =>
      cases built
      rfl
    | _ => cases built
  | _ => cases built

lemma Pass.tableId_of_builtTable {pass : Pass} (built : pass.builtTable = some table) :
    pass.tableId = some table.id := by
  cases pass with
  | built tier toCompact newSst =>
    cases built
    rfl
  | _ => cases built

/-- A table that was built has the id that was drawn for it. -/
lemma pendingId_of_builtTable (built : engine.builtTable owner = some table) :
    engine.pendingId owner = some table.id := by
  cases owner with
  | some client => exact Client.tableId_of_builtTable built
  | none =>
    obtain ⟨compaction, runs, found⟩ := bind_eq_some_iff.mp built
    rw [pendingId, runs]
    exact Pass.tableId_of_builtTable found

lemma builtTable_setClient (engine : LSMTreeEngine) (client : Nat) (state : Client) :
    (engine.setClient client state).builtTable =
      update engine.builtTable (some client) state.builtTable := by
  funext owner
  cases owner with
  | none => rfl
  | some other =>
    by_cases same : other = client
    · subst same
      simp [LSMTreeEngine.builtTable, setClient]
    · simp [LSMTreeEngine.builtTable, setClient, same]

lemma builtTable_pass {pass : Pass} (stands : engine.compaction = some ⟨runner, pass⟩) :
    engine.builtTable none = pass.builtTable := by
  rw [LSMTreeEngine.builtTable, stands]
  rfl

lemma builtTable_setPass (engine : LSMTreeEngine) (runner : Option Nat) (pass : Pass) :
    (engine.setPass runner pass).builtTable = update engine.builtTable none pass.builtTable := by
  funext owner
  cases owner <;> rfl

end

namespace Stored

/-- Tables go from being built to a tier, and nothing else changes. -/
lemma mono (stored : Stored config engine)
    (live : ∀ table ∈ after.tiers.flatten, table ∈ engine.tiers.flatten ∨
      ∃ owner, engine.builtTable owner = some table)
    (built : ∀ {owner table}, after.builtTable owner = some table →
      engine.builtTable owner = some table)
    (pending : ∀ {owner id}, after.pendingId owner = some id → engine.pendingId owner = some id)
    (tables : after.disk.tables = engine.disk.tables) (obsolete : after.obsolete = engine.obsolete)
    (next : after.nextSstableId = engine.nextSstableId) : Stored config after := by
  constructor
  · intro table mem
    rw [tables]
    rcases live table mem with mem | ⟨owner, was⟩
    · exact stored.live table mem
    · exact stored.built was
  · intro owner table there
    rw [tables]
    exact stored.built (built there)
  · rw [obsolete, next]
    intro id mem
    obtain ⟨drawn, notLive, notPending⟩ := stored.obsolete id mem
    refine ⟨drawn, ?_, fun owner there => notPending owner (pending there)⟩
    intro table mem
    rcases live table mem with mem | ⟨owner, was⟩
    · exact notLive table mem
    · intro same
      apply notPending owner
      rw [← same]
      exact pendingId_of_builtTable was

/-- A step that leaves the tables and those who build them alone. -/
lemma same (stored : Stored config engine) (tiers : after.tiers = engine.tiers)
    (clients : after.clients = engine.clients) (compaction : after.compaction = engine.compaction)
    (tables : after.disk.tables = engine.disk.tables) (obsolete : after.obsolete = engine.obsolete)
    (next : after.nextSstableId = engine.nextSstableId) : Stored config after := by
  have built : after.builtTable = engine.builtTable := by
    funext owner
    cases owner with
    | none => rw [LSMTreeEngine.builtTable, compaction]; rfl
    | some client => rw [LSMTreeEngine.builtTable, clients]; rfl
  have pending : after.pendingId = engine.pendingId := by
    funext owner
    cases owner with
    | none => rw [pendingId, compaction]; rfl
    | some client => rw [pendingId, clients]; rfl
  refine stored.mono ?_ ?_ ?_ tables obsolete next
  · rw [tiers]
    exact fun table mem => .inl mem
  · rw [built]
    exact id
  · rw [pending]
    exact id

variable {state : Client} {pass : Pass} {id : Nat} {owner : Option Nat}

section

variable (stored : Stored config engine)
include stored

/-- A client moves, with a table in its file and an id that is not obsolete. -/
lemma setClient (client : Nat)
    (built : ∀ {table}, state.builtTable = some table → InFile config engine.disk.tables table)
    (pending : ∀ {id}, state.tableId = some id → id ∉ engine.obsolete) :
    Stored config (engine.setClient client state) := by
  constructor
  · exact stored.live
  · rw [builtTable_setClient]
    intro owner table there
    rcases of_update there with ⟨-, there⟩ | ⟨-, there⟩
    · exact built there
    · exact stored.built there
  · rw [pendingId_setClient]
    intro id mem
    obtain ⟨drawn, notLive, notPending⟩ := stored.obsolete id mem
    refine ⟨drawn, notLive, ?_⟩
    intro owner there
    rcases of_update there with ⟨-, there⟩ | ⟨-, there⟩
    · exact pending there mem
    · exact notPending owner there

/-- A pass moves, with a table in its file and an id that is not obsolete. -/
lemma setPass (runner : Option Nat)
    (built : ∀ {table}, pass.builtTable = some table → InFile config engine.disk.tables table)
    (pending : ∀ {id}, pass.tableId = some id → id ∉ engine.obsolete) :
    Stored config (engine.setPass runner pass) := by
  constructor
  · exact stored.live
  · rw [builtTable_setPass]
    intro owner table there
    rcases of_update there with ⟨-, there⟩ | ⟨-, there⟩
    · exact built there
    · exact stored.built there
  · rw [pendingId_setPass]
    intro id mem
    obtain ⟨drawn, notLive, notPending⟩ := stored.obsolete id mem
    refine ⟨drawn, notLive, ?_⟩
    intro owner there
    rcases of_update there with ⟨-, there⟩ | ⟨-, there⟩
    · exact pending there mem
    · exact notPending owner there

/-- A client that builds no table moves. -/
lemma move (client : Nat) (tableId : state.tableId = none) :
    Stored config (engine.setClient client state) := by
  apply stored.setClient
  · intro table built
    rw [Client.tableId_of_builtTable built] at tableId
    cases tableId
  · rw [tableId]
    exact nofun

/-- A pass that builds no table moves. -/
lemma movePass (runner : Option Nat) (tableId : pass.tableId = none) :
    Stored config (engine.setPass runner pass) := by
  apply stored.setPass
  · intro table built
    rw [Pass.tableId_of_builtTable built] at tableId
    cases tableId
  · rw [tableId]
    exact nofun

/-- A file is written whose table is not complete. -/
lemma write (file : TableFile) (notLive : ∀ table ∈ engine.tiers.flatten, table.id ≠ id)
    (notBuilt : ∀ {owner table}, engine.builtTable owner = some table → table.id ≠ id) :
    Stored config { engine with disk := engine.disk.setTable id file } := by
  have kept {table : SSTable} (there : InFile config engine.disk.tables table)
      (other : table.id ≠ id) :
      InFile config (engine.disk.tables.insert id file) table := by
    obtain ⟨file', found, is⟩ := there
    exact ⟨file', (SortedMap.lookup_insert_of_ne other).trans found, is⟩
  constructor
  · exact fun table mem => kept (stored.live table mem) (notLive table mem)
  · exact fun there => kept (stored.built there) (notBuilt there)
  · exact stored.obsolete

/-- The file of a table under way is written. -/
lemma writePending (sound : Sound engine) (pending : engine.pendingId owner = some id)
    (building : engine.builtTable owner = none) (file : TableFile) :
    Stored config { engine with disk := engine.disk.setTable id file } := by
  refine stored.write file (sound.ids.fresh pending).2 ?_
  intro other table built same
  have drawn := pendingId_of_builtTable built
  rw [same] at drawn
  have owns := sound.ids.once drawn pending
  rw [owns, building] at built
  cases built

/-- An id is drawn. -/
lemma draw (sound : Sound engine) : Stored config engine.startTable := by
  have written := stored.write (engine.disk.tableFile engine.nextSstableId)
    (fun table mem => ne_of_lt (sound.ids.below table mem))
    (fun built => ne_of_lt (sound.ids.fresh (pendingId_of_builtTable built)).1)
  constructor
  · exact written.live
  · exact written.built
  · intro id mem
    obtain ⟨drawn, notLive, notPending⟩ := written.obsolete id mem
    exact ⟨Nat.lt_succ_of_lt drawn, notLive, notPending⟩

lemma next_notMem_obsolete : engine.nextSstableId ∉ engine.obsolete :=
  fun mem => lt_irrefl _ (stored.obsolete _ mem).1

lemma pending_notMem_obsolete (pending : engine.pendingId owner = some id) : id ∉ engine.obsolete :=
  fun mem => (stored.obsolete id mem).2.2 owner pending

/-- A pass ends. -/
lemma endPass (runner : Option Nat) (thrown : Option String) :
    Stored config (engine.endPass runner thrown) := by
  have ended : Stored config { engine with compaction := none } := by
    refine stored.mono (fun table mem => .inl mem) ?_ ?_ rfl rfl rfl
    · intro owner table there
      cases owner with
      | none => cases there
      | some client => exact there
    · intro owner id there
      cases owner with
      | none => cases there
      | some client => exact there
  rcases endPass_cases runner thrown engine with eq | ⟨client, call, answer, -, eq⟩
  · rw [eq]
    exact ended
  · rw [eq]
    exact ended.move client rfl

/-- The compacted tables become obsolete. -/
lemma compact (sound : Sound engine)
    (stands : engine.compaction = some ⟨runner, .built tier toCompact newSst⟩) :
    Stored config (engine.installCompacted tier toCompact newSst) := by
  have has := (sound.pass _ stands).1
  obtain ⟨above, below, flat, promoted, -⟩ := flatten_promote has sound.ids.nodup newSst
  have builtTable := builtTable_pass stands
  have live (table : SSTable)
      (mem : table ∈ (engine.installCompacted tier toCompact newSst).tiers.flatten) :
      table ∈ above ++ below ∨ engine.builtTable none = some table := by
    have mem : table ∈ (promote tier toCompact newSst engine.tiers).flatten := mem
    rw [promoted, mem_append, mem_append, Option.mem_toList] at mem
    rw [mem_append, builtTable]
    rcases mem with (mem | is) | mem
    · exact .inl (.inl mem)
    · exact .inr is
    · exact .inl (.inr mem)
  have kept {table : SSTable} (mem : table ∈ above ++ below) : table ∈ engine.tiers.flatten := by
    rw [flat]
    rcases mem_append.mp mem with mem | mem
    · exact mem_append_left _ (mem_append_left _ mem)
    · exact mem_append_right _ mem
  -- A compacted table has another id than those that stay.
  have compacted {table other : SSTable} (mem : table ∈ above ++ below)
      (gone : other ∈ toCompact) : table.id ≠ other.id := by
    have nodup := sound.ids.nodup
    rw [flat, map_append, map_append, nodup_append, nodup_append] at nodup
    rcases mem_append.mp mem with mem | mem
    · exact nodup.1.2.2 _ (mem_map_of_mem mem) _ (mem_map_of_mem gone)
    · intro same
      exact nodup.2.2 _ (mem_append_right _ (mem_map_of_mem gone)) _ (mem_map_of_mem mem) same.symm
  constructor
  · intro table mem
    rcases live table mem with mem | built
    · exact stored.live table (kept mem)
    · exact stored.built built
  · exact stored.built
  · intro id mem
    rcases mem_append.mp mem with mem | mem
    · obtain ⟨drawn, notLive, notPending⟩ := stored.obsolete id mem
      refine ⟨drawn, ?_, notPending⟩
      intro table mem
      rcases live table mem with mem | built
      · exact notLive table (kept mem)
      · intro same
        apply notPending none
        rw [← same]
        exact pendingId_of_builtTable built
    · obtain ⟨other, gone, rfl⟩ := mem_map.mp mem
      have wasLive : other ∈ engine.tiers.flatten := by
        rw [flat]
        exact mem_append_left _ (mem_append_right _ gone)
      refine ⟨sound.ids.below other wasLive, ?_, ?_⟩
      · intro table mem
        rcases live table mem with mem | built
        · exact compacted mem gone
        · intro same
          exact (sound.ids.fresh (pendingId_of_builtTable built)).2 other wasLive same.symm
      · intro owner pending
        exact (sound.ids.fresh pending).2 other wasLive rfl

/-- A table that was built goes into the first tier. -/
lemma install (built : engine.builtTable owner = some table) (memTable : Nat) :
    Stored config (engine.installFlushed memTable table) := by
  refine stored.mono ?_ id id rfl rfl rfl
  intro other mem
  have mem : other ∈ (pushFront table engine.tiers).flatten := mem
  rw [flatten_pushFront] at mem
  rcases mem_cons.mp mem with rfl | mem
  · exact .inr ⟨owner, built⟩
  · exact .inl mem

end

lemma inFile_finishTable (engine : LSMTreeEngine) (config : Config) (id header : Nat)
    (entries : Entries) : InFile config (engine.finishTable id header entries).disk.tables
      ((engine.finishTable id header entries).openTable config id) := by
  refine ⟨_, SortedMap.lookup_insert_self .., ?_⟩
  rw [openTable, Disk.tableFile, finishTable, Disk.setTable, SortedMap.lookup_insert_self]
  rfl

/-- The file of an obsolete table is removed. -/
lemma remove (stored : Stored config engine) (marked : id ∈ engine.obsolete) :
    Stored config (engine.removeFile id) := by
  obtain ⟨-, notLive, notPending⟩ := stored.obsolete id marked
  have kept {table : SSTable} (inFile : InFile config engine.disk.tables table)
      (other : table.id ≠ id) : InFile config (engine.removeFile id).disk.tables table := by
    obtain ⟨file, found, opens⟩ := inFile
    exact ⟨file, (SortedMap.lookup_erase_of_ne other).trans found, opens⟩
  constructor
  · exact fun table mem => kept (stored.live table mem) (notLive table mem)
  · intro owner table built
    refine kept (stored.built built) ?_
    rintro rfl
    exact notPending owner (pendingId_of_builtTable built)
  · exact fun other mem => stored.obsolete other (List.mem_of_mem_erase mem)

/-- Every step keeps the tables in their files. -/
lemma step (stored : Stored config engine) (sound : Sound engine)
    (step : Step config engine label after) : Stored config after := by
  cases step with
  | putWrite | deleteWrite =>
    apply move _ _ (flushed_afterWrite ..).2
    exact stored.same rfl rfl rfl (tables_write ..) rfl rfl
  | swap =>
    rw [swapMemTable_eq]
    apply move _ _ rfl
    exact stored.same rfl rfl rfl rfl rfl rfl
  | flushNothing =>
    rw [retire_eq]
    apply move _ _ rfl
    exact stored.same rfl rfl rfl rfl rfl rfl
  | buildStart =>
    apply (stored.draw sound).setClient
    · exact nofun
    · intro id drawn
      cases drawn
      exact stored.next_notMem_obsolete
  | @buildWrite client _ _ _ _ id _ pages stands =>
    have pending : engine.pendingId (some client) = some id := congrArg Client.tableId stands
    exact stored.writePending sound pending (congrArg Client.builtTable stands) _
  | @buildEnd client _ _ memTable _ id header table stands opens =>
    have pending : engine.pendingId (some client) = some id := congrArg Client.tableId stands
    have written := stored.writePending sound pending (congrArg Client.builtTable stands)
      ((engine.disk.tableFile id).writeHeader header (engine.memTables memTable).list)
    apply written.setClient
    · intro built is
      cases is
      rw [← opens]
      exact inFile_finishTable ..
    · intro own is
      cases is
      rw [← opens]
      exact stored.pending_notMem_obsolete pending
  | @walRemove client _ _ _ generation table stands =>
    have built : engine.builtTable (some client) = some table := congrArg Client.builtTable stands
    have removed : Stored config (engine.removeWal (some generation)) :=
      stored.same rfl rfl rfl rfl rfl rfl
    apply removed.setClient
    · intro own is
      cases is
      exact stored.built built
    · intro own is
      cases is
      exact stored.pending_notMem_obsolete (pendingId_of_builtTable built)
  | @install client _ _ memTable table manifest stands =>
    have built : engine.builtTable (some client) = some table := congrArg Client.builtTable stands
    apply move _ _ (flushed_afterFlush ..).2
    exact (stored.install built memTable).same rfl rfl rfl rfl rfl rfl
  | @installThrows client _ _ memTable table what stands =>
    have built : engine.builtTable (some client) = some table := congrArg Client.builtTable stands
    exact (stored.install built memTable).move _ rfl
  | help => exact (stored.movePass _ rfl).move _ rfl
  | claim | chooseTier | mergeNothing => exact stored.movePass _ rfl
  | nothingToDo => exact stored.endPass _ _
  | mergeStart =>
    apply (stored.draw sound).setPass
    · exact nofun
    · intro id drawn
      cases drawn
      exact stored.next_notMem_obsolete
  | mergeWrite _ stands =>
    exact stored.writePending sound (pendingId_pass stands) (builtTable_pass stands) _
  | @mergeEnd runner toCompact merged table tier id header stands opens =>
    have pending := pendingId_pass stands
    have written := stored.writePending sound pending (builtTable_pass stands)
      ((engine.disk.tableFile id).writeHeader header merged)
    apply written.setPass
    · intro built is
      cases is
      rw [← opens]
      exact inFile_finishTable ..
    · intro own is
      cases is
      rw [← opens]
      exact stored.pending_notMem_obsolete pending
  | compact stands =>
    apply endPass
    exact (stored.compact sound stands).same rfl rfl rfl rfl rfl rfl
  | compactThrows stands => exact (stored.compact sound stands).endPass _ _
  | fileRemove marked => exact stored.remove marked
  | _ =>
    exact stored.move _ rfl

end Stored

/-! ## Exceptions -/

/-- No client is about to throw. -/
def NoneThrown (engine : LSMTreeEngine) : Prop :=
  ∀ client call what, engine.clients client ≠ .returning call (.runtimeError what)

/-- A client that runs a pass is in it. -/
def Runs (engine : LSMTreeEngine) : Prop :=
  ∀ client pass, engine.compaction = some ⟨some client, pass⟩ →
    ∃ call answer, engine.clients client = .helping call answer

namespace Runs

/-- A client that is in no pass moves. -/
lemma move (runs : Runs engine) (stands : engine.clients client = state)
    (works : ∀ call answer, state ≠ .helping call answer) (state' : Client) :
    Runs (engine.setClient client state') := by
  intro runner pass running
  obtain ⟨call, answer, helps⟩ := runs runner pass running
  have other : runner ≠ client := by
    rintro rfl
    exact works call answer (stands.symm.trans helps)
  exact ⟨call, answer, (update_of_ne other ..).trans helps⟩

lemma same (runs : Runs engine) (clients : after.clients = engine.clients)
    (compaction : after.compaction = engine.compaction) : Runs after := by
  rw [Runs, clients, compaction]
  exact runs

lemma pass (runs : Runs engine) (stands : engine.compaction = some ⟨runner, before⟩)
    (pass : Pass) : Runs (engine.setPass runner pass) := by
  intro client pass' running
  cases running
  exact runs client before stands

lemma ended (ended : engine.compaction = none) : Runs engine := by
  intro client pass running
  rw [ended] at running
  cases running

lemma step (runs : Runs engine) (step : Step config engine label after) : Runs after := by
  have endPass (engine : LSMTreeEngine) (runner : Option Nat) (thrown : Option String) :
      Runs (engine.endPass runner thrown) := by
    rw [endPass_only]
    exact ended rfl
  cases step with
  | start _ stands | finish stands | getSnapshot stands | getRead stands | scanSnapshot stands
  | scanOpen stands | scanNext stands | scanEnd stands | putReject stands | deleteSnapshot stands
  | deleteRead stands | closeNothing stands | closeFlush stands | helpNot stands =>
    exact runs.move stands (fun _ _ => nofun) _
  | putWrite stands | deleteWrite stands | buildStart stands | buildEnd stands | walRemove stands
  | install stands | installThrows stands =>
    apply move (runs.same rfl rfl)
    · exact stands
    · exact fun _ _ => nofun
  | swap stands =>
    rw [swapMemTable_eq]
    apply move (runs.same rfl rfl)
    · exact stands
    · exact fun _ _ => nofun
  | flushNothing stands =>
    rw [retire_eq]
    apply move (runs.same rfl rfl)
    · exact stands
    · exact fun _ _ => nofun
  | help =>
    intro runner pass running
    cases running
    exact ⟨_, _, update_self ..⟩
  | claim => exact fun client pass => nofun
  | chooseTier stands | mergeNothing stands | mergeStart stands | mergeEnd stands =>
    apply pass (runs.same rfl rfl)
    exact stands
  | buildWrite | mergeWrite | fileRemove => exact runs.same rfl rfl
  | _ => exact endPass _ _ _

end Runs

/-! ## The manifest -/

/-- The manifest names the tables of the tiers, and an id that it does not record as drawn is
the one of a table under way. -/
structure Persisted (engine : LSMTreeEngine) : Prop where
  fits : engine.disk.manifest.Fits
  tiers : engine.disk.manifest.tiers.rdropWhile List.isEmpty =
    (engine.tiers.map (List.map SSTable.id)).rdropWhile List.isEmpty
  next : engine.disk.manifest.nextSstableId ≤ engine.nextSstableId
  drawn : ∀ id, engine.disk.manifest.nextSstableId ≤ id → id < engine.nextSstableId →
    ∃ owner, engine.pendingId owner = some id

namespace Persisted

/-- A step that leaves the tiers and the tables under way. -/
lemma keep (persisted : Persisted engine)
    (manifest : after.disk.manifest = engine.disk.manifest) (tiers : after.tiers = engine.tiers)
    (next : after.nextSstableId = engine.nextSstableId)
    (pending : ∀ {owner id}, engine.pendingId owner = some id →
      after.pendingId owner = some id) : Persisted after := by
  constructor
  · rw [manifest]
    exact persisted.fits
  · rw [manifest, tiers]
    exact persisted.tiers
  · rw [manifest, next]
    exact persisted.next
  · rw [manifest, next]
    intro id unrecorded below
    obtain ⟨owner, is⟩ := persisted.drawn id unrecorded below
    exact ⟨owner, pending is⟩

/-- The manifest has just been written. -/
lemma written (persists : engine.persistManifest = .ok manifest)
    (writes : after.disk.manifest = manifest) (tiers : after.tiers = engine.tiers)
    (next : after.nextSstableId = engine.nextSstableId) : Persisted after := by
  have is := persistManifest_eq persists
  constructor
  · rw [writes]
    exact fits_of_persistManifest persists
  · rw [writes, is, tiers]
  · rw [writes, is, next]
  · rw [writes, is, next]
    exact fun id unrecorded below => absurd below (not_lt.mpr unrecorded)

section

variable (persisted : Persisted engine)
include persisted

/-- A client moves with the id it has drawn. -/
lemma move (stands : engine.clients client = before) (tableId : before.tableId = state.tableId) :
    Persisted (engine.setClient client state) := by
  have had : engine.pendingId (some client) = state.tableId :=
    (congrArg Client.tableId stands).trans tableId
  refine persisted.keep rfl rfl rfl ?_
  intro owner id is
  rwa [pendingId_setClient, ← had, update_eq_self]

/-- The pass moves with the id it has drawn. -/
lemma movePass {pass : Pass} (tableId : engine.pendingId none = pass.tableId) :
    Persisted (engine.setPass runner pass) := by
  refine persisted.keep rfl rfl rfl ?_
  intro owner id is
  rwa [pendingId_setPass, ← tableId, update_eq_self]

/-- An id is drawn by someone who had none. -/
lemma draw (had : engine.pendingId owner = none)
    (manifest : after.disk.manifest = engine.disk.manifest) (tiers : after.tiers = engine.tiers)
    (next : after.nextSstableId = engine.nextSstableId + 1)
    (pending : after.pendingId = update engine.pendingId owner (some
      engine.nextSstableId)) : Persisted after := by
  constructor
  · rw [manifest]
    exact persisted.fits
  · rw [manifest, tiers]
    exact persisted.tiers
  · rw [manifest, next]
    exact Nat.le_succ_of_le persisted.next
  · rw [manifest, next, pending]
    intro id unrecorded below
    rcases Nat.lt_succ_iff_lt_or_eq.mp below with below | rfl
    · obtain ⟨other, is⟩ := persisted.drawn id unrecorded below
      have ne : other ≠ owner := by
        rintro rfl
        rw [had] at is
        cases is
      exact ⟨other, (update_of_ne ne ..).trans is⟩
    · exact ⟨owner, update_self ..⟩

/-- A pass that has drawn no id ends. -/
lemma endPass (had : engine.pendingId none = none) (runner : Option Nat)
    (thrown : Option String) : Persisted (engine.endPass runner thrown) := by
  have ended : Persisted { engine with compaction := none } := by
    refine persisted.keep rfl rfl rfl ?_
    intro owner id is
    cases owner with
    | none =>
      rw [had] at is
      cases is
    | some client => exact is
  rcases endPass_cases runner thrown engine with eq | ⟨client, call, answer, helps, eq⟩
  · rw [eq]
    exact ended
  · rw [eq]
    exact ended.move helps rfl

/-- As long as nothing is thrown, every step keeps the manifest up to date. -/
lemma step (runs : Runs engine) (step : Step config engine label after)
    (noneThrown : NoneThrown after) : Persisted after := by
  cases step with
  | start _ stands | finish stands | getSnapshot stands | getRead stands | scanSnapshot stands
  | scanOpen stands | scanNext stands | scanEnd stands | putReject stands | deleteSnapshot stands
  | deleteRead stands | closeNothing stands | closeFlush stands | helpNot stands =>
    exact persisted.move stands rfl
  | putWrite stands | deleteWrite stands =>
    have wrote (key : KeyType) (op : LogOp) :
        (engine.write config key op).disk.manifest = engine.disk.manifest := by
      rw [write]
      split <;> rfl
    refine move ?_ stands (flushed_afterWrite ..).2.symm
    exact persisted.keep (wrote ..) rfl rfl id
  | swap stands =>
    rw [swapMemTable_eq]
    refine move ?_ stands rfl
    exact persisted.keep rfl rfl rfl id
  | flushNothing stands =>
    rw [retire_eq]
    refine move ?_ stands rfl
    exact persisted.keep rfl rfl rfl id
  | @buildStart client _ _ _ _ stands =>
    have had : engine.pendingId (some client) = none := congrArg Client.tableId stands
    refine persisted.draw had rfl rfl rfl ?_
    rw [pendingId_setClient]
    rfl
  | buildWrite | mergeWrite | fileRemove => exact persisted.keep rfl rfl rfl id
  | buildEnd stands opens =>
    have tableId := congrArg SSTable.id opens
    refine move ?_ stands (congrArg some tableId)
    exact persisted.keep rfl rfl rfl id
  | walRemove stands =>
    refine move ?_ stands rfl
    exact persisted.keep rfl rfl rfl id
  | install stands persists => exact written persists rfl rfl rfl
  | installThrows => exact absurd (update_self ..) (noneThrown _ _ _)
  | help stands free =>
    have had : engine.pendingId none = none := by
      rw [pendingId, free]
      rfl
    refine move ?_ stands rfl
    exact persisted.movePass had
  | claim free =>
    apply persisted.movePass
    rw [pendingId, free]
    rfl
  | nothingToDo stands => exact persisted.endPass (pendingId_pass stands) _ _
  | chooseTier stands | mergeNothing stands =>
    have had := pendingId_pass stands
    exact persisted.movePass had
  | mergeStart stands =>
    refine persisted.draw (pendingId_pass stands) rfl rfl rfl ?_
    rw [pendingId_setPass]
    rfl
  | mergeEnd stands opens =>
    have tableId := congrArg SSTable.id opens
    apply movePass
    · exact persisted.keep rfl rfl rfl id
    · exact (pendingId_pass stands).trans (congrArg some tableId)
  | @compact runner _ _ _ _ stands persists =>
    rw [endPass_only]
    exact written persists rfl rfl rfl
  | @compactThrows client tier toCompact newSst what stands =>
    obtain ⟨call, answer, helps⟩ := runs client _ stands
    have helps : (engine.installCompacted tier toCompact newSst).clients client =
        .helping call answer := helps
    exact absurd (clients_endPass helps (some what)) (noneThrown client call what)

/-- Between calls and passes all ids that were drawn are recorded. -/
lemma next_eq (idle : ∀ owner, engine.pendingId owner = none) :
    engine.disk.manifest.nextSstableId = engine.nextSstableId := by
  apply le_antisymm persisted.next
  by_contra unrecorded
  obtain ⟨owner, is⟩ := persisted.drawn _ le_rfl (not_le.mp unrecorded)
  rw [idle owner] at is
  cases is

end

end Persisted

/-- Opening the files of an engine gives its tables, without empty tiers at the end. -/
lemma tiers_loaded (persisted : Persisted engine) (stored : Stored config engine) :
    (loaded config engine.disk).tiers = engine.tiers.rdropWhile List.isEmpty := by
  have named : (engine.tiers.map (List.map SSTable.id)).rdropWhile List.isEmpty =
      (engine.tiers.rdropWhile List.isEmpty).map (List.map SSTable.id) := by
    rw [rdropWhile_map]
    congr 2
    funext tier
    cases tier <;> rfl
  have opens : ∀ tier ∈ engine.tiers.rdropWhile List.isEmpty,
      (tier.map SSTable.id).map (fun id =>
        SSTable.build config.sizing id (engine.disk.tableFile id).entries) = tier := by
    intro tier inTiers
    rw [map_map]
    refine (map_congr_left fun table mem => ?_).trans (map_id _)
    have live : table ∈ engine.tiers.flatten := by
      rw [← flatten_rdropWhile]
      exact List.mem_flatten_of_mem inTiers mem
    obtain ⟨file, found, opens⟩ := stored.live table live
    rw [comp_apply, Disk.tableFile, found]
    exact opens
  rw [loaded, persisted.tiers, named, map_map]
  exact (map_congr_left opens).trans (map_id _)

end DbEngine.Lsm
