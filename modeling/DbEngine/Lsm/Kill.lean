import DbEngine.Lsm.Reopening

/-!
# Kills

A process that works with a WAL is killed, and the next one reads.  What it finds is what the
calls before the kill have left, and possibly the one that was under way.  There are two ways
to lose something: `FlushActiveMemtable` removes the WAL before it writes the manifest, and a
table that is built over a file left by the kill has the entries of that file.
-/

namespace DbEngine.Lsm

open Lib
open Function (update_self update_of_ne)
open Wal (LogOp)
open LSMTreeEngine

variable {config : Config} {engine after : LSMTreeEngine} {label : Label} {writer client : Nat}
  {disk : Disk} {map : SortedMap KeyType Bytes}

/-! ## Reading -/

/-- Calls that only read are started, and tables are built only if no file is in the way. -/
def ReadsOnly (disk : Disk) (_ : LSMTreeEngine) : Label → Prop
  | .start _ call => ¬ call.Writes
  | .draw _ => Recorded disk
  | _ => True

/-- All clients only read, and read the map. -/
structure Reading (map : SortedMap KeyType Bytes) (engine : LSMTreeEngine) : Prop where
  calls : ∀ {client call}, (engine.clients client).call = some call → ¬ call.Writes
  follows : ∀ client, Follows client map engine

namespace Reading

lemma readers (reading : Reading map engine) (client : Nat) : (engine.clients client).Reader := by
  have reads := (reading.follows client).reads
  have calls := @reading.calls client
  cases stands : engine.clients client with
  | called call => exact calls (by rw [stands]; rfl)
  | deleting | lookedUp =>
    rw [stands] at calls
    exact calls rfl trivial
  | flushing | helping =>
    rw [stands] at calls reads
    exact calls rfl reads
  | _ => trivial

/-- A call that has been answered was answered by the map. -/
lemma answers (reading : Reading map engine)
    (stands : engine.clients client = .returning call answer) : answer = call.answer map := by
  have reads := (reading.follows client).reads
  have calls := @reading.calls client
  rw [stands] at reads calls
  cases call with
  | get key => exact reads trivial
  | scan start =>
    obtain ⟨entries, rfl, delivered⟩ := reads
    exact congrArg Answer.entries delivered.eq_entriesFrom
  | _ => exact absurd trivial (calls rfl)

/-- The map stays as it is. -/
lemma step (reading : Reading map engine) (step : Step config engine label after)
    (starts : ∀ client call, label = .start client call → ¬ call.Writes) : Reading map after := by
  constructor
  · intro client call within
    by_cases begins : ∃ starter started, label = .start starter started
    · obtain ⟨starter, started, rfl⟩ := begins
      cases step with
      | start =>
        by_cases own : client = starter
        · subst own
          simp only [setClient, update_self] at within
          cases within
          exact starts _ _ rfl
        · simp only [setClient, update_of_ne own] at within
          exact reading.calls within
    · refine reading.calls (step.call ?_ within)
      exact fun starter started is => begins ⟨starter, started, is⟩
  · intro client
    have one : OneWriter client label := by
      cases label with
      | start starter started => exact fun writes => absurd writes (starts _ _ rfl)
      | _ => trivial
    have same : label.apply client map = map := by
      cases step with
      | @finish finisher call answer stands =>
        have reads : ¬ call.Writes := reading.calls (congrArg Client.call stands)
        rw [Label.apply]
        cases call with
        | get | scan => exact ite_self _
        | _ => exact absurd trivial reads
      | _ => rfl
    rw [← same]
    exact (reading.follows client).step one step

end Reading

/-! ## Files left by the kill -/

/-- The engine without its table files, which matter only when a table is built. -/
def LSMTreeEngine.forgetFiles (engine : LSMTreeEngine) : LSMTreeEngine :=
  { engine with disk := { engine.disk with tables := .empty } }

/-- The pass is not in `Build`. -/
def Pass.Unwritten : Pass → Prop
  | .building .. => False
  | .claimed | .snapshot .. | .built .. => True

/-- No pass is in `Build`. -/
def Unbuilt (engine : LSMTreeEngine) : Prop :=
  ∀ compaction ∈ engine.compaction, compaction.pass.Unwritten

lemma forgetFiles_endPass (runner : Option Nat) (thrown : Option String) :
    (engine.endPass runner thrown).forgetFiles = engine.forgetFiles.endPass runner thrown := by
  cases runner with
  | none => rfl
  | some client =>
    have same : engine.forgetFiles.clients client = engine.clients client := rfl
    simp only [endPass, same]
    split <;> rfl

/-- Readers and passes that build nothing do not notice the files. -/
lemma Step.forgetFiles (step : Step config engine label after)
    (readers : ∀ client, (engine.clients client).Reader) (unbuilt : Unbuilt engine)
    (builds : ∀ id, label ≠ .draw id) :
    Step config engine.forgetFiles label after.forgetFiles ∧ Unbuilt after := by
  have no {client : Nat} {state : Client} (stands : engine.clients client = state)
      (writes : ¬ state.Reader) : False := writes (stands ▸ readers client)
  have ended (engine : LSMTreeEngine) (runner : Option Nat) (thrown : Option String) :
      Unbuilt (engine.endPass runner thrown) := by
    rw [endPass_only]
    exact nofun
  have passes {runner : Option Nat} {pass : Pass} (unwritten : pass.Unwritten) :
      Unbuilt (engine.setPass runner pass) := by
    intro compaction mem
    cases mem
    exact unwritten
  cases step with
  | start call stands => exact ⟨.start call stands, unbuilt⟩
  | finish stands => exact ⟨.finish stands, unbuilt⟩
  | getSnapshot stands => exact ⟨.getSnapshot stands, unbuilt⟩
  | getRead stands => exact ⟨@Step.getRead _ engine.forgetFiles _ _ _ stands, unbuilt⟩
  | scanSnapshot stands => exact ⟨.scanSnapshot stands, unbuilt⟩
  | scanOpen stands => exact ⟨@Step.scanOpen _ engine.forgetFiles _ _ _ stands, unbuilt⟩
  | scanNext stands valid =>
    exact ⟨@Step.scanNext _ engine.forgetFiles _ _ _ _ _ _ _ stands valid, unbuilt⟩
  | scanEnd stands ended => exact ⟨.scanEnd stands ended, unbuilt⟩
  | putReject stands | putWrite stands | deleteSnapshot stands | closeNothing stands
  | closeFlush stands => exact (no stands fun reader => reader trivial).elim
  | deleteRead stands | deleteWrite stands | swap stands | flushNothing stands | buildStart stands
  | buildWrite _ stands | buildEnd stands | walRemove stands | install stands
  | installThrows stands | helpNot stands | help stands => exact (no stands id).elim
  | claim free => exact ⟨@Step.claim _ engine.forgetFiles free, passes trivial⟩
  | nothingToDo stands none =>
    rw [forgetFiles_endPass]
    exact ⟨@Step.nothingToDo _ engine.forgetFiles _ stands none, ended _ _ _⟩
  | chooseTier stands found =>
    exact ⟨@Step.chooseTier _ engine.forgetFiles _ _ stands found, passes trivial⟩
  | mergeNothing stands empty =>
    exact ⟨@Step.mergeNothing _ engine.forgetFiles _ _ _ _ stands empty, passes trivial⟩
  | mergeStart => exact absurd rfl (builds _)
  | mergeWrite _ stands | mergeEnd stands => exact (unbuilt _ stands).elim
  | compact stands persists =>
    rw [forgetFiles_endPass]
    exact ⟨@Step.compact _ engine.forgetFiles _ _ _ _ _ stands persists, ended _ _ _⟩
  | compactThrows stands throws =>
    rw [forgetFiles_endPass]
    exact ⟨@Step.compactThrows _ engine.forgetFiles _ _ _ _ _ stands throws, ended _ _ _⟩
  | fileRemove marked => exact ⟨@Step.fileRemove _ engine.forgetFiles _ marked, unbuilt⟩

/-- Readers read the map, where the files left by a kill do not matter. -/
def ReadsOn (disk : Disk) (map : SortedMap KeyType Bytes) (engine : LSMTreeEngine) : Prop :=
  Recorded disk ∧ Reading map engine ∨
    ¬ Recorded disk ∧ Reading map engine.forgetFiles ∧ Unbuilt engine

namespace ReadsOn

lemma step (reads : ReadsOn disk map engine) (step : Step config engine label after)
    (only : ReadsOnly disk engine label) : ReadsOn disk map after := by
  have starts : ∀ client call, label = .start client call → ¬ call.Writes := by
    rintro client call rfl
    exact only
  rcases reads with ⟨recorded, reading⟩ | ⟨unrecorded, reading, unbuilt⟩
  · exact .inl ⟨recorded, reading.step step starts⟩
  · have builds : ∀ id, label ≠ .draw id := by
      rintro id rfl
      exact unrecorded only
    obtain ⟨step, unbuilt⟩ := step.forgetFiles reading.readers unbuilt builds
    exact .inr ⟨unrecorded, reading.step step starts, unbuilt⟩

lemma answers (reads : ReadsOn disk map engine)
    (stands : engine.clients client = .returning call answer) : answer = call.answer map := by
  rcases reads with ⟨-, reading⟩ | ⟨-, reading, -⟩
  · exact reading.answers stands
  · exact reading.answers stands

lemma finishes (reads : ReadsOn disk map engine) (client : Nat) :
    Finishes config engine client := by
  have ofReading {engine' : LSMTreeEngine} (reading : Reading map engine')
      (clients : engine'.clients = engine.clients)
      (memTables : engine'.memTables = engine.memTables)
      (active : engine'.active = engine.active) : Finishes config engine client := by
    have reads := (reading.follows client).reads
    rw [clients, memTables, active] at reads
    apply Lsm.finishes _ reads
    intro helper call answer helping
    have reader := reading.readers helper
    rw [clients, helping] at reader
    exact reader.elim
  rcases reads with ⟨-, reading⟩ | ⟨-, reading, -⟩
  · exact ofReading reading rfl rfl rfl
  · exact ofReading reading rfl rfl rfl

/-- A run of readers answers from the map. -/
lemma run (reads : ReadsOn disk map reopened)
    (run : Run config (ReadsOnly disk) reopened labels engine) :
    ReadsOn disk map engine ∧ ∀ client call answer, .finish client call answer ∈ labels →
      answer = call.answer map := by
  induction run with
  | opened => exact ⟨reads, fun _ _ _ => nofun⟩
  | step _ only step ih =>
    refine ⟨ih.1.step step only, ?_⟩
    intro client call answer mem
    rcases mem_append.mp mem with earlier | now
    · exact ih.2 client call answer earlier
    · have is := mem_singleton.mp now
      subst is
      cases step with
      | finish stands => exact ih.1.answers stands

end ReadsOn

/-! ## Reopening after a kill -/

/-- Where a constructor that has a WAL to recover can be. -/
def Database.OnWay (config : Config) (disk : Disk) : Database → Prop
  | .down found => found = disk
  | .recovering engine recovery =>
    engine = loaded config disk ∧ Recovering some disk.memWals recovery
  | .up engine => ∃ recovery, Recovering some disk.memWals recovery ∧ recovery.Done ∧
      engine = (loaded config disk).recovered recovery
  | .stopping _ | .closing _ => True

/-- With a WAL, a constructed engine has recovered it. -/
lemma Database.Reopens.recovered (reopens : Database.Reopens config disk reopened)
    (on : config.walEnabled = true) :
    ∃ recovery, Recovering some disk.memWals recovery ∧ recovery.Done ∧
      reopened = (loaded config disk).recovered recovery := by
  have all (database : Database) (path : Relation.ReflTransGen
      (fun before after => Database.Step config before .inner after) (.down disk) database) :
      database.OnWay config disk := by
    induction path with
    | refl => exact rfl
    | tail _ step ih =>
      cases step with
      | load off => rw [on] at off; cases off
      | loadWal =>
        have is : _ = disk := ih
        subst is
        exact ⟨rfl, rfl, rfl, ⟨[], rfl, fun _ => rfl⟩, rfl⟩
      | recover step => exact ⟨ih.1, ih.2.step step⟩
      | recovered done => exact ⟨_, ih.2, done, congrArg _ ih.1⟩
      | stop => trivial
  exact all _ reopens

/-- A reopened engine reads what the files have. -/
lemma Keeps.readsOn (keeps : Keeps config disk map.lookup) (on : config.walEnabled = true)
    (reopens : Database.Reopens config disk reopened) : ReadsOn disk map reopened := by
  obtain ⟨recovery, recovering, done, rfl⟩ := reopens.recovered on
  have holds : ∀ key, ((loaded config disk).recovered recovery).contents key = map.lookup key :=
    keeps.contents rfl rfl (lookup_recovered on recovering done _)
  have nodup : ((loaded config disk).tiers.flatten.map SSTable.id).Nodup := by
    rw [ids_loaded]
    exact keeps.manifest.nodup
  have below : ∀ table ∈ (loaded config disk).tiers.flatten,
      table.id < (loaded config disk).nextSstableId := by
    intro table mem
    apply keeps.manifest.below
    rw [← ids_loaded config]
    exact mem_map_of_mem mem
  have ofRest {engine : LSMTreeEngine} (rest : AtRest engine)
      (holds : ∀ key, engine.contents key = map.lookup key) : Reading map engine := by
    refine ⟨?_, fun client => .atRest rest holds⟩
    intro client call within
    rw [rest.clients] at within
    cases within
  by_cases recorded : Recorded disk
  · have rest := atRest_loaded config keeps.manifest recorded
    exact .inl ⟨recorded, ofRest ⟨rest.clients, rest.retired, rest.compaction, rest.nodup,
      rest.below, rest.absent⟩ holds⟩
  · refine .inr ⟨recorded, ofRest ?_ holds, nofun⟩
    exact ⟨fun _ => rfl, rfl, rfl, nodup, below, fun _ _ => rfl⟩

/-- What the writer's calls have left at a moment, with or without the one under way. -/
lemma Session.exists_contents (session : Session config writer map engine) :
    ∃ left, (left = map ∨ ∃ call, (engine.clients writer).call = some call ∧
      left = call.apply map) ∧ engine.contents = left.lookup := by
  have holds := session.follows.holds
  cases stands : engine.clients writer with
  | flushing call answer | helping call answer | returning call answer =>
    rw [stands] at holds
    exact ⟨call.apply map, .inr ⟨call, rfl, rfl⟩, funext holds.1⟩
  | _ =>
    rw [stands] at holds
    exact ⟨map, .inl rfl, funext holds⟩

/-- An acknowledged write survives a kill: if nothing has been thrown and the writer does not
stand between the removal of a WAL and the manifest write, the engine can be constructed again
on the files of a killed process, and everybody then reads the map of all calls that had
returned, or that map with the call that was under way.  Passes may run meanwhile, but they
must not build a table over a file that the kill has left. -/
theorem acknowledged_writes_survive_kill (on : config.walEnabled = true) {database : Database}
    {events : List Database.Event}
    (run : Database.Run config (Database.Undisturbed writer) events database)
    (running : database.engine = some engine)
    (waits : ∀ call answer memTable table,
      engine.clients writer ≠ .flushing call answer (.built memTable none table)) :
    (∃ reopened, Database.Reopens config database.disk reopened) ∧
      ∃ map, (map = mapAfter (history writer (Database.labels events)) ∨
          ∃ call, (engine.clients writer).call = some call ∧
            map = call.apply (mapAfter (history writer (Database.labels events)))) ∧
        ∀ reopened, Database.Reopens config database.disk reopened →
          ∀ labels after, Run config (ReadsOnly database.disk) reopened labels after →
            (∀ client call answer, .finish client call answer ∈ labels →
              answer = call.answer map) ∧
            ∀ client, Finishes config after client := by
  have files : database.disk = engine.disk := by
    cases database with
    | down | recovering => cases running
    | up | stopping | closing =>
      cases running
      rfl
  have session := run.holds.session running
  rcases session.exists_contents with ⟨map, which, contents⟩
  have keeps := session.keeps_logged on waits
  rw [contents] at keeps
  rw [files]
  refine ⟨Database.exists_reopens config _, map, which, ?_⟩
  intro reopened reopens labels after reads
  have answered := (keeps.readsOn on reopens).run reads
  exact ⟨answered.2, answered.1.finishes⟩

/-- A client reads a key. -/
lemma exists_get (idle : engine.clients client = .idle) (disk : Disk) (key : KeyType) :
    ∃ labels after answer, Run config (ReadsOnly disk) engine labels after ∧
      .finish client (.get key) answer ∈ labels := by
  have run : Run config (ReadsOnly disk) engine [] engine := .opened
  have run := run.next (.start (.get key) idle) id
  have run := run.next (.getSnapshot (update_self ..))
  have run := run.next (.getRead (update_self ..))
  have run := run.next (.finish (update_self ..))
  exact ⟨_, _, _, run, mem_append_right _ (mem_singleton_self _)⟩

/-- The WAL is on, and the second write is flushed. -/
def flushSecondLogged : Config :=
  { flushEach with flushThresholdBytes := 10, walEnabled := true }

/-- Killed when the table of two writes is complete, but not in the manifest, and its WAL is
still there: the first write is found again. -/
theorem acknowledged_writes_survive_kill_flushSecondLogged :
    ∃ (events : List Database.Event) (engine reopened : LSMTreeEngine) (table : SSTable)
      (answer : Answer),
      Database.Run flushSecondLogged (Database.Undisturbed 0) events (.up engine) ∧
      history 0 (Database.labels events) = [(.put 7 [1], .done)] ∧
      engine.clients 0 = .flushing (.put 8 [1]) .done (.built 0 (some 0) table) ∧
      Database.Reopens flushSecondLogged engine.disk reopened ∧
      (∃ labels after, Run flushSecondLogged (ReadsOnly engine.disk) reopened labels after ∧
        .finish 0 (.get 7) answer ∈ labels) ∧
      answer = .found (some [1]) := by
  have run : Database.Run flushSecondLogged (Database.Undisturbed 0) [] _ := .created
  have run := run.next (.loadWal rfl) ⟨nofun, nofun, nofun⟩
  have run := run.next (.recovered ⟨rfl, rfl⟩)
    ⟨nofun, nofun, fun _ is => by cases is; exact fun _ _ _ => nofun⟩
  have run := run.work (@Step.start _ _ 0 (.put 7 [1]) rfl) run.undisturbed
  have run := run.work (@Step.putWrite _ _ 0 7 [1] rfl (by decide)) run.undisturbed
  have run := run.work (@Step.finish _ _ 0 _ _ rfl) run.undisturbed
  have run := run.work (@Step.start _ _ 0 (.put 8 [1]) rfl) run.undisturbed
  have run := run.work (@Step.putWrite _ _ 0 8 [1] rfl (by decide)) run.undisturbed
  have run := run.work (@Step.swap _ _ 0 _ _ rfl) run.undisturbed
  have run := run.work (@Step.buildStart _ _ 0 _ _ _ _ rfl (by decide)) run.undisturbed
  have run := run.work (@Step.buildEnd _ _ 0 _ _ _ _ _ _ _ rfl rfl) run.undisturbed
  rcases acknowledged_writes_survive_kill rfl run rfl (fun _ _ _ _ => nofun) with
    ⟨⟨reopened, reopens⟩, map, which, reads⟩
  have found : map.lookup 7 = some [1] := by
    rcases which with rfl | ⟨call, is, rfl⟩
    · decide +kernel
    · cases is
      decide +kernel
  rcases reopens.recovered rfl with ⟨recovery, -, -, is⟩
  have idle : reopened.clients 0 = .idle := by
    rw [is]
    rfl
  rcases exists_get idle _ 7 with ⟨labels, after, answer, reading, finished⟩
  have answered := (reads reopened reopens labels after reading).1 0 (.get 7) answer finished
  refine ⟨_, _, reopened, _, answer, run, ?_, rfl, reopens, ⟨labels, after, reading, finished⟩, ?_⟩
  · decide +kernel
  · rw [answered]
    exact congrArg Answer.found found

/-- Killed when the WAL has been removed, but the manifest is not yet written: the first write
had returned, and the next process does not find it. -/
theorem kill_before_manifest_loses_write :
    ∃ (events : List Database.Event) (engine : LSMTreeEngine),
      Database.Run flushSecondLogged (fun _ _ _ => True) events (.up engine) ∧
      events.count .killed = 1 ∧
      history 0 (Database.labels events) = [(.put 7 [1], .done), (.get 7, .found none)] := by
  have run : Database.Run flushSecondLogged (fun _ _ _ => True) [] _ := .created
  have run := run.next (.loadWal rfl)
  have run := run.next (.recovered ⟨rfl, rfl⟩)
  have run := run.work (@Step.start _ _ 0 (.put 7 [1]) rfl)
  have run := run.work (@Step.putWrite _ _ 0 7 [1] rfl (by decide))
  have run := run.work (@Step.finish _ _ 0 _ _ rfl)
  have run := run.work (@Step.start _ _ 0 (.put 8 [1]) rfl)
  have run := run.work (@Step.putWrite _ _ 0 8 [1] rfl (by decide))
  have run := run.work (@Step.swap _ _ 0 _ _ rfl)
  have run := run.work (@Step.buildStart _ _ 0 _ _ _ _ rfl (by decide))
  have run := run.work (@Step.buildEnd _ _ 0 _ _ _ _ _ _ _ rfl rfl)
  have run := run.work (@Step.walRemove _ _ 0 _ _ _ _ _ rfl)
  have run := run.next (.kill _)
  have run := run.next (.loadWal rfl)
  have run := run.next (.recover (@Recovery.Step.remove _ _ _ [] [] 1 rfl rfl))
  have run := run.next (.recovered ⟨rfl, rfl⟩)
  have run := run.work (@Step.start _ _ 0 (.get 7) rfl)
  have run := run.work (@Step.getSnapshot _ _ 0 _ rfl)
  have run := run.work (@Step.getRead _ _ 0 _ _ rfl)
  have run := run.work (@Step.finish _ _ 0 _ _ rfl)
  refine ⟨_, _, run, ?_, ?_⟩
  · decide +kernel
  · decide +kernel

end DbEngine.Lsm
