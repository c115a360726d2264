import DbEngine.Lsm.Session

/-!
# Closing and reopening

An engine is destroyed and constructed again at any points where no call is under way, and
compaction passes fall anywhere.  The destructor leaves nothing in the memtable, so the next
engine goes on with the same map.
-/

namespace DbEngine.Lsm

open Lib
open Function (update update_self update_of_ne)
open Wal (LogOp)
open LSMTreeEngine

variable {config : Config} {engine after : LSMTreeEngine} {label : Label} {writer client : Nat}
  {state : Client} {disk : Disk} {map : SortedMap KeyType Bytes}

/-! ## The destructor -/

/-- The call that a client is in. -/
def Client.call : Client → Option Call
  | .idle => none
  | .called call | .flushing call _ _ | .helping call _ | .returning call _ => some call
  | .getting key _ => some (.get key)
  | .deleting key _ | .lookedUp key _ => some (.delete key)
  | .opening start _ | .scanning start _ _ _ => some (.scan start)

/-- A client stays in its call until it returns. -/
lemma Step.call (step : Step config engine label after)
    (noStart : ∀ client call, label ≠ .start client call) {call : Call}
    (within : (after.clients client).call = some call) :
    (engine.clients client).call = some call := by
  have moved {mover : Nat} {before state : Client}
      (within : (update engine.clients mover state client).call = some call)
      (stands : engine.clients mover = before) (same : state.call = before.call ∨ state.call = none) :
      (engine.clients client).call = some call := by
    by_cases own : client = mover
    · subst own
      rw [update_self] at within
      rw [stands]
      rcases same with same | returned
      · exact same.symm.trans within
      · rw [returned] at within
        cases within
    · rwa [update_of_ne own] at within
  have ended {engine' : LSMTreeEngine} {runner : Option Nat} {thrown : Option String}
      (within : ((engine'.endPass runner thrown).clients client).call = some call)
      (clients : engine'.clients = engine.clients) :
      (engine.clients client).call = some call := by
    rcases endPass_cases runner thrown engine' with eq | ⟨helper, _, _, helps, eq⟩
    · rw [eq] at within
      rwa [← clients]
    · rw [eq] at within
      simp only [setClient, clients] at within helps
      exact moved within helps (.inl rfl)
  cases step with
  | start => exact absurd rfl (noStart _ _)
  | finish stands => exact moved within stands (.inr rfl)
  | getSnapshot stands | getRead stands | scanSnapshot stands | scanOpen stands | scanNext stands
  | scanEnd stands | putReject stands | deleteSnapshot stands | deleteRead stands
  | closeNothing stands | closeFlush stands | buildStart stands | buildEnd stands
  | walRemove stands | installThrows stands | helpNot stands | help stands =>
    exact moved within stands (.inl rfl)
  | putWrite stands | deleteWrite stands =>
    refine moved within stands (.inl ?_)
    rw [afterWrite]
    split <;> rfl
  | install stands =>
    refine moved within stands (.inl ?_)
    rw [afterFlush]
    split <;> rfl
  | swap stands =>
    rw [swapMemTable_eq] at within
    exact moved within stands (.inl rfl)
  | flushNothing stands =>
    rw [retire_eq] at within
    exact moved within stands (.inl rfl)
  | nothingToDo | compact | compactThrows => exact ended within rfl
  | _ => exact within

lemma Client.call_eq_none : state.call = none ↔ state = .idle := by
  cases state <;> simp [Client.call]

/-- Clients stay idle while no call starts. -/
lemma Step.idle (step : Step config engine label after)
    (noStart : ∀ client call, label ≠ .start client call)
    (idle : ∀ client, engine.clients client = .idle) (client : Nat) :
    after.clients client = .idle := by
  apply Client.call_eq_none.mp
  cases within : (after.clients client).call with
  | none => rfl
  | some call =>
    have was := step.call noStart within
    rw [idle] at was
    cases was

/-- A client that will still replace the memtable, if that has anything. -/
def Client.Drains : Client → Prop
  | .called _ | .flushing _ _ .due => True
  | _ => False

/-- All calls are of the destructor, and nothing is left in the memtable once its flush has
begun. -/
structure Closing (writer : Nat) (engine : LSMTreeEngine) : Prop where
  calls : ∀ {client call}, (engine.clients client).call = some call → call = .close
  drained : (engine.clients writer).Drains ∨ (engine.memTables engine.active).list = .empty

lemma Closing.step (closing : Closing writer engine) (step : Step config engine label after)
    (noStart : ∀ client call, label ≠ .start client call) : Closing writer after := by
  refine ⟨fun within => closing.calls (step.call noStart within), ?_⟩
  have moved {mover : Nat} {before state : Client} (stands : engine.clients mover = before)
      (past : ¬ before.Drains) : (update engine.clients mover state writer).Drains ∨
        (engine.memTables engine.active).list = .empty := by
    by_cases own : writer = mover
    · subst own
      exact .inr (closing.drained.resolve_left (stands ▸ past))
    · rw [update_of_ne own]
      exact closing.drained
  have ended (engine' : LSMTreeEngine) (clients : engine'.clients = engine.clients)
      (memTable : (engine'.memTables engine'.active).list =
        (engine.memTables engine.active).list) (runner : Option Nat) (thrown : Option String) :
      ((engine'.endPass runner thrown).clients writer).Drains ∨
        ((engine'.endPass runner thrown).memTables
          (engine'.endPass runner thrown).active).list = .empty := by
    rcases endPass_cases runner thrown engine' with eq | ⟨helper, _, _, helps, eq⟩
    · rw [eq]
      simp only [clients, memTable]
      exact closing.drained
    · rw [eq]
      simp only [setClient, clients, memTable] at helps ⊢
      exact moved helps id
  -- Only the destructor's calls are under way.
  have no {mover : Nat} {state : Client} {call : Call} (stands : engine.clients mover = state)
      (within : state.call = some call) (other : call ≠ .close) : False :=
    other (closing.calls ((congrArg Client.call stands).trans within))
  cases step with
  | start => exact absurd rfl (noStart _ _)
  | getSnapshot stands | scanSnapshot stands | putReject stands | putWrite stands
  | deleteSnapshot stands | deleteWrite stands => exact (no stands rfl (by rintro ⟨⟩)).elim
  | finish stands | getRead stands | scanOpen stands | scanNext stands | scanEnd stands
  | deleteRead stands | buildStart stands | buildEnd stands | walRemove stands | install stands
  | installThrows stands | helpNot stands | help stands => exact moved stands id
  | closeNothing _ empty => exact .inr (SortedMap.ext (length_eq_zero_iff.mp empty))
  | @closeFlush mover =>
    by_cases own : writer = mover
    · subst own
      left
      simp only [setClient, update_self]
      trivial
    · simp only [setClient, update_of_ne own]
      exact closing.drained
  | swap =>
    right
    rw [swapMemTable_eq]
    simp only [setClient, update_self]
  | flushNothing stands =>
    rw [retire_eq]
    exact moved stands id
  | nothingToDo | compact | compactThrows =>
    apply ended
    · rfl
    · rfl
  | _ => exact closing.drained

/-! ## Runs of a database -/

namespace Database

/-- The process is not killed, only one client writes, and nothing is thrown. -/
structure Undisturbed (writer : Nat) (database : Database) (event : Event) (after : Database) :
    Prop where
  alive : event ≠ .killed
  one : ∀ label, event = .engine label → OneWriter writer label
  noneThrown : ∀ engine, after.engine = some engine → NoneThrown engine

/-- The step of the engine that is seen. -/
def Event.seen : Event → Option Label
  | .engine label => some label
  | .closed | .killed | .inner => none

/-- All that is seen of the engines, one after the other. -/
def labels (events : List Event) : List Label := events.filterMap Event.seen

/-- The map after an event. -/
def Event.apply (writer : Nat) (map : SortedMap KeyType Bytes) (event : Event) :
    SortedMap KeyType Bytes :=
  (event.seen.map (Label.apply writer map)).getD map

/-- The database has the map. -/
def Holds (config : Config) (writer : Nat) (map : SortedMap KeyType Bytes) : Database → Prop
  | .down disk => Keeps config disk map.lookup ∧ Recorded disk
  | .recovering engine recovery => config.walEnabled = true ∧ ∃ disk,
      Keeps config disk map.lookup ∧ Recorded disk ∧ engine = loaded config disk ∧
        Recovering some disk.memWals recovery
  | .up engine => Session config writer map engine
  | .stopping engine => Session config writer map engine ∧ ∀ client, engine.clients client = .idle
  | .closing engine => Session config writer map engine ∧ Closing writer engine

variable {database next : Database} {event : Event} {events : List Event}

lemma Holds.step (holds : database.Holds config writer map)
    (may : Undisturbed writer database event next) (step : Step config database event next) :
    next.Holds config writer (event.apply writer map) := by
  cases step with
  | load off => exact holds.1.session holds.2 off
  | loadWal on => exact ⟨on, _, holds.1, holds.2, rfl, ⟨rfl, rfl, ⟨[], rfl, fun _ => rfl⟩, rfl⟩⟩
  | recover step =>
    obtain ⟨on, disk, keeps, recorded, rfl, recovering⟩ := holds
    exact ⟨on, disk, keeps, recorded, rfl, recovering.step step⟩
  | recovered done =>
    obtain ⟨on, disk, keeps, recorded, rfl, recovering⟩ := holds
    exact keeps.session_recovered recorded on recovering done
  | work step =>
    have holds : Session config writer map _ := holds
    exact holds.step (may.one _ rfl) step (may.noneThrown _ rfl)
  | stop idle => exact ⟨holds, idle⟩
  | join step stopped =>
    exact ⟨holds.1.step (may.one _ rfl) step (may.noneThrown _ rfl), step.idle stopped holds.2⟩
  | @joined client engine idle =>
    have own : client = writer := may.one _ rfl trivial
    subst own
    refine ⟨holds.1.step (may.one _ rfl) (.start .close idle) (may.noneThrown _ rfl), ?_, ?_⟩
    · intro other call within
      by_cases same : other = client
      · subst same
        simp only [setClient, update_self] at within
        cases within
        rfl
      · simp only [setClient, update_of_ne same, holds.2] at within
        cases within
    · left
      simp only [setClient, update_self]
      trivial
  | finish step _ stopped =>
    exact ⟨holds.1.step (may.one _ rfl) step (may.noneThrown _ rfl), holds.2.step step stopped⟩
  | @close engine idle ended =>
    have flushed := holds.2.drained.resolve_left (by rw [idle]; exact id)
    have keeps := holds.1.keeps_flushed (idle writer) flushed
    have contents := holds.1.follows.holds
    rw [idle] at contents
    rw [funext contents] at keeps
    exact ⟨keeps, (holds.1.recorded idle ended).2⟩
  | kill => exact absurd rfl may.alive

lemma mapAfter_labels (writer : Nat) (events : List Event) (event : Event) :
    mapAfter (history writer (labels (events ++ [event]))) =
      event.apply writer (mapAfter (history writer (labels events))) := by
  rw [labels, filterMap_append, Event.apply, labels]
  cases seen : event.seen with
  | none => simp [seen]
  | some label =>
    rw [List.filterMap_cons_some seen, List.filterMap_nil, history_append, mapAfter_returned]
    rfl

lemma keeps_created (config : Config) : Keeps config {} (SortedMap.empty.lookup ·) := by
  refine ⟨⟨nodup_nil, nofun⟩, ⟨Nat.zero_le _, nofun⟩, nofun, ?_⟩
  intro key
  rw [loggedEntry]
  split <;> rfl

lemma Run.holds (run : Run config (Undisturbed writer) events database) :
    database.Holds config writer (mapAfter (history writer (labels events))) := by
  induction run with
  | created => exact ⟨keeps_created config, fun _ _ => rfl⟩
  | step _ may step ih =>
    rw [mapAfter_labels]
    exact ih.step may step

/-- A constructed engine is in a session. -/
lemma Holds.session (holds : database.Holds config writer map)
    (running : database.engine = some engine) : Session config writer map engine := by
  cases database with
  | down | recovering => cases running
  | up =>
    cases running
    exact holds
  | stopping | closing =>
    cases running
    exact holds.1

/-- What is seen of an engine is a step of it. -/
lemma Step.work_of_engine (step : Step config database (.engine label) next) :
    ∃ engine after, database.engine = some engine ∧ next.engine = some after ∧
      Lsm.Step config engine label after := by
  cases step with
  | work step | join step | finish step => exact ⟨_, _, rfl, rfl, step⟩
  | joined idle => exact ⟨_, _, rfl, rfl, .start .close idle⟩

lemma Run.noneThrown (run : Run config (Undisturbed writer) events database)
    (running : database.engine = some engine) : NoneThrown engine := by
  cases run with
  | created => cases running
  | step _ may _ => exact may.noneThrown engine running

lemma labels_append (events : List Event) (event : Event) :
    labels (events ++ [event]) = labels events ++ event.seen.toList := by
  rw [labels, filterMap_append, labels]
  cases seen : event.seen <;> simp [seen]

/-- The answers are those of an ordered map, across all sessions. -/
lemma Run.answers (run : Run config (Undisturbed writer) events database) :
    (history writer (labels events)).map Prod.snd =
      play .empty ((history writer (labels events)).map Prod.fst) := by
  induction run with
  | created => rfl
  | @step events database event _ before may step ih =>
    rw [labels_append]
    cases event with
    | engine label =>
      apply answers_append ih
      rintro call answer rfl
      obtain ⟨engine, after, running, -, finishes⟩ := step.work_of_engine
      rcases (before.holds.session running).follows.answers finishes with is | ⟨what, rfl⟩
      · exact is
      · cases finishes with
        | finish stands => exact absurd stands (before.noneThrown running _ _ _)
    | _ => simpa [Event.seen] using ih

/-! ## Ids -/

/-- The ids that were drawn. -/
def drawn (labels : List Label) : List Nat :=
  labels.filterMap fun label =>
    match label with
    | .draw id => some id
    | _ => none

/-- The next id to be drawn, by the process that is there or by the next one. -/
def nextId : Database → Nat
  | .down disk => disk.manifest.nextSstableId
  | .recovering engine _ | .up engine | .stopping engine | .closing engine => engine.nextSstableId

lemma nextId_engine (running : database.engine = some engine) :
    database.nextId = engine.nextSstableId := by
  cases database with
  | down | recovering => cases running
  | _ =>
    cases running
    rfl

end Database

/-- An id is drawn once. -/
lemma Step.nextSstableId (step : Step config engine label after) :
    after.nextSstableId = engine.nextSstableId + (Database.drawn [label]).length ∧
      ∀ id ∈ Database.drawn [label], id = engine.nextSstableId := by
  have ended (engine : LSMTreeEngine) (runner : Option Nat) (thrown : Option String) :
      (engine.endPass runner thrown).nextSstableId = engine.nextSstableId := by
    rw [endPass_only]
  cases step with
  | buildStart | mergeStart => exact ⟨rfl, fun id mem => mem_singleton.mp mem⟩
  | swap =>
    rw [swapMemTable_eq]
    exact ⟨rfl, nofun⟩
  | flushNothing stands =>
    rw [retire_eq]
    exact ⟨rfl, nofun⟩
  | nothingToDo | compact | compactThrows =>
    rw [ended]
    exact ⟨rfl, nofun⟩
  | _ => exact ⟨rfl, nofun⟩

namespace Database

variable {database next : Database} {event : Event} {events : List Event}

/-- Outside of the steps of an engine the next id stays as it is. -/
lemma Step.nextId_eq (holds : database.Holds config writer map)
    (step : Step config database event next) (unseen : event.seen = none)
    (alive : event ≠ .killed) : next.nextId = database.nextId := by
  cases step with
  | work | join | joined | finish => cases unseen
  | close idle ended => exact (holds.1.recorded idle ended).1
  | kill => exact absurd rfl alive
  | _ => rfl

/-- No id is drawn twice. -/
lemma Run.drawn (run : Run config (Undisturbed writer) events database) :
    (drawn (labels events)).Nodup ∧ ∀ id ∈ Database.drawn (labels events), id < database.nextId := by
  induction run with
  | created => exact ⟨nodup_nil, nofun⟩
  | @step events database event next before may step ih =>
    rw [labels_append, Database.drawn, filterMap_append]
    cases event with
    | engine label =>
      obtain ⟨engine, after, running, running', draws⟩ := step.work_of_engine
      obtain ⟨advances, first⟩ := draws.nextSstableId
      rw [nextId_engine running] at ih
      rw [nextId_engine running', advances]
      have later : ∀ id ∈ Database.drawn (labels events),
          id < engine.nextSstableId + (Database.drawn [label]).length :=
        fun id mem => Nat.lt_add_right _ (ih.2 id mem)
      cases label with
      | draw id =>
        have is : id = engine.nextSstableId := first id mem_cons_self
        subst is
        constructor
        · refine nodup_append.mpr ⟨ih.1, pairwise_singleton _ _, ?_⟩
          intro id mem other mem'
          rw [mem_singleton.mp mem']
          exact Nat.ne_of_lt (ih.2 id mem)
        · intro id mem
          rcases mem_append.mp mem with mem | mem
          · exact later id mem
          · rw [mem_singleton.mp mem]
            exact Nat.lt_succ_self _
      | _ => simpa [Database.drawn, Event.seen] using ih
    | _ =>
      rw [step.nextId_eq before.holds rfl may.alive]
      simpa [Database.drawn, Event.seen] using ih

/-! ## Reopening -/

/-- An engine can be constructed on the files. -/
def Reopens (config : Config) (disk : Disk) (engine : LSMTreeEngine) : Prop :=
  Relation.ReflTransGen (fun before after => Step config before .inner after) (.down disk)
    (.up engine)

lemma exists_reopens (config : Config) (disk : Disk) : ∃ engine, Reopens config disk engine := by
  cases on : config.walEnabled with
  | false => exact ⟨_, .single (.load on)⟩
  | true =>
    obtain ⟨recovery, recovers, done⟩ := exists_done some (.begun disk.memWals)
    refine ⟨(loaded config disk).recovered recovery, .head (.loadWal on) (.tail ?_ (.recovered done))⟩
    exact recovers.lift (Database.recovering (loaded config disk)) fun _ _ => .recover

end Database

/-- A clean close and reopen loses nothing: for all thresholds, with the WAL on or off, wherever
compaction passes fall and however often the engine is destroyed and constructed again, the
calls of the writer return what one ordered map would.  The manifest page decodes to the tiers,
whose tables all are in their files, and no id is drawn twice. -/
theorem clean_reopen_loses_nothing {database : Database} {events : List Database.Event}
    (run : Database.Run config (Database.Undisturbed writer) events database) :
    (history writer (Database.labels events)).map Prod.snd =
        play .empty ((history writer (Database.labels events)).map Prod.fst) ∧
      (Database.drawn (Database.labels events)).Nodup ∧
      (∀ engine, database.engine = some engine →
        engine.disk.manifest.image.tiers =
            (engine.tiers.map (List.map SSTable.id)).rdropWhile List.isEmpty ∧
          (loaded config engine.disk).tiers = engine.tiers.rdropWhile List.isEmpty ∧
          (∀ table ∈ engine.tiers.flatten, InFile config engine.disk.tables table) ∧
          Finishes config engine writer) ∧
      ∀ disk, database = .down disk →
        (∀ id ∈ disk.manifest.tiers.flatten, (disk.tables.lookup id).isSome) ∧
          ∃ engine, Database.Reopens config disk engine := by
  refine ⟨run.answers, run.drawn.1, ?_, ?_⟩
  · intro engine running
    have session := run.holds.session running
    refine ⟨?_, tiers_loaded session.persisted session.stored, session.stored.live,
      finishes session.helps session.follows.reads⟩
    rw [session.persisted.fits.tiers_image, session.persisted.tiers]
  · rintro disk rfl
    exact ⟨run.holds.1.files, Database.exists_reopens config disk⟩

variable {events : List Database.Event}

/-- A client moves without an exception. -/
lemma Database.Run.undisturbed {database next : Database}
    (run : Database.Run config (Database.Undisturbed writer) events database)
    (running : database.engine = some engine := by rfl) (runs : next.engine = some after := by rfl)
    (moves : after.clients = update engine.clients client state := by rfl)
    (returns : ∀ call what, state ≠ .returning call (.runtimeError what) := by nofun)
    (one : OneWriter writer label := by first | trivial | exact fun _ => rfl) :
    Database.Undisturbed writer database (.engine label) next := by
  refine ⟨nofun, fun _ is => by cases is; exact one, ?_⟩
  intro engine' runs'
  rw [runs] at runs'
  cases runs'
  intro other call what
  rw [moves]
  by_cases same : other = client
  · subst same
    rw [update_self]
    exact returns call what
  · rw [update_of_ne same]
    exact run.noneThrown running other call what

/-- A step of the destructor. -/
lemma Database.Run.destroy
    (run : Database.Run config (Database.Undisturbed writer) events (.closing engine))
    (step : Lsm.Step config engine label after)
    (may : Database.Undisturbed writer (.closing engine) (.engine label) (.closing after))
    (joined : after.compaction ≠ some ⟨none, .claimed⟩ := by nofun)
    (stopped : ∀ client call, label ≠ .start client call := by nofun)
    (returns : ∀ client what, label ≠ .finish client .close (.runtimeError what) := by nofun) :
    Database.Run config (Database.Undisturbed writer) (events ++ [.engine label])
      (.closing after) :=
  run.next (.finish step joined stopped returns) may

/-- The WAL is on, and only the destructor flushes. -/
def flushLast : Config := { flushEach with flushThresholdBytes := 1000, walEnabled := true }

/-- A value is found again in the next session, in the table that the destructor has built. -/
theorem clean_reopen_loses_nothing_flushLast :
    ∃ (events : List Database.Event) (engine : LSMTreeEngine),
      history 0 (Database.labels events) =
        [(.put 7 [1], .done), (.close, .done), (.get 7, .found (some [1]))] ∧
      Database.drawn (Database.labels events) = [0] ∧
      engine.disk.manifest.image.tiers = [[0]] ∧
      (history 0 (Database.labels events)).map Prod.snd =
        play .empty ((history 0 (Database.labels events)).map Prod.fst) := by
  have run : Database.Run flushLast (Database.Undisturbed 0) [] _ := .created
  have run := run.next (.loadWal rfl) ⟨nofun, nofun, nofun⟩
  have run := run.next (.recovered ⟨rfl, rfl⟩)
    ⟨nofun, nofun, fun _ is => by cases is; exact fun _ _ _ => nofun⟩
  have run := run.work (@Step.start _ _ 0 (.put 7 [1]) rfl) run.undisturbed
  have run := run.work (@Step.putWrite _ _ 0 7 [1] rfl (by decide)) run.undisturbed
  have run := run.work (@Step.finish _ _ 0 _ _ rfl) run.undisturbed
  have run := run.next (.stop fun client => by cases client <;> rfl)
    ⟨nofun, nofun, fun _ running => run.noneThrown running⟩
  have run := run.next (@Database.Step.joined _ 0 _ rfl rfl) run.undisturbed
  have run := run.destroy (@Step.closeFlush _ _ 0 rfl (by decide)) run.undisturbed
  have run := run.destroy (@Step.swap _ _ 0 _ _ rfl) run.undisturbed
  have run := run.destroy (@Step.buildStart _ _ 0 _ _ _ _ rfl (by decide)) run.undisturbed
  have run := run.destroy (@Step.buildEnd _ _ 0 _ _ _ _ _ _ _ rfl rfl) run.undisturbed
  have run := run.destroy (@Step.walRemove _ _ 0 _ _ _ _ _ rfl) run.undisturbed
  have run := run.destroy (@Step.install _ _ 0 _ _ _ _ _ rfl rfl) run.undisturbed
  have run := run.destroy (@Step.finish _ _ 0 _ _ rfl) run.undisturbed
  have run := run.next (.close (fun client => by cases client <;> rfl) rfl rfl) ⟨nofun, nofun, nofun⟩
  have run := run.next (.loadWal rfl) ⟨nofun, nofun, nofun⟩
  have run := run.next (.recover (@Recovery.Step.remove _ _ _ [] [] 1 rfl rfl)) ⟨nofun, nofun, nofun⟩
  have run := run.next (.recovered ⟨rfl, rfl⟩)
    ⟨nofun, nofun, fun _ is => by cases is; exact fun _ _ _ => nofun⟩
  have run := run.work (@Step.start _ _ 0 (.get 7) rfl) run.undisturbed
  have run := run.work (@Step.getSnapshot _ _ 0 _ rfl) run.undisturbed
  have run := run.work (@Step.getRead _ _ 0 _ _ rfl) run.undisturbed
  have run := run.work (@Step.finish _ _ 0 _ _ rfl) run.undisturbed
  refine ⟨_, _, ?_, ?_, (clean_reopen_loses_nothing run).2.2.1 _ rfl |>.1.trans ?_,
    (clean_reopen_loses_nothing run).1⟩
  · decide +kernel
  · decide +kernel
  · decide +kernel

end DbEngine.Lsm
