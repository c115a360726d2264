import DbEngine.Lsm.Reading

/-!
# One writer

When only one client writes, at most one memtable is on its way to a tier, so tables are
installed in order.  The writer then sees an ordered map, however its calls meet the
compaction passes and the readers.
-/

namespace DbEngine.Lsm

open Lib Function LSMTreeEngine

/-- Only this client starts to write. -/
def OneWriter (writer : Nat) : Label → Prop
  | .start client call => call.Writes → client = writer
  | _ => True

/-- A client that does not write. -/
def Client.Reader : Client → Prop
  | .called call => ¬ call.Writes
  | .deleting .. | .lookedUp .. | .flushing .. | .helping .. => False
  | .idle | .getting .. | .opening .. | .scanning .. | .returning .. => True

/-- Nobody else writes, and the writer's memtable is the only one on its way to a tier. -/
structure Solo (writer : Nat) (clients : Nat → Client) (retired : List Nat) : Prop where
  readers : ∀ client, client ≠ writer → (clients client).Reader
  retired : retired = ((clients writer).flushed.map Prod.fst).toList

variable {config : Config} {engine after : LSMTreeEngine} {label : Label} {writer : Nat}

namespace Solo

variable {clients : Nat → Client} {retired : List Nat} {mover : Nat} {state : Client}

section

variable (solo : Solo writer clients retired)
include solo

/-- The client that flushes is the writer. -/
lemma mover_eq (stands : clients mover = state) (writes : ¬ state.Reader) : mover = writer := by
  by_contra other
  exact writes (stands ▸ solo.readers mover other)

/-- A client moves on, and the writer's memtable with it. -/
lemma step (reader : mover ≠ writer → state.Reader) (others : mover ≠ writer → retired' = retired)
    (own : mover = writer → retired' = (state.flushed.map Prod.fst).toList) :
    Solo writer (update clients mover state) retired' := by
  constructor
  · intro client other
    by_cases same : client = mover
    · subst same
      rw [update_self]
      exact reader other
    · rw [update_of_ne same]
      exact solo.readers client other
  · by_cases same : mover = writer
    · rw [own same, same, update_self]
    · rw [others same, update_of_ne (Ne.symm same)]
      exact solo.retired

/-- A client moves on without any change to its memtable. -/
lemma move (reader : mover ≠ writer → state.Reader)
    (same : state.flushed.map Prod.fst = (clients mover).flushed.map Prod.fst) :
    Solo writer (update clients mover state) retired := by
  apply solo.step reader
  · exact fun _ => rfl
  · rintro rfl
    rw [same]
    exact solo.retired

/-- The writer moves on. -/
lemma own (stands : clients mover = before) (writes : ¬ before.Reader)
    (moves : retired = (before.flushed.map Prod.fst).toList → retired' = (state.flushed.map
      Prod.fst).toList) : Solo writer (update clients mover state) retired' := by
  have same := solo.mover_eq stands writes
  refine solo.step (fun other => absurd same other) (fun other => absurd same other) ?_
  intro _
  apply moves
  rw [← stands, same]
  exact solo.retired

/-- The writer's memtable is in a table or has nothing. -/
lemma drop (stands : clients mover = before) (writes : ¬ before.Reader)
    (flushed : before.flushed = some (memTable, table)) (done : state.flushed = none) :
    Solo writer (update clients mover state) (retired.erase memTable) := by
  apply solo.own stands writes
  intro had
  rw [had, flushed, done]
  exact erase_cons_head ..

end

lemma endPass (engine : LSMTreeEngine) (solo : Solo writer engine.clients engine.retired)
    (runner : Option Nat) (thrown : Option String) :
    Solo writer (engine.endPass runner thrown).clients (engine.endPass runner thrown).retired := by
  rcases endPass_cases runner thrown engine with eq | ⟨helper, call, answer, helps, eq⟩
  · rw [eq]
    exact solo
  · rw [eq]
    apply solo.move
    · exact fun _ => trivial
    · rw [helps]
      rfl

end Solo

/-- Every step keeps the writer alone. -/
lemma Step.solo (step : Step config engine label after)
    (solo : Solo writer engine.clients engine.retired) (one : OneWriter writer label) :
    Solo writer after.clients after.retired := by
  cases step with
  | start call stands =>
    apply solo.move
    · exact fun other writes => other (one writes)
    · rw [stands]
      rfl
  | finish stands | getSnapshot stands | getRead stands | scanSnapshot stands | scanOpen stands
  | scanNext stands | scanEnd stands | putReject stands =>
    apply solo.move
    · exact fun _ => trivial
    · rw [stands]
      rfl
  | putWrite stands =>
    apply solo.own stands
    · exact fun reader => reader trivial
    · rw [(flushed_afterWrite ..).1]
      exact id
  | deleteSnapshot stands | closeNothing stands | closeFlush stands =>
    apply solo.own stands
    · exact fun reader => reader trivial
    · exact id
  | deleteWrite stands =>
    apply solo.own stands id
    rw [(flushed_afterWrite ..).1]
    exact id
  | deleteRead stands | buildStart stands | buildEnd stands | walRemove stands | helpNot stands
  | help stands => exact solo.own stands id id
  | swap stands =>
    rw [swapMemTable_eq]
    exact solo.own stands id (congrArg (engine.active :: ·))
  | flushNothing stands =>
    rw [retire_eq]
    exact solo.drop stands id rfl rfl
  | install stands => exact solo.drop stands id rfl (flushed_afterFlush ..).1
  | installThrows stands => exact solo.drop stands id rfl rfl
  | nothingToDo | compact | compactThrows =>
    apply Solo.endPass
    exact solo
  | _ => exact solo

/-- Tables are installed in order. -/
lemma Step.inOrder (step : Step config engine label after)
    (solo : Solo writer engine.clients engine.retired) : InOrder engine label := by
  have only {client memTable : Nat} {call : Call} {answer : Answer} {table : SSTable}
      (stands : engine.clients client = .flushing call answer (.built memTable none table)) :
      engine.retired.getLast? = some memTable := by
    have same := solo.mover_eq stands id
    subst same
    rw [solo.retired, stands]
    rfl
  cases step with
  | install stands | installThrows stands => exact only stands
  | _ => trivial

/-! ## What the engine holds -/

/-- A step without a write leaves what the engine holds. -/
lemma Step.contents (step : Step config engine label after) (sound : Sound engine)
    (inOrder : InOrder engine label) (reads : ∀ client key, label ≠ .write client key)
    (key : KeyType) : after.contents key = engine.contents key :=
  (step.quiet sound inOrder reads).1.shown key

lemma contents_write (sound : Sound engine) (config : Config) (key : KeyType)
    (op : Wal.LogOp) (query : KeyType) : (engine.write config key op).contents query =
      if query = key then op.value else engine.contents query := by
  have layers : engine.layers = (engine.memTables engine.active).list :: engine.layers.tail := rfl
  rw [LSMTreeEngine.contents, layers_write sound, resolve_cons]
  split
  next same =>
    rw [same, SortedMap.lookup_insert_self]
    cases op <;> rfl
  next ne =>
    rw [SortedMap.lookup_insert_of_ne ne, LSMTreeEngine.contents, layers, resolve_cons]
    rfl

/-! ## An ordered map -/

namespace Call

/-- What a call does to an ordered map. -/
def apply (map : SortedMap KeyType Bytes) : Call → SortedMap KeyType Bytes
  | .get _ | .scan _ | .close => map
  | .put key value => if MAX_VALUE_SIZE < value.length then map else map.insert key value
  | .delete key => map.erase key

/-- What a call on an ordered map returns. -/
def answer (map : SortedMap KeyType Bytes) : Call → Answer
  | .get key => .found (map.lookup key)
  | .put _ value =>
    if MAX_VALUE_SIZE < value.length then
      .invalidArgument "LSMTreeEngine::Put: value exceeds MAX_VALUE_SIZE"
    else .done
  | .delete key => .existed (map.lookup key).isSome
  | .scan start => .entries (map.entriesFrom start)
  | .close => .done

end Call

/-- A scan that has everything is the scan of the map. -/
lemma Delivered.eq_entriesFrom {map : SortedMap KeyType Bytes} {start : KeyType}
    (delivered : Delivered (fun _ => True) map.lookup start entries) :
    entries = map.entriesFrom start := by
  apply delivered.ascending.ext (map.ascending_entriesFrom start)
  intro key
  rw [SortedMap.lookup_entriesFrom]
  split
  next reached => exact delivered.lookup key trivial reached
  next early =>
    apply lookupEntry_eq_none.mpr
    rintro entry mem rfl
    exact early (delivered.reached entry mem)

/-- The engine holds the map, with the call that the writer is in once it has its effect. -/
def Client.Holds (map : SortedMap KeyType Bytes) (contents : KeyType → Option Bytes) :
    Client → Prop
  | .flushing call answer _ | .helping call answer | .returning call answer =>
    (∀ key, contents key = (call.apply map).lookup key) ∧
      (answer = call.answer map ∨ ∃ what, answer = .runtimeError what)
  | .idle | .called _ | .getting .. | .deleting .. | .lookedUp .. | .opening .. | .scanning .. =>
    ∀ key, contents key = map.lookup key

/-- The map after a step. -/
def Label.apply (writer : Nat) (map : SortedMap KeyType Bytes) : Label → SortedMap KeyType Bytes
  | .finish client call _ => if client = writer then call.apply map else map
  | _ => map

section

variable {map : SortedMap KeyType Bytes} {contents : KeyType → Option Bytes}

lemma holds_update {clients : Nat → Client} (others : (clients writer).Holds map contents)
    (own : mover = writer → state.Holds map contents) :
    (update clients mover state writer).Holds map contents := by
  by_cases same : writer = mover
  · rw [same, update_self]
    exact own same.symm
  · rw [update_of_ne same]
    exact others

lemma holds_endPass (engine : LSMTreeEngine)
    (holds : (engine.clients writer).Holds map contents) (runner : Option Nat)
    (thrown : Option String) :
    ((engine.endPass runner thrown).clients writer).Holds map contents := by
  rcases endPass_cases runner thrown engine with eq | ⟨helper, call, answer, helps, eq⟩
  · rw [eq]
    exact holds
  · rw [eq]
    apply holds_update holds
    rintro rfl
    rw [helps] at holds
    refine ⟨holds.1, ?_⟩
    cases thrown with
    | none => exact holds.2
    | some what => exact .inr ⟨what, rfl⟩

/-- A step that does not write. -/
lemma Step.holds (step : Step config engine label after)
    (readOnly : ∀ client key, label ≠ .write client key)
    (reads : Reads (fun _ => True) map.lookup engine.memTables engine.active
      (engine.clients writer)) (holds : (engine.clients writer).Holds map contents) :
    (after.clients writer).Holds (label.apply writer map) contents := by
  have stood {state : Client} (stands : engine.clients writer = state) :
      state.Holds map contents := stands ▸ holds
  have stood' {state : Client} (stands : engine.clients writer = state) :
      Reads (fun _ => True) map.lookup engine.memTables engine.active state := stands ▸ reads
  cases step with
  | @finish client call answer stands =>
    rw [Label.apply]
    split
    next same =>
      subst same
      have returned := stood stands
      simp only [setClient, update_self]
      exact returned.1
    next other => exact holds_update holds fun same => absurd same other
  | start _ stands | getSnapshot stands | scanSnapshot stands | scanOpen stands | scanNext stands
  | deleteSnapshot stands | deleteRead stands | buildStart stands | buildEnd stands
  | walRemove stands | helpNot stands | help stands =>
    apply holds_update holds
    rintro rfl
    have same := stood stands
    exact same
  | getRead stands =>
    apply holds_update holds
    rintro rfl
    exact ⟨stood stands, .inl (congrArg Answer.found ((stood' stands).2 trivial))⟩
  | scanEnd stands ended =>
    apply holds_update holds
    rintro rfl
    have delivered := (stood' stands).2.ended ended
    exact ⟨stood stands, .inl (congrArg Answer.entries delivered.eq_entriesFrom)⟩
  | @putReject _ key value stands large =>
    apply holds_update holds
    rintro rfl
    have same : (Call.put key value).apply map = map := if_pos large
    constructor
    · rw [same]
      exact stood stands
    · exact .inl (if_pos large).symm
  | putWrite | deleteWrite => exact absurd rfl (readOnly _ _)
  | closeNothing stands | closeFlush stands =>
    apply holds_update holds
    rintro rfl
    exact ⟨stood stands, .inl rfl⟩
  | swap stands =>
    rw [swapMemTable_eq]
    apply holds_update holds
    rintro rfl
    have same := stood stands
    exact same
  | flushNothing stands =>
    rw [retire_eq]
    apply holds_update holds
    rintro rfl
    have same := stood stands
    exact same
  | install stands =>
    apply holds_update holds
    rintro rfl
    have same := stood stands
    rw [afterFlush]
    split <;> exact same
  | installThrows stands =>
    apply holds_update holds
    rintro rfl
    exact ⟨(stood stands).1, .inr ⟨_, rfl⟩⟩
  | nothingToDo | compact | compactThrows =>
    apply holds_endPass
    exact holds
  | _ => exact holds

/-- A write of the writer. -/
lemma holds_write (sound : Sound engine) (same : ∀ key, engine.contents key = map.lookup key)
    {answer : Answer} (applies : ∀ query, (call.apply map).lookup query =
      if query = key then op.value else map.lookup query) (answers : answer = call.answer map) :
    ((engine.write config key op).afterWrite config call answer).Holds map
      (engine.write config key op).contents := by
  have written (query : KeyType) :
      (engine.write config key op).contents query = (call.apply map).lookup query := by
    rw [contents_write sound, applies, same]
  rw [afterWrite]
  split <;> exact ⟨written, .inl answers⟩

end

/-- The writer works on an ordered map. -/
structure Follows (writer : Nat) (map : SortedMap KeyType Bytes) (engine : LSMTreeEngine) :
    Prop where
  sound : Sound engine
  solo : Solo writer engine.clients engine.retired
  reads : Reads (fun _ => True) map.lookup engine.memTables engine.active (engine.clients writer)
  holds : (engine.clients writer).Holds map engine.contents

namespace Follows

variable {map : SortedMap KeyType Bytes}

/-- Whoever comes first to an engine at rest works on what it holds. -/
lemma atRest (rest : AtRest engine) (holds : ∀ key, engine.contents key = map.lookup key) :
    Follows writer map engine := by
  refine ⟨rest.sound, ⟨?_, ?_⟩, ?_, ?_⟩
  · intro client _
    rw [rest.clients]
    trivial
  · rw [rest.retired, rest.clients]
    rfl
  · rw [rest.clients]
    trivial
  · rw [rest.clients]
    exact holds

/-- A snapshot of the writer has the map. -/
lemma taken (follows : Follows writer map engine) (step : Step config engine label after)
    (snapshot : label = .snapshot writer) (key : KeyType) :
    engine.read engine.snapshot key = map.lookup key := by
  have holds := follows.holds
  have retired := follows.solo.retired
  cases step with
  | getSnapshot stands | scanSnapshot stands | deleteSnapshot stands =>
    cases snapshot
    rw [stands] at holds retired
    rw [read_snapshot retired]
    exact holds key
  | _ => cases snapshot

/-- The answer that the writer gets. -/
lemma answers (follows : Follows writer map engine) {answer : Answer}
    (step : Step config engine (.finish writer call answer) after) :
    answer = call.answer map ∨ ∃ what, answer = .runtimeError what := by
  have holds := follows.holds
  cases step with
  | finish stands =>
    rw [stands] at holds
    exact holds.2

lemma reads_afterWrite {memTables : Nat → MemTable} {active : Nat} (writes : call.Writes)
    (answer : Answer) :
    Reads (fun _ => True) map.lookup memTables active (engine.afterWrite config call answer) := by
  rw [afterWrite]
  split
  · exact writes
  · exact reads_returning writes answer

/-- Every step keeps the writer on its map. -/
lemma step (follows : Follows writer map engine) (one : OneWriter writer label)
    (step : Step config engine label after) : Follows writer (label.apply writer map) after := by
  have sound := follows.sound.step step
  have solo := step.solo follows.solo one
  have holds := follows.holds
  by_cases writes : ∃ client key, label = .write client key
  · obtain ⟨client, key, rfl⟩ := writes
    cases step with
    | @putWrite _ _ value stands small =>
      have same := follows.solo.mover_eq stands fun reader => reader trivial
      subst same
      rw [stands] at holds
      have inserted : (Call.put key value).apply map = map.insert key value :=
        if_neg (Nat.not_lt.mpr small)
      have answered : Answer.done = (Call.put key value).answer map :=
        (if_neg (Nat.not_lt.mpr small)).symm
      refine ⟨sound, solo, ?_, ?_⟩
      · simp only [setClient, update_self]
        apply reads_afterWrite
        trivial
      · simp only [setClient, update_self]
        refine holds_write follows.sound holds ?_ answered
        intro query
        rw [inserted, map.lookup_insert]
        rfl
    | @deleteWrite _ _ existed stands =>
      have same := follows.solo.mover_eq stands id
      subst same
      have lookedUp := follows.reads
      rw [stands] at holds lookedUp
      refine ⟨sound, solo, ?_, ?_⟩
      · simp only [setClient, update_self]
        apply reads_afterWrite
        trivial
      · simp only [setClient, update_self]
        refine holds_write follows.sound holds ?_ (congrArg Answer.existed (lookedUp trivial))
        exact map.lookup_erase key
  · have readOnly : ∀ client key, label ≠ .write client key :=
      fun client key is => writes ⟨client, key, is⟩
    have same : after.contents = engine.contents :=
      funext (step.contents follows.sound (step.inOrder follows.solo) readOnly)
    refine ⟨sound, solo, ?_, ?_⟩
    · have reads := step.reads follows.reads (fun client key is => absurd is (readOnly client key))
        fun snapshot key _ => follows.taken step snapshot key
      cases step with
      | @finish client =>
        by_cases own : client = writer
        · subst own
          simp only [setClient, update_self]
          trivial
        · rw [Label.apply, if_neg own]
          exact reads
      | _ => exact reads
    · rw [same]
      exact step.holds readOnly follows.reads holds

end Follows

end DbEngine.Lsm
