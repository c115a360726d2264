import DbEngine.Lsm.OneWriter
import DbEngine.Lsm.Progress

/-!
# The engine is an ordered map

For one client that writes, whatever compaction passes and readers do meanwhile: its calls
return what an ordered map would, and each of them can be brought to an end.
-/

namespace DbEngine.Lsm

open Lib LSMTreeEngine

/-- The call of a client that returns in a step. -/
def Label.returned (client : Nat) : Label → Option (Call × Answer)
  | .finish other call answer => if other = client then some (call, answer) else none
  | _ => none

/-- The calls of a client that have returned, with what they returned. -/
def history (client : Nat) (labels : List Label) : List (Call × Answer) :=
  labels.filterMap (Label.returned client)

/-- What an ordered map returns to calls made one after the other. -/
def play : SortedMap KeyType Bytes → List Call → List Answer
  | _, [] => []
  | map, call :: rest => call.answer map :: play (call.apply map) rest

lemma play_append (map : SortedMap KeyType Bytes) (calls : List Call) (call : Call) :
    play map (calls ++ [call]) = play map calls ++ [call.answer (calls.foldl Call.apply map)] := by
  induction calls generalizing map with
  | nil => rfl
  | cons first rest ih => exact congrArg (first.answer map :: ·) (ih (first.apply map))

variable {config : Config} {engine : LSMTreeEngine} {labels : List Label} {writer : Nat}

lemma history_append (client : Nat) (labels : List Label) (label : Label) :
    history client (labels ++ [label]) =
      history client labels ++ (label.returned client).toList := by
  rw [history, filterMap_append, history]
  cases returned : label.returned client <;> simp [returned]

/-- The map after the calls of a history. -/
def mapAfter (history : List (Call × Answer)) : SortedMap KeyType Bytes :=
  (history.map Prod.fst).foldl Call.apply .empty

lemma mapAfter_returned (client : Nat) (history : List (Call × Answer)) (label : Label) :
    mapAfter (history ++ (label.returned client).toList) =
      label.apply client (mapAfter history) := by
  cases label with
  | finish other call answer =>
    rw [Label.apply, Label.returned]
    split <;> simp [mapAfter]
  | _ => simp [mapAfter, Label.returned, Label.apply]

lemma follows_created (config : Config) (writer : Nat) :
    Follows writer .empty (created config) := by
  apply Follows.atRest (atRest_created config)
  intro key
  have layers : (created config).layers = [.empty] := by
    rw [created]
    split <;> rfl
  rw [LSMTreeEngine.contents, layers]
  rfl

variable {allowed : LSMTreeEngine → Label → Prop}

lemma Run.follows (one : ∀ {engine label}, allowed engine label → OneWriter writer label)
    (run : Run config allowed (created config) labels engine) :
    Follows writer (mapAfter (history writer labels)) engine := by
  induction run with
  | opened => exact follows_created config writer
  | step _ may step ih =>
    rw [history_append, mapAfter_returned]
    exact ih.step (one may) step

lemma Run.helps (run : Run config allowed (created config) labels engine) :
    Helps engine.clients engine.compaction := by
  induction run with
  | opened =>
    intro client call answer stands
    rw [(atRest_created config).clients] at stands
    cases stands
  | step _ _ step ih => exact step.helps ih

/-- No call of the client has ended with a runtime error. -/
def NothingThrown (client : Nat) (labels : List Label) : Prop :=
  ∀ call what, Label.finish client call (.runtimeError what) ∉ labels

/-- One more call is answered as by an ordered map. -/
lemma answers_append {label : Label} (earlier : (history writer labels).map Prod.snd =
      play .empty ((history writer labels).map Prod.fst))
    (answered : ∀ call answer, label = .finish writer call answer →
      answer = call.answer (mapAfter (history writer labels))) :
    (history writer (labels ++ [label])).map Prod.snd =
      play .empty ((history writer (labels ++ [label])).map Prod.fst) := by
  rw [history_append]
  cases label with
  | finish client call answer =>
    rw [Label.returned]
    split
    next own =>
      subst own
      simp only [toList_some, map_append, map_cons, map_nil]
      rw [play_append, earlier, answered call answer rfl]
      rfl
    · simpa using earlier
  | _ => simpa [Label.returned] using earlier

/-- The answers are those of an ordered map. -/
lemma Run.answers (run : Run config (fun _ => OneWriter writer) (created config) labels engine)
    (nothingThrown : NothingThrown writer labels) :
    (history writer labels).map Prod.snd = play .empty ((history writer labels).map Prod.fst) := by
  induction run with
  | opened => rfl
  | @step labels _ label _ before may step ih =>
    apply answers_append
    · exact ih fun call what mem => nothingThrown call what (mem_append_left _ mem)
    · rintro call answer rfl
      rcases (before.follows id).answers step with is | ⟨what, rfl⟩
      · exact is
      · exact absurd (mem_append_right _ mem_cons_self) (nothingThrown call what)

lemma Run.mono {allowed' : LSMTreeEngine → Label → Prop} {opened : LSMTreeEngine}
    (implies : ∀ engine label, allowed engine label → allowed' engine label)
    (run : Run config allowed opened labels engine) : Run config allowed' opened labels engine := by
  induction run with
  | opened => exact .opened
  | step _ may step ih => exact ih.next step (implies _ _ may)

/-- To one client that writes, the engine is an ordered map: for all thresholds and wherever
the steps of compaction passes and of readers fall, its calls return what the map would, and
the call it is in can be brought to an end. -/
theorem finite_map_under_compaction
    (run : Run config (fun _ => OneWriter writer) (created config) labels engine)
    (nothingThrown : NothingThrown writer labels) :
    (history writer labels).map Prod.snd =
        play .empty ((history writer labels).map Prod.fst) ∧
      ∃ rest after, Run config (fun _ => OneWriter writer) engine rest after ∧
        after.clients writer = .idle := by
  refine ⟨run.answers nothingThrown, ?_⟩
  rcases finishes run.helps (run.follows id).reads with ⟨rest, after, ends, idle⟩
  refine ⟨rest, after, ends.mono ?_, idle⟩
  intro engine label continues
  cases label with
  | start => exact continues.elim
  | _ => trivial

/-- A value that is flushed at once is found again. -/
theorem finite_map_under_compaction_flushEach :
    ∃ (labels : List Label) (engine : LSMTreeEngine),
      history 0 labels = [(.put 7 [1], .done), (.get 7, .found (some [1]))] ∧
      engine.tiers.length = 1 ∧
      (history 0 labels).map Prod.snd = play .empty ((history 0 labels).map Prod.fst) ∧
      ∃ rest after, Run flushEach (fun _ => OneWriter 0) engine rest after ∧
        after.clients 0 = .idle := by
  have run : Run flushEach (fun _ => OneWriter 0) (created flushEach) [] _ := .opened
  have run := run.next (@Step.start _ _ 0 (.put 7 [1]) rfl) fun _ => rfl
  have run := run.next (@Step.putWrite _ _ 0 7 [1] rfl (by decide))
  have run := run.next (@Step.swap _ _ 0 _ _ rfl)
  have run := run.next (@Step.buildStart _ _ 0 _ _ _ _ rfl (by decide))
  have run := run.next (@Step.buildEnd _ _ 0 _ _ _ _ _ _ _ rfl rfl)
  have run := run.next (@Step.install _ _ 0 _ _ _ _ _ rfl rfl)
  have run := run.next (@Step.finish _ _ 0 _ _ rfl)
  have run := run.next (@Step.start _ _ 0 (.get 7) rfl) fun _ => rfl
  have run := run.next (@Step.getSnapshot _ _ 0 _ rfl)
  have run := run.next (@Step.getRead _ _ 0 _ _ rfl)
  have run := run.next (@Step.finish _ _ 0 _ _ rfl)
  refine ⟨_, _, ?_, rfl, finite_map_under_compaction run ?_⟩
  · decide +kernel
  · intro call what thrown
    simp at thrown

/-! ## Deletes -/

def Call.puts (key : KeyType) : Call → Bool
  | .put other _ => other = key
  | .get _ | .delete _ | .scan _ | .close => false

/-- The client is in a `Delete` of the key and has looked, or is about to look, whether it is
there. -/
def Client.Watches (key : KeyType) : Client → Prop
  | .deleting other _ | .lookedUp other _ => other = key
  | _ => False

/-- Tables are installed in order, a `Delete` takes its snapshot while no memtable is on its way to a
tier, and nobody else writes its key between the snapshot and the tombstone. -/
def Apart (engine : LSMTreeEngine) (label : Label) : Prop :=
  InOrder engine label ∧ match label with
  | .snapshot client => ∀ key, engine.clients client = .called (.delete key) → engine.retired = []
  | .write client key => ∀ other ≠ client, ¬ (engine.clients other).Watches key
  | _ => True

/-- The write that takes effect in a step, with the answer to it. -/
def takesEffect (engine : LSMTreeEngine) : Label → Option (Call × Answer)
  | .write client _ =>
    match engine.clients client with
    | .called call => some (call, .done)
    | .lookedUp key existed => some (.delete key, .existed existed)
    | _ => none
  | _ => none

/-- A run with the writes in the order in which they take effect, each at a step of its call. -/
inductive Ordered (config : Config) : List (Call × Answer) → LSMTreeEngine → Prop where
  | opened : Ordered config [] (created config)
  | step {engine : LSMTreeEngine} (before : Ordered config order engine)
      (may : Apart engine label) (step : Step config engine label after) :
      Ordered config (order ++ (takesEffect engine label).toList) after

lemma Ordered.next (run : Ordered config order engine) (step : Step config engine label after)
    (may : Apart engine label := by exact ⟨trivial, trivial⟩) :
    Ordered config (order ++ (takesEffect engine label).toList) after :=
  .step run may step

/-- A client comes to watch a key by a snapshot. -/
lemma Step.watches {client : Nat} (step : Step config engine label after)
    (watches : (after.clients client).Watches key) : (engine.clients client).Watches key ∨
      label = .snapshot client ∧ engine.clients client = .called (.delete key) := by
  have either {clients : Nat → Client} {mover : Nat} {state : Client}
      (watches : (Function.update clients mover state client).Watches key) :
      (clients client).Watches key ∨ client = mover ∧ state.Watches key := by
    by_cases same : client = mover
    · rw [same, Function.update_self] at watches
      exact .inr ⟨same, watches⟩
    · exact .inl (by rwa [Function.update_of_ne same] at watches)
  have moved {clients : Nat → Client} {mover : Nat} {state : Client} (leaves : ¬ state.Watches key)
      (watches : (Function.update clients mover state client).Watches key) :
      (clients client).Watches key := (either watches).resolve_right fun is => leaves is.2
  have ended (engine : LSMTreeEngine) (runner : Option Nat) (thrown : Option String)
      (watches : ((engine.endPass runner thrown).clients client).Watches key) :
      (engine.clients client).Watches key := by
    rcases endPass_cases runner thrown engine with eq | ⟨helper, call, answer, helps, eq⟩
    · rwa [eq] at watches
    · rw [eq] at watches
      exact moved id watches
  cases step with
  | deleteSnapshot stands =>
    rcases either watches with already | ⟨rfl, rfl⟩
    · exact .inl already
    · exact .inr ⟨rfl, stands⟩
  | deleteRead stands =>
    rcases either watches with already | ⟨rfl, same⟩
    · exact .inl already
    · rw [stands]
      exact .inl same
  | putWrite | deleteWrite | install =>
    refine .inl (moved ?_ watches)
    simp only [afterWrite, afterFlush]
    split <;> exact id
  | swap =>
    rw [swapMemTable_eq] at watches
    exact .inl (moved id watches)
  | flushNothing =>
    rw [retire_eq] at watches
    exact .inl (moved id watches)
  | nothingToDo | compact | compactThrows =>
    have already := ended _ _ _ watches
    exact .inl already
  | start | finish | getSnapshot | getRead | scanSnapshot | scanOpen | scanNext | scanEnd
  | putReject | closeNothing | closeFlush | buildStart | buildEnd | walRemove | helpNot | help
  | installThrows => exact .inl (moved id watches)
  | _ => exact .inl watches

/-- What the engine holds is the map after the writes, and who has looked a key up still knows. -/
structure Tracks (order : List (Call × Answer)) (engine : LSMTreeEngine) : Prop where
  sound : Sound engine
  holds : ∀ key, engine.contents key = (mapAfter order).lookup key
  reads : ∀ client key, (engine.clients client).Watches key →
    Reads (· = key) engine.contents engine.memTables engine.active (engine.clients client)

lemma mapAfter_append (order : List (Call × Answer)) (call : Call) (answer : Answer) :
    mapAfter (order ++ [(call, answer)]) = call.apply (mapAfter order) := by
  simp [mapAfter]

lemma Reads.of_watches {memTables : Nat → MemTable} {active : Nat} {client : Client} (watches : client.Watches key)
    (same : value key = value' key) (reads : Reads (· = key) value memTables active client) :
    Reads (· = key) value' memTables active client := by
  cases client with
  | deleting =>
    obtain rfl := watches
    exact ⟨reads.1, fun _ => (reads.2 rfl).trans same⟩
  | lookedUp =>
    obtain rfl := watches
    exact fun _ => (reads rfl).trans (congrArg Option.isSome same)
  | _ => exact watches.elim

/-- A write is what an ordered map would do, and is answered as by it. -/
lemma Tracks.effect (tracks : Tracks order engine)
    (step : Step config engine (.write client key) after) : ∃ op call answer,
      after = (engine.write config key op).setClient client
        ((engine.write config key op).afterWrite config call answer) ∧
      takesEffect engine (.write client key) = some (call, answer) ∧
      (∀ query, (call.apply (mapAfter order)).lookup query =
        if query = key then op.value else (mapAfter order).lookup query) ∧
      answer = call.answer (mapAfter order) := by
  cases step with
  | @putWrite _ _ value stands small =>
    have inserted : (Call.put key value).apply (mapAfter order) = (mapAfter order).insert key value :=
      if_neg (Nat.not_lt.mpr small)
    refine ⟨.put value, .put key value, .done, rfl, by rw [takesEffect, stands], fun query => ?_,
      (if_neg (Nat.not_lt.mpr small)).symm⟩
    rw [inserted, SortedMap.lookup_insert]
    rfl
  | @deleteWrite _ _ existed stands =>
    have knows := tracks.reads client key (by rw [stands]; rfl)
    rw [stands] at knows
    exact ⟨.delete, .delete key, .existed existed, rfl, by rw [takesEffect, stands],
      (mapAfter order).lookup_erase key, congrArg _ ((knows rfl).trans (by rw [tracks.holds]))⟩

/-- Every step keeps the map. -/
lemma Tracks.step (tracks : Tracks order engine) (may : Apart engine label)
    (step : Step config engine label after) :
    Tracks (order ++ (takesEffect engine label).toList) after := by
  -- Whoever watches a key keeps what it knows, as the key is not written.
  have reads (unwritten : ∀ client key, (after.clients client).Watches key →
      (∀ writer, label ≠ .write writer key) ∧ after.contents key = engine.contents key)
      (client : Nat) (key : KeyType) (watches : (after.clients client).Watches key) :
      Reads (· = key) after.contents after.memTables after.active (after.clients client) := by
    refine .of_watches watches (unwritten client key watches).2.symm (step.reads ?_ ?_ ?_)
    · rcases step.watches watches with already | ⟨-, called⟩
      · exact tracks.reads client key already
      · rw [called]
        trivial
    · rintro writer _ rfl rfl
      exact (unwritten client _ watches).1 writer rfl
    · rintro rfl _ rfl
      rcases step.watches watches with already | ⟨-, called⟩
      · cases step with
        | getSnapshot stands | scanSnapshot stands | deleteSnapshot stands =>
          rw [stands] at already
          exact already.elim
      · exact read_snapshot (may.2 _ called) _
  by_cases writes : ∃ client key, label = .write client key
  · obtain ⟨client, key, rfl⟩ := writes
    obtain ⟨op, call, answer, rfl, effect, applies, -⟩ := tracks.effect step
    rw [effect, toList_some]
    refine ⟨tracks.sound.step step, fun query => ?_, reads fun other watched watches => ?_⟩
    · rw [mapAfter_append, applies, ← tracks.holds]
      exact contents_write tracks.sound config key op query
    · have elsewhere : watched ≠ key := by
        rintro rfl
        by_cases own : other = client
        · subst own
          simp only [setClient, Function.update_self, afterWrite] at watches
          split at watches <;> exact watches.elim
        · rcases step.watches watches with already | ⟨⟨⟩, -⟩
          exact may.2 other own already
      refine ⟨fun writer same => ?_, ?_⟩
      · cases same
        exact elsewhere rfl
      · exact (contents_write tracks.sound config key op watched).trans (if_neg elsewhere)
  · have readOnly : ∀ client key, label ≠ .write client key :=
      fun client key is => writes ⟨client, key, is⟩
    have same := step.contents tracks.sound may.1 readOnly
    have none : takesEffect engine label = .none := by
      cases label with
      | write => exact absurd rfl (readOnly _ _)
      | _ => rfl
    rw [none, Option.toList_none, append_nil]
    exact ⟨tracks.sound.step step, fun key => (same key).trans (tracks.holds key),
      reads fun _ key _ => ⟨fun writer => readOnly writer key, same key⟩⟩

lemma Ordered.tracks (run : Ordered config order engine) :
    Tracks order engine ∧ order.map Prod.snd = play .empty (order.map Prod.fst) := by
  induction run with
  | opened =>
    have holds := (follows_created config 0).holds
    rw [(atRest_created config).clients] at holds
    refine ⟨⟨(atRest_created config).sound, holds, fun client key watches => ?_⟩, rfl⟩
    rw [(atRest_created config).clients] at watches
    exact watches.elim
  | @step order label _ engine before may step ih =>
    refine ⟨ih.1.step may step, ?_⟩
    cases label with
    | write client key =>
      obtain ⟨op, call, answer, -, effect, -, answered⟩ := ih.1.effect step
      simp only [effect, toList_some, map_append, map_cons, map_nil]
      rw [play_append, ih.2, answered]
      rfl
    | _ => simpa [takesEffect] using ih.2

end DbEngine.Lsm
