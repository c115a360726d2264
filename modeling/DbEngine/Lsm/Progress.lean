import DbEngine.Lsm.Reading

/-!
# Calls return

Nobody waits for anybody in this engine: whatever the other clients and the background
thread have begun, a client can bring its call to an end by its own steps.
-/

namespace DbEngine.Lsm

open Lib Function LSMTreeEngine

/-- A client that helps runs the compaction. -/
def Helps (clients : Nat → Client) (compaction : Option Compaction) : Prop :=
  ∀ client call answer, clients client = .helping call answer →
    ∃ pass, compaction = some ⟨some client, pass⟩

variable {config : Config} {engine after : LSMTreeEngine} {label : Label} {client : Nat}

namespace Helps

variable {clients : Nat → Client} {compaction : Option Compaction}

/-- A client moves on, but not to help. -/
lemma move (helps : Helps clients compaction)
    (works : ∀ call answer, state ≠ .helping call answer) :
    Helps (update clients mover state) compaction := by
  intro client call answer stands
  by_cases same : client = mover
  · rw [same, update_self] at stands
    exact absurd stands (works call answer)
  · rw [update_of_ne same] at stands
    exact helps client call answer stands

/-- The pass goes on. -/
lemma pass (helps : Helps clients compaction) {before : Pass}
    (stands : compaction = some ⟨runner, before⟩) (pass : Pass) :
    Helps clients (some ⟨runner, pass⟩) := by
  intro client call answer helping
  obtain ⟨pass', same⟩ := helps client call answer helping
  rw [stands] at same
  cases same
  exact ⟨pass, rfl⟩

lemma endPass (engine : LSMTreeEngine) (helps : Helps engine.clients engine.compaction)
    {pass : Pass} (stands : engine.compaction = some ⟨runner, pass⟩) (thrown : Option String) :
    Helps (engine.endPass runner thrown).clients (engine.endPass runner thrown).compaction := by
  have runs {client : Nat} {call : Call} {answer : Answer}
      (helping : engine.clients client = .helping call answer) : runner = some client := by
    obtain ⟨pass', same⟩ := helps client call answer helping
    rw [stands] at same
    cases same
    rfl
  intro client call answer helping
  cases runner with
  | none => cases runs helping
  | some helper =>
    simp only [LSMTreeEngine.endPass, setClient] at helping
    split at helping
    · by_cases same : client = helper
      · subst same
        simp only [update_self] at helping
        cases helping
      · simp only [update_of_ne same] at helping
        exact absurd (Option.some.inj (runs helping)).symm same
    next idle =>
      have same := Option.some.inj (runs helping)
      subst same
      exact absurd helping (idle call answer)

end Helps

lemma Step.helps (step : Step config engine label after)
    (helps : Helps engine.clients engine.compaction) : Helps after.clients after.compaction := by
  cases step with
  | putWrite | deleteWrite =>
    apply helps.move
    rw [afterWrite]
    split <;> rintro _ _ ⟨⟩
  | install =>
    apply helps.move
    rw [afterFlush]
    split <;> rintro _ _ ⟨⟩
  | swap =>
    rw [swapMemTable_eq]
    exact helps.move (by rintro _ _ ⟨⟩)
  | flushNothing =>
    rw [retire_eq]
    exact helps.move (by rintro _ _ ⟨⟩)
  | @help helper _ _ _ free =>
    intro client call answer helping
    by_cases same : client = helper
    · subst same
      exact ⟨.claimed, rfl⟩
    · have helping : update engine.clients helper _ client = _ := helping
      rw [update_of_ne same] at helping
      obtain ⟨pass, busy⟩ := helps client call answer helping
      rw [free] at busy
      cases busy
  | claim free =>
    intro client call answer helping
    obtain ⟨pass, busy⟩ := helps client call answer helping
    rw [free] at busy
    cases busy
  | chooseTier stands | mergeNothing stands | mergeStart stands | mergeEnd stands =>
    exact helps.pass stands _
  | nothingToDo stands | compact stands | compactThrows stands =>
    apply Helps.endPass
    · exact helps
    · exact stands
  | buildWrite | mergeWrite | fileRemove => exact helps
  | _ => exact helps.move (by rintro _ _ ⟨⟩)

/-! ## Ending a call -/

/-- The step does not start a call. -/
def NoStart : Label → Prop
  | .start .. => False
  | _ => True

/-- A client can bring its call to an end without anybody starting another one. -/
def Finishes (config : Config) (engine : LSMTreeEngine) (client : Nat) : Prop :=
  ∃ labels after, Run config (fun _ => NoStart) engine labels after ∧
    after.clients client = .idle

/-- A run with one more step before it. -/
lemma Run.cons {allowed : LSMTreeEngine → Label → Prop} {last : LSMTreeEngine}
    (step : Step config engine label after) (may : allowed engine label)
    (run : Run config allowed after labels last) :
    Run config allowed engine (label :: labels) last := by
  induction run with
  | opened =>
    have first : Run config allowed engine [] engine := .opened
    exact first.next step may
  | step _ may' step' ih => exact ih.next step' may'

lemma Finishes.step (step : Step config engine label after) (continues : NoStart label)
    (finishes : Finishes config after client) : Finishes config engine client := by
  obtain ⟨labels, last, run, idle⟩ := finishes
  exact ⟨_, last, Run.cons step continues run, idle⟩

lemma finishes_idle (stands : engine.clients client = .idle) :
    Finishes config engine client := ⟨[], engine, .opened, stands⟩

variable {call : Call} {answer : Answer}

lemma finishes_returning (stands : engine.clients client = .returning call answer) :
    Finishes config engine client := by
  apply Finishes.step (.finish stands) trivial
  exact finishes_idle (update_self ..)

section

variable (stands : engine.clients client = .helping call answer)
include stands

lemma clients_endPass (thrown : Option String) :
    (engine.endPass (some client) thrown).clients client =
      .returning call (thrown.elim answer .runtimeError) := by
  simp only [endPass, stands]
  exact update_self ..

lemma finishes_endPass (thrown : Option String) :
    Finishes config (engine.endPass (some client) thrown) client :=
  finishes_returning (clients_endPass stands thrown)

lemma finishes_helping {pass : Pass} (runs : engine.compaction = some ⟨some client, pass⟩) :
    Finishes config engine client := by
  -- From the back: each stage of the pass leads to the next one.
  have ofBuilt {engine : LSMTreeEngine} {tier : Nat} {toCompact : List SSTable}
      {newSst : Option SSTable} (stands : engine.clients client = .helping call answer)
      (runs : engine.compaction = some ⟨some client, .built tier toCompact newSst⟩) :
      Finishes config engine client := by
    cases persists : (engine.installCompacted tier toCompact newSst).persistManifest with
    | ok manifest =>
      apply Finishes.step (.compact runs persists) trivial
      apply finishes_endPass
      exact stands
    | error what =>
      apply Finishes.step (.compactThrows runs persists) trivial
      apply finishes_endPass
      exact stands
  have ofBuilding {engine : LSMTreeEngine} {tier id header : Nat} {toCompact : List SSTable}
      {merged : Entries} (stands : engine.clients client = .helping call answer)
      (runs : engine.compaction = some ⟨some client, .building tier toCompact id header merged⟩) :
      Finishes config engine client := by
    apply Finishes.step (.mergeEnd runs rfl) trivial
    exact ofBuilt stands rfl
  have ofSnapshot {engine : LSMTreeEngine} {tier : Nat} {toCompact : List SSTable}
      {bottommost : Bool} (stands : engine.clients client = .helping call answer)
      (runs : engine.compaction = some ⟨some client, .snapshot tier toCompact bottommost⟩) :
      Finishes config engine client := by
    by_cases empty : (compacted toCompact bottommost).entries = []
    · apply Finishes.step (.mergeNothing runs empty) trivial
      exact ofBuilt stands rfl
    · apply Finishes.step (.mergeStart runs empty) trivial
      exact ofBuilding stands rfl
  cases pass with
  | claimed =>
    cases found : engine.findTierNeedingCompaction config with
    | none =>
      apply Finishes.step (.nothingToDo runs found) trivial
      exact finishes_endPass stands none
    | some tier =>
      apply Finishes.step (.chooseTier runs found) trivial
      exact ofSnapshot stands rfl
  | snapshot => exact ofSnapshot stands runs
  | building => exact ofBuilding stands runs
  | built => exact ofBuilt stands runs

end

lemma finishes_backlogged (stands : engine.clients client = .flushing call answer .backlogged) :
    Finishes config engine client := by
  by_cases free : engine.compaction = none
  · apply Finishes.step (.help stands free) trivial
    exact finishes_helping (update_self ..) rfl
  · apply Finishes.step (.helpNot stands free) trivial
    exact finishes_returning (update_self ..)

lemma finishes_flushing {flush : Flush}
    (stands : engine.clients client = .flushing call answer flush) :
    Finishes config engine client := by
  have ofInstall {engine : LSMTreeEngine} {memTable : Nat} {table : SSTable}
      (stands : engine.clients client = .flushing call answer (.built memTable none table)) :
      Finishes config engine client := by
    cases persists : (engine.installFlushed memTable table).persistManifest with
    | ok manifest =>
      apply Finishes.step (.install stands persists) trivial
      by_cases large : (engine.installFlushed memTable table).backlogged = true
      · apply finishes_backlogged
        exact (update_self ..).trans (if_pos large)
      · apply finishes_returning
        exact (update_self ..).trans (if_neg large)
    | error what =>
      apply Finishes.step (.installThrows stands persists) trivial
      exact finishes_returning (update_self ..)
  have ofBuilt {engine : LSMTreeEngine} {memTable : Nat} {oldWal : Option Nat} {table : SSTable}
      (stands : engine.clients client = .flushing call answer (.built memTable oldWal table)) :
      Finishes config engine client := by
    cases oldWal with
    | none => exact ofInstall stands
    | some generation =>
      apply Finishes.step (.walRemove stands) trivial
      exact ofInstall (update_self ..)
  have ofBuilding {engine : LSMTreeEngine} {memTable id header : Nat} {oldWal : Option Nat}
      (stands : engine.clients client =
        .flushing call answer (.building memTable oldWal id header)) :
      Finishes config engine client := by
    apply Finishes.step (.buildEnd stands rfl) trivial
    exact ofBuilt (update_self ..)
  have ofRetired {engine : LSMTreeEngine} {memTable : Nat} {oldWal : Option Nat}
      (stands : engine.clients client = .flushing call answer (.retired memTable oldWal)) :
      Finishes config engine client := by
    by_cases empty : (engine.memTables memTable).entryCount = 0
    · apply Finishes.step (.flushNothing stands empty) trivial
      exact finishes_returning (update_self ..)
    · apply Finishes.step (.buildStart stands empty) trivial
      exact ofBuilding (update_self ..)
  cases flush with
  | due =>
    apply Finishes.step (.swap stands) trivial
    exact ofRetired (update_self ..)
  | retired => exact ofRetired stands
  | building => exact ofBuilding stands
  | built => exact ofBuilt stands
  | backlogged => exact finishes_backlogged stands

section

variable {undisturbed : KeyType → Prop} {value : KeyType → Option Bytes}

/-- A scan ends because each entry it delivers leaves fewer. -/
lemma finishes_scanning {memTable : Nat} {delivered : List (KeyType × Bytes)}
    (stands : engine.clients client = .scanning start memTable merge delivered)
    (ok : merge.Ok (engine.memTables memTable).list) : Finishes config engine client := by
  induction fuel : merge.size (engine.memTables memTable).list using Nat.strong_induction_on
    generalizing engine merge delivered with
  | h size ih =>
    have ended {engine : LSMTreeEngine} {merge : LSMMergeIterator}
        {delivered : List (KeyType × Bytes)}
        (stands : engine.clients client = .scanning start memTable merge delivered)
        (ended : merge.current = none) : Finishes config engine client := by
      apply Finishes.step (.scanEnd stands ended) trivial
      exact finishes_returning (update_self ..)
    cases valid : merge.current with
    | none => exact ended stands valid
    | some entry =>
      apply Finishes.step (.scanNext stands valid) trivial
      by_cases last :
          (merge.advance (engine.memTables memTable).list).current = none
      · exact ended (update_self ..) last
      · refine ih _ ?_ (update_self ..) ok.advance.1 rfl
        rw [← fuel]
        exact ok.size_advance last

lemma finishes_opening {start : KeyType} {snapshot : Snapshot}
    (stands : engine.clients client = .opening start snapshot) : Finishes config engine client := by
  apply Finishes.step (.scanOpen stands) trivial
  refine finishes_scanning (update_self ..) ?_
  exact (LSMMergeIterator.new_ok (scanCursors_ok _ _ _)).1

lemma finishes_afterWrite {call : Call} {engine' : LSMTreeEngine}
    (stands : engine.clients client = engine'.afterWrite config call answer) :
    Finishes config engine client := by
  rw [afterWrite] at stands
  split at stands
  · exact finishes_flushing stands
  · exact finishes_returning stands

/-- Every call can be brought to an end by the client that made it. -/
lemma finishes (helps : Helps engine.clients engine.compaction)
    (reads : Reads undisturbed value engine.memTables engine.active (engine.clients client)) :
    Finishes config engine client := by
  have ofLookedUp {engine : LSMTreeEngine} {key : KeyType} {existed : Bool}
      (stands : engine.clients client = .lookedUp key existed) :
      Finishes config engine client := by
    apply Finishes.step (.deleteWrite stands) trivial
    exact finishes_afterWrite (update_self ..)
  have ofDeleting {engine : LSMTreeEngine} {key : KeyType} {snapshot : Snapshot}
      (stands : engine.clients client = .deleting key snapshot) :
      Finishes config engine client := by
    apply Finishes.step (.deleteRead stands) trivial
    exact ofLookedUp (update_self ..)
  have ofGetting {engine : LSMTreeEngine} {key : KeyType} {snapshot : Snapshot}
      (stands : engine.clients client = .getting key snapshot) :
      Finishes config engine client := by
    apply Finishes.step (.getRead stands) trivial
    exact finishes_returning (update_self ..)
  cases stands : engine.clients client with
  | idle => exact finishes_idle stands
  | called call =>
    cases call with
    | get key =>
      apply Finishes.step (.getSnapshot stands) trivial
      exact ofGetting (update_self ..)
    | put key value =>
      by_cases large : MAX_VALUE_SIZE < value.length
      · apply Finishes.step (.putReject stands large) trivial
        exact finishes_returning (update_self ..)
      · apply Finishes.step (.putWrite stands (Nat.not_lt.mp large)) trivial
        exact finishes_afterWrite (update_self ..)
    | delete key =>
      apply Finishes.step (.deleteSnapshot stands) trivial
      exact ofDeleting (update_self ..)
    | scan start =>
      apply Finishes.step (.scanSnapshot stands) trivial
      exact finishes_opening (update_self ..)
    | close =>
      by_cases empty : (engine.memTables engine.active).entryCount = 0
      · apply Finishes.step (.closeNothing stands empty) trivial
        exact finishes_returning (update_self ..)
      · apply Finishes.step (.closeFlush stands empty) trivial
        exact finishes_flushing (update_self ..)
  | getting => exact ofGetting stands
  | deleting => exact ofDeleting stands
  | lookedUp => exact ofLookedUp stands
  | opening => exact finishes_opening stands
  | scanning =>
    rw [stands] at reads
    exact finishes_scanning stands reads.2.ok
  | flushing => exact finishes_flushing stands
  | helping call answer =>
    obtain ⟨pass, runs⟩ := helps client call answer stands
    exact finishes_helping stands runs
  | returning => exact finishes_returning stands

end

end DbEngine.Lsm
