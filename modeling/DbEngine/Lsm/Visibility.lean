import DbEngine.Lsm.FiniteMap

/-!
# Completed writes stay visible

Between the swap of a memtable and the installation of its table, the entries of the
memtable are in neither place where a reader looks.  A reader that takes its snapshot at any
other time sees every write that had returned when it was called.
-/

namespace DbEngine.Lsm

open Lib Function LSMTreeEngine

/-- One client writes, and no snapshot is taken while a memtable is on its way to a tier. -/
def Calm (writer : Nat) (engine : LSMTreeEngine) (label : Label) : Prop :=
  OneWriter writer label ∧ ∀ client, label = .snapshot client → engine.retired = []

/-- The call changes the key. -/
def Call.Changes (key : KeyType) : Call → Prop
  | .put other _ | .delete other => other = key
  | .get _ | .scan _ | .close => False

/-- The client is going to write the key. -/
def Client.WillWrite (key : KeyType) : Client → Prop
  | .called call => call.Changes key
  | .deleting other _ | .lookedUp other _ => other = key
  | .idle | .getting .. | .opening .. | .scanning .. | .flushing .. | .helping ..
  | .returning .. => False

variable {config : Config} {engine after : LSMTreeEngine} {label : Label} {writer : Nat}
  {key : KeyType}

section

variable {clients : Nat → Client}

lemma willWrite_update (calm : ∀ client, ¬ (clients client).WillWrite key)
    (own : ¬ state.WillWrite key) (client : Nat) :
    ¬ (update clients mover state client).WillWrite key := by
  by_cases same : client = mover
  · rw [same, update_self]
    exact own
  · rw [update_of_ne same]
    exact calm client

lemma willWrite_endPass (engine : LSMTreeEngine)
    (calm : ∀ client, ¬ (engine.clients client).WillWrite key) (runner : Option Nat)
    (thrown : Option String) (client : Nat) :
    ¬ ((engine.endPass runner thrown).clients client).WillWrite key := by
  cases runner with
  | none => exact calm client
  | some helper =>
    simp only [endPass]
    split
    · exact willWrite_update calm id client
    · exact calm client

end

/-- As long as no call that changes the key starts, nobody is going to write it. -/
lemma Step.willWrite (step : Step config engine label after)
    (calm : ∀ client, ¬ (engine.clients client).WillWrite key)
    (undisturbed : ∀ client call, label = .start client call → ¬ call.Changes key) :
    ∀ client, ¬ (after.clients client).WillWrite key := by
  have stood {mover : Nat} {state : Client} (stands : engine.clients mover = state) :
      ¬ state.WillWrite key := stands ▸ calm mover
  cases step with
  | start call => exact willWrite_update calm (undisturbed _ call rfl)
  | deleteSnapshot stands | deleteRead stands =>
    have other := stood stands
    exact willWrite_update calm other
  | putWrite | deleteWrite =>
    apply willWrite_update calm
    rw [afterWrite]
    split <;> exact id
  | install =>
    apply willWrite_update calm
    rw [afterFlush]
    split <;> exact id
  | swap =>
    rw [swapMemTable_eq]
    exact willWrite_update calm id
  | flushNothing =>
    rw [retire_eq]
    exact willWrite_update calm id
  | buildWrite | claim | chooseTier | mergeNothing | mergeStart | mergeWrite | mergeEnd
  | fileRemove => exact calm
  | nothingToDo | compact | compactThrows =>
    apply willWrite_endPass
    exact calm
  | _ => exact willWrite_update calm id

/-- Whoever writes a key was going to. -/
lemma Step.written_ne (step : Step config engine (.write client other) after)
    (calm : ∀ client, ¬ (engine.clients client).WillWrite key) : other ≠ key := by
  have stood := calm client
  cases step with
  | putWrite stands | deleteWrite stands =>
    rw [stands] at stood
    exact stood

/-! ## A value that stays -/

/-- The engine holds the value, and nobody is going to change it. -/
structure Stays (writer : Nat) (key : KeyType) (value : Bytes) (engine : LSMTreeEngine) : Prop where
  sound : Sound engine
  solo : Solo writer engine.clients engine.retired
  calm : ∀ client, ¬ (engine.clients client).WillWrite key
  contents : engine.contents key = some value

variable {value : Bytes}

lemma Stays.step (stays : Stays writer key value engine)
    (step : Step config engine label after) (one : OneWriter writer label)
    (undisturbed : ∀ client call, label = .start client call → ¬ call.Changes key) :
    Stays writer key value after := by
  refine ⟨stays.sound.step step, step.solo stays.solo one, step.willWrite stays.calm undisturbed, ?_⟩
  rw [← stays.contents]
  by_cases writes : ∃ client other, label = .write client other
  · obtain ⟨client, other, rfl⟩ := writes
    have ne := (step.written_ne stays.calm).symm
    cases step with
    | @putWrite _ _ written =>
      exact (contents_write stays.sound config other (.put written) key).trans (if_neg ne)
    | deleteWrite =>
      exact (contents_write stays.sound config other .delete key).trans (if_neg ne)
  · apply step.contents stays.sound (step.inOrder stays.solo)
    exact fun client other is => writes ⟨client, other, is⟩

variable {reader : Nat} {labels : List Label}

/-- What a reader reads of the key while it stays. -/
lemma Stays.reads (stays : Stays writer key value engine)
    (step : Step config engine label after) (calm : Calm writer engine label)
    (reads : Reads (· = key) (fun _ => some value) engine.memTables engine.active (engine.clients
      reader)) : Reads (· = key) (fun _ => some value) after.memTables after.active
      (after.clients reader) := by
  apply step.reads reads
  · rintro client other rfl
    exact step.written_ne stays.calm
  · intro snapshot query same
    rw [read_snapshot (calm.2 reader snapshot), same]
    exact stays.contents

/-! ## Runs -/

variable {allowed : LSMTreeEngine → Label → Prop} {opened : LSMTreeEngine}

lemma Run.split {first second : List Label}
    (run : Run config allowed opened (first ++ second) engine) :
    ∃ between, Run config allowed opened first between ∧
      Run config allowed between second engine := by
  generalize whole : first ++ second = labels at run
  induction run generalizing second with
  | opened =>
    obtain ⟨rfl, rfl⟩ := List.append_eq_nil_iff.mp whole
    exact ⟨_, .opened, .opened⟩
  | @step labels engine label after before may step ih =>
    rcases eq_nil_or_concat second with rfl | ⟨start, last, rfl⟩
    · rw [append_nil] at whole
      subst whole
      exact ⟨_, .step before may step, .opened⟩
    · rw [concat_eq_append, ← append_assoc] at whole
      obtain ⟨rfl, same⟩ := append_inj' whole rfl
      cases same
      obtain ⟨between, first, second⟩ := ih rfl
      rw [concat_eq_append]
      exact ⟨between, first, .step second may step⟩

lemma Run.last (run : Run config allowed opened (labels ++ [label]) engine) :
    ∃ before, Run config allowed opened labels before ∧ allowed before label ∧
      Step config before label engine := by
  generalize whole : labels ++ [label] = all at run
  cases run with
  | opened => exact absurd whole (List.append_ne_nil_of_right_ne_nil _ (cons_ne_nil _ _))
  | step before may step =>
    obtain ⟨rfl, same⟩ := append_inj' whole rfl
    cases same
    exact ⟨_, before, may, step⟩

lemma Run.eq_opened (run : Run config allowed opened [] engine) : engine = opened := by
  generalize none : ([] : List Label) = labels at run
  cases run with
  | opened => rfl
  | step => exact absurd none.symm (List.append_ne_nil_of_right_ne_nil _ (cons_ne_nil _ _))

lemma Run.first (run : Run config allowed opened (label :: labels) engine) :
    ∃ between, allowed opened label ∧ Step config opened label between ∧
      Run config allowed between labels engine := by
  have whole : Run config allowed opened ([label] ++ labels) engine := run
  obtain ⟨between, one, rest⟩ := whole.split
  have one : Run config allowed opened ([] ++ [label]) between := one
  obtain ⟨before, none, may, step⟩ := one.last
  rw [none.eq_opened] at may step
  exact ⟨between, may, step, rest⟩

/-- No call that changes the key starts. -/
def Undisturbed (key : KeyType) (labels : List Label) : Prop :=
  ∀ client call, .start client call ∈ labels → ¬ call.Changes key

lemma Run.stays (stays : Stays writer key value opened) (undisturbed : Undisturbed key labels)
    (run : Run config (Calm writer) opened labels engine) : Stays writer key value engine := by
  induction run with
  | opened => exact stays
  | step _ calm step ih =>
    have before := ih fun client call mem =>
      undisturbed client call (mem_append_left _ mem)
    apply before.step step calm.1
    rintro client call rfl
    exact undisturbed client call (mem_append_right _ (mem_singleton_self _))

lemma Run.reads (stays : Stays writer key value opened) (undisturbed : Undisturbed key labels)
    (reads : Reads (· = key) (fun _ => some value) opened.memTables opened.active (opened.clients
      reader)) (run : Run config (Calm writer) opened labels engine) :
    Reads (· = key) (fun _ => some value) engine.memTables engine.active
      (engine.clients reader) := by
  induction run with
  | opened => exact reads
  | step before calm step ih =>
    have earlier : Undisturbed key _ := fun client call mem =>
      undisturbed client call (mem_append_left _ mem)
    exact (before.stays stays earlier).reads step calm (ih earlier)

end DbEngine.Lsm
