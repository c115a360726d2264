import DbEngine.Mvcc.FirstCommitter

/-!
# Whole runs and their events

A schedule is a list of steps; running it yields the events of the run in order.  Some
results hold for the runs whose steps all meet a condition on the state they are taken
in, which `AtEvery` states of a schedule.
-/

namespace DbEngine.Mvcc

open Function

/-- Run a schedule and collect its events, if each step can be taken where it stands. -/
def runTrace : List Action → Machine → Option (List Event × Machine)
  | [], machine => some ([], machine)
  | action :: rest, machine =>
    match machine.step action with
    | none => none
    | some (event, machine') =>
      (runTrace rest machine').map fun (events, final) => (event :: events, final)

/-- What an observer of the events knows. -/
def History.ofEvents (events : List Event) : History :=
  events.foldl History.record {}

/-- Every step of a schedule is taken in a state that allows it. -/
def AtEvery (allowed : Machine → Action → Prop) : List Action → Machine → Prop
  | [], _ => True
  | action :: rest, machine => allowed machine action ∧
      match machine.step action with
      | none => True
      | some (_, machine') => AtEvery allowed rest machine'

section

variable {machine final : Machine} {action : Action} {rest : List Action} {events : List Event}

/-- A run takes its first step and runs the rest. -/
lemma runTrace_cons (ran : runTrace (action :: rest) machine = some (events, final)) :
    ∃ event machine' later, machine.step action = some (event, machine') ∧
      runTrace rest machine' = some (later, final) ∧ events = event :: later := by
  simp only [runTrace] at ran
  split at ran
  · cases ran
  next event machine' stepped =>
    obtain ⟨⟨later, last⟩, ranRest, equal⟩ := map_eq_some_iff.mp ran
    cases equal
    exact ⟨event, machine', later, stepped, ranRest, rfl⟩

lemma runTrace_cons_eq (stepped : machine.step action = some (event, machine'))
    (ran : runTrace rest machine' = some (later, final)) :
    runTrace (action :: rest) machine = some (event :: later, final) := by
  simp [runTrace, stepped, ran]

lemma run_of_runTrace (ran : runTrace schedule machine = some (events, final)) (history : History) :
    Relation.ReflTransGen (Step fun _ => True) (machine, history)
      (final, events.foldl History.record history) := by
  induction schedule generalizing machine events history with
  | nil =>
    cases ran
    exact .refl
  | cons action rest ih =>
    obtain ⟨event, machine', later, stepped, ranRest, rfl⟩ := runTrace_cons ran
    have taken : Step (fun _ => True) (machine, history)
        (machine', history.record event) := ⟨action, event, trivial, stepped, rfl⟩
    exact .head taken (ih ranRest (history.record event))

lemma AtEvery.tail {allowed : Machine → Action → Prop}
    (every : AtEvery allowed (action :: rest) machine)
    (stepped : machine.step action = some (event, machine')) : AtEvery allowed rest machine' := by
  have later := every.2
  rw [stepped] at later
  exact later

end

/-- What every allowed step keeps holds after every run. -/
lemma invariant_of_trace {allowed : Machine → Action → Prop}
    (property : Machine → List Event → Prop)
    (step : ∀ {machine past action event machine'}, property machine past →
      allowed machine action → machine.step action = some (event, machine') →
      property machine' (past ++ [event])) (start : property machine past)
    (every : AtEvery allowed schedule machine)
    (ran : runTrace schedule machine = some (events, final)) : property final (past ++ events) := by
  induction schedule generalizing machine past events with
  | nil =>
    cases ran
    rw [append_nil]
    exact start
  | cons action rest ih =>
    obtain ⟨event, machine', later, stepped, ranRest, rfl⟩ := runTrace_cons ran
    have kept := ih (step start every.1 stepped) (every.tail stepped) ranRest
    rw [append_assoc] at kept
    exact kept

lemma ofEvents_append_singleton (past : List Event) (event : Event) :
    History.ofEvents (past ++ [event]) = (History.ofEvents past).record event := by
  simp [History.ofEvents]

/-! ## What a step leaves to the other transactions -/

/-- The transaction whose thread takes a step. -/
def Action.actor (machine : Machine) : Action → Option TxnId
  | .drawTxnId _ => some machine.nextTxnId
  | .drawStartTs txnId | .register txnId | .read txnId _ | .write txnId _ _ _
  | .beginCommit txnId | .lookupChain txnId | .lockChain txnId | .validate txnId
  | .drawCommitTs txnId | .markVersion txnId | .unlockChain txnId | .abort txnId
  | .eraseVersion txnId | .close txnId => some txnId
  | .gcBegin _ | .gcCollect _ | .gcSweep _ _ | .gcEnd _ => none

section

variable {machine machine' : Machine} {history : History} {action : Action} {event : Event}
variable {other : TxnId}

/-- A step moves only the thread of its actor. -/
lemma thread_of_not_actor (stepped : machine.step action = some (event, machine'))
    (foreign : action.actor machine ≠ some other) :
    machine'.thread other = machine.thread other := by
  cases transition_of_step stepped with
  | readMissing | read | overwrite | push | collector | gcSweep => rfl
  | _ =>
    apply update_of_ne
    rintro rfl
    exact foreign rfl

/-- A step changes only the bookkeeping of its actor. -/
lemma txns_of_not_actor (stepped : machine.step action = some (event, machine'))
    (foreign : action.actor machine ≠ some other) : machine'.txns other = machine.txns other := by
  cases transition_of_step stepped with
  | register | readMissing | read | push | abort | close =>
    apply update_of_ne
    rintro rfl
    exact foreign rfl
  | _ => rfl

/-- A step leaves every chain alone that another transaction has locked. -/
lemma table_of_not_actor (inv : Inv machine history)
    (stepped : machine.step action = some (event, machine'))
    (foreign : action.actor machine ≠ some other) (lookup : machine.table key = some chain)
    (mutex : chain.mutex = some other) : machine'.table key = some chain := by
  -- A chain without an owner is another one.
  have elsewhere : ∀ {query updated}, ((machine.table query).getD {}).mutex = none →
      update machine.table query (some updated) key = some chain := by
    intro query updated unlocked
    rw [update_of_ne, lookup]
    rintro rfl
    rw [lookup, getD_some, mutex] at unlocked
    cases unlocked
  have owned : ∀ {query updated actor}, action.actor machine = some actor →
      query ∈ (machine.thread actor).held →
      update machine.table query (some updated) key = some chain := by
    intro query updated actor isActor held
    rw [update_of_ne, lookup]
    rintro rfl
    obtain ⟨found, lookup', mutex'⟩ := (inv.threads actor).locked key held
    rw [lookup] at lookup'
    cases lookup'
    rw [mutex] at mutex'
    cases mutex'
    exact foreign isActor
  cases transition_of_step stepped with
  | overwrite _ _ unlocked _ | push _ _ unlocked _ => exact elsewhere unlocked
  | lockChain _ found unlocked | eraseVersion _ found unlocked
  | gcSweep _ found unlocked => exact elsewhere (by rw [found]; exact unlocked)
  | @markVersion actor commitTs record todo held _ thread found =>
    have position := (inv.own thread).position
    apply owned rfl
    rw [thread]
    exact (position.remaining record.key (by simp [recordKeys])).2
  | @unlockChain actor query held success _ thread found =>
    apply owned rfl
    rw [thread]
    exact mem_cons_self
  | _ => exact lookup

end

/-! ## Evaluating schedules

The sorts of `Commit` and of a sweep are by well-founded recursion and do not evaluate.
On a concrete schedule they are replaced by lists that are checked to be sorted. -/

/-- The keys `Commit` validates, unsorted. -/
def Transaction.checkSet (txn : Transaction) : Finset KeyType :=
  match txn.isolation with
  | .serializableSnapshot => txn.writeSet ∪ txn.readSet
  | _ => txn.writeSet

/-- A step that sorts by picking from `keys`, and sweeps sorted chains only. -/
def Machine.evalStep (keys : List KeyType) (machine : Machine) :
    Action → Option (Event × Machine)
  | .beginCommit txnId =>
    match machine.thread txnId, machine.txns txnId with
    | .idle, some txn =>
      let picked := keys.filter fun key => decide (key ∈ txn.checkSet)
      if picked.Pairwise (· < ·) ∧ picked.toFinset = txn.checkSet then
        some (.silent, machine.setThread txnId (.lookingUp picked []))
      else none
    | _, _ => none
  | .gcSweep pass key =>
    match machine.collector pass, machine.table key with
    | .sweeping starts, some chain =>
      let committed := chain.versions.filter (·.committed)
      if chain.mutex = none ∧
          committed.Pairwise (fun left right => left.commitTs ≤ right.commitTs) then
        some (.silent, machine.setChain key { chain with
          versions := chain.versions.filter fun version =>
            decide (version.node ∉ reclaimable starts committed) })
      else none
    | _, _ => none
  | action => machine.step action

/-- Evaluate a schedule whose steps are all allowed where they are taken. -/
def evalTrace (keys : List KeyType) (allowed : Machine → Action → Bool) :
    List Action → Machine → Option (List Event × Machine)
  | [], machine => some ([], machine)
  | action :: rest, machine =>
    if allowed machine action then
      match machine.evalStep keys action with
      | none => none
      | some (event, machine') =>
        (evalTrace keys allowed rest machine').map fun (events, final) =>
          (event :: events, final)
    else none

section

variable {machine : Machine} {keys : List KeyType}

lemma checkKeys_eq_of_picked {txn : Transaction} {picked : List KeyType}
    (sorted : picked.Pairwise (· < ·)) (same : picked.toFinset = txn.checkSet) :
    txn.checkKeys = picked := by
  have isSort : txn.checkKeys = txn.checkSet.sort := by
    unfold Transaction.checkKeys Transaction.checkSet
    cases txn.isolation <;> rfl
  rw [isSort, ← same]
  exact (List.toFinset_sort _ (sorted.imp fun less => ne_of_lt less)).mpr
    (sorted.imp fun less => le_of_lt less)

lemma step_of_evalStep {action : Action} {result : Event × Machine}
    (evaluated : machine.evalStep keys action = some result) :
    machine.step action = some result := by
  cases action with
  | beginCommit txnId =>
    simp only [Machine.evalStep] at evaluated
    split at evaluated
    next txn thread known =>
      split at evaluated
      next picks =>
        simp only [Machine.step, thread, known, checkKeys_eq_of_picked picks.1 picks.2]
        exact evaluated
      · cases evaluated
    · cases evaluated
  | gcSweep pass key =>
    simp only [Machine.evalStep] at evaluated
    split at evaluated
    next starts chain collector lookup =>
      split at evaluated
      next ready =>
        have sorted : committedInOrder chain.versions = chain.versions.filter (·.committed) :=
          List.mergeSort_of_pairwise (ready.2.imp fun le => decide_eq_true le)
        simp only [Machine.step, collector, lookup, if_pos ready.1, sweepChain, sorted]
        exact evaluated
      · cases evaluated
    · cases evaluated
  | _ => exact evaluated

/-- What a schedule evaluates to is what running it yields. -/
lemma runTrace_of_evalTrace
    (evaluated : evalTrace keys allowed schedule machine = some (events, final)) :
    runTrace schedule machine = some (events, final) ∧
      AtEvery (fun machine action => allowed machine action = true) schedule machine := by
  induction schedule generalizing machine events with
  | nil => exact ⟨evaluated, trivial⟩
  | cons action rest ih =>
    simp only [evalTrace] at evaluated
    split at evaluated
    next permitted =>
      split at evaluated
      · cases evaluated
      next event machine' stepped =>
        obtain ⟨⟨later, last⟩, ran, equal⟩ := map_eq_some_iff.mp evaluated
        cases equal
        have taken := step_of_evalStep stepped
        obtain ⟨ranRest, every⟩ := ih ran
        refine ⟨runTrace_cons_eq taken ranRest, permitted, ?_⟩
        rw [taken]
        exact every
    · cases evaluated

end

end DbEngine.Mvcc
