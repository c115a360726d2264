import DbEngine.Common.Lists

/-!
# Logs of transactions that can be undone

A log of blind writes by transactions whose names may be used again.  Each write that is
not committed is pending until it is undone, newest first, by restoring what the key held
before it.  When no transaction writes a key that another has pending, undoing everything
that is pending, in any order, leaves what the committed transactions alone would have
written, and replaying a part of the log a second time changes nothing.
-/

namespace DbEngine.Lib.TransactionLog

open Function

universe u v w

variable {Txn : Type u} {Key : Type v} {Value : Type w}

/-- What a log says about transactions and the map they write. -/
inductive Entry (Txn : Type u) (Key : Type v) (Value : Type w) where
  | begin (txn : Txn)
  | write (txn : Txn) (key : Key) (value : Option Value)
  /-- The newest pending write of the transaction is undone; `value` was there before. -/
  | undo (txn : Txn) (key : Key) (value : Option Value)
  | commit (txn : Txn)
  deriving Repr, DecidableEq

variable [DecidableEq Key]

/-! ## Replaying -/

/-- The map after one entry. -/
def Entry.apply (map : Key → Option Value) : Entry Txn Key Value → Key → Option Value
  | .write _ key value | .undo _ key value => update map key value
  | .begin _ | .commit _ => map

/-- The map after all writes and undos of a log. -/
def replay (log : List (Entry Txn Key Value)) (map : Key → Option Value) :
    Key → Option Value :=
  log.foldl Entry.apply map

lemma replay_append (first second : List (Entry Txn Key Value)) (map : Key → Option Value) :
    replay (first ++ second) map = replay second (replay first map) :=
  foldl_append

/-- The last value a log gives to a key. -/
def lastWrite (key : Key) : List (Entry Txn Key Value) → Option (Option Value)
  | [] => none
  | .write _ written value :: rest | .undo _ written value :: rest =>
    (lastWrite key rest).or (if written = key then some value else none)
  | .begin _ :: rest | .commit _ :: rest => lastWrite key rest

lemma replay_apply (log : List (Entry Txn Key Value)) (map : Key → Option Value) (key : Key) :
    replay log map key = (lastWrite key log).getD (map key) := by
  induction log generalizing map with
  | nil => rfl
  | cons entry rest ih =>
    have step : replay (entry :: rest) map key = (lastWrite key rest).getD
        (entry.apply map key) := ih _
    rw [step]
    cases entry with
    | begin | commit => rfl
    | write _ written value | undo _ written value =>
      simp only [Entry.apply, lastWrite]
      cases lastWrite key rest with
      | some found => rfl
      | none =>
        by_cases same : written = key
        · simp [same]
        · simp [same, Ne.symm same]

/-- Replaying a part of the log a second time changes nothing. -/
lemma replay_overlap (first middle last : List (Entry Txn Key Value)) (map : Key → Option Value) :
    replay (middle ++ last) (replay (first ++ middle) map) =
      replay (first ++ (middle ++ last)) map := by
  have again (start : Key → Option Value) :
      replay middle (replay middle start) = replay middle start := by
    funext key
    rw [replay_apply, replay_apply]
    cases lastWrite key middle <;> rfl
  simp only [replay_append]
  rw [again]

/-! ## Pending writes -/

variable [DecidableEq Txn]

/-- What a log leaves. -/
structure State (Txn : Type u) (Key : Type v) (Value : Type w) where
  contents : Key → Option Value := fun _ => none
  /-- The writes that are neither committed nor undone, newest first, each with what the
  key held before. -/
  pending : Txn → List (Key × Option Value) := fun _ => []
  /-- Begun, and neither committed nor undone in part. -/
  live : Txn → Bool := fun _ => false

namespace State

def step (state : State Txn Key Value) (entry : Entry Txn Key Value) : State Txn Key Value where
  contents := entry.apply state.contents
  pending :=
    match entry with
    | .begin txn | .commit txn => update state.pending txn []
    | .write txn key _ =>
      update state.pending txn ((key, state.contents key) :: state.pending txn)
    | .undo txn _ _ => update state.pending txn (state.pending txn).tail
  live :=
    match entry with
    | .begin txn => update state.live txn true
    | .write _ _ _ => state.live
    | .undo txn _ _ | .commit txn => update state.live txn false

/-- The state after a log. -/
def scan (log : List (Entry Txn Key Value)) : State Txn Key Value :=
  log.foldl step {}

@[simp] lemma scan_concat (log : List (Entry Txn Key Value)) (entry : Entry Txn Key Value) :
    scan (log ++ [entry]) = (scan log).step entry :=
  foldl_append

lemma scan_contents (log : List (Entry Txn Key Value)) :
    (scan log).contents = replay log fun _ => none := by
  induction log using reverseRecOn with
  | nil => rfl
  | append_singleton log entry ih =>
    rw [scan_concat, replay_append, ← ih]
    rfl

/-- The transaction has a pending write of the key. -/
def Holds (state : State Txn Key Value) (txn : Txn) (key : Key) : Prop :=
  ∃ before, (key, before) ∈ state.pending txn

end State

open State

/-! ## Orderly logs -/

/-- What a log must say for its entries to mean what they mean: a name is used again only
when nothing is pending under it, and the newest pending write is undone first. -/
def Orderly (state : State Txn Key Value) : Entry Txn Key Value → Prop
  | .begin txn => state.pending txn = []
  | .write _ _ _ => True
  | .undo txn key value => ∃ rest, state.pending txn = (key, value) :: rest
  | .commit txn => state.live txn = true

/-- No transaction writes a key that another has pending. -/
def Exclusive (state : State Txn Key Value) : Entry Txn Key Value → Prop
  | .write txn key _ => ∀ other, state.Holds other key → other = txn
  | .begin _ | .undo _ _ _ | .commit _ => True

/-- A log all of whose entries were allowed when they were appended. -/
inductive Built (allowed : State Txn Key Value → Entry Txn Key Value → Prop) :
    List (Entry Txn Key Value) → Prop where
  | nil : Built allowed []
  | concat {log : List (Entry Txn Key Value)} {entry : Entry Txn Key Value}
      (before : Built allowed log) (may : allowed (scan log) entry) :
      Built allowed (log ++ [entry])

/-! ## The committed transactions -/

/-- Whether the transaction that is running under a name commits in the rest of the log;
`atEnd` decides for those that are still running at its end. -/
def commits (atEnd : Txn → Bool) (txn : Txn) : List (Entry Txn Key Value) → Bool
  | [] => atEnd txn
  | .commit other :: rest => if other = txn then true else commits atEnd txn rest
  | .begin other :: rest => if other = txn then false else commits atEnd txn rest
  | .write _ _ _ :: rest | .undo _ _ _ :: rest => commits atEnd txn rest

/-- The writes of the transactions that commit, in log order. -/
def committedFrom (atEnd : Txn → Bool) (map : Key → Option Value) :
    List (Entry Txn Key Value) → Key → Option Value
  | [] => map
  | .write txn key value :: rest =>
    committedFrom atEnd (if commits atEnd txn rest then update map key value else map)
      rest
  | .begin _ :: rest | .undo _ _ _ :: rest | .commit _ :: rest => committedFrom atEnd map rest

/-- The map of exactly the transactions whose commit is in the log. -/
def committed (log : List (Entry Txn Key Value)) : Key → Option Value :=
  committedFrom (fun _ => false) (fun _ => none) log

/-- How the fate of the running transactions is decided by one more entry. -/
def decideBy (atEnd : Txn → Bool) : Entry Txn Key Value → Txn → Bool
  | .begin txn => update atEnd txn false
  | .commit txn => update atEnd txn true
  | .write _ _ _ | .undo _ _ _ => atEnd

omit [DecidableEq Key] in
lemma commits_concat (atEnd : Txn → Bool) (txn : Txn) (log : List (Entry Txn Key Value))
    (entry : Entry Txn Key Value) :
    commits atEnd txn (log ++ [entry]) = commits (decideBy atEnd entry) txn log := by
  induction log with
  | nil =>
    cases entry with
    | begin other | commit other =>
      by_cases same : other = txn
      · subst same
        simp [commits, decideBy]
      · simp [commits, decideBy, same, Ne.symm same]
    | write | undo => rfl
  | cons head rest ih =>
    cases head with
    | begin other | commit other => simp only [cons_append, commits, ih]
    | write | undo => exact ih

lemma committedFrom_concat (atEnd : Txn → Bool) (map : Key → Option Value)
    (log : List (Entry Txn Key Value)) (entry : Entry Txn Key Value) :
    committedFrom atEnd map (log ++ [entry]) = match entry with
      | .write txn key value =>
        if atEnd txn then update (committedFrom atEnd map log) key value
        else committedFrom atEnd map log
      | entry => committedFrom (decideBy atEnd entry) map log := by
  induction log generalizing map with
  | nil => cases entry <;> rfl
  | cons head rest ih =>
    cases head with
    | write txn key value =>
      simp only [cons_append, committedFrom, ih, commits_concat]
      cases entry <;> rfl
    | _ => exact ih map

variable {log : List (Entry Txn Key Value)} {key : Key}

/-- A transaction that commits wrote what the key has. -/
lemma committedFrom_eq_some (found : committedFrom atEnd map log key = some value) :
    map key = some value ∨ ∃ before txn after,
      log = before ++ .write txn key (some value) :: after ∧ commits atEnd txn after = true := by
  induction log generalizing map with
  | nil => exact .inl found
  | cons entry rest ih =>
    have later : (∃ before txn after, rest = before ++ .write txn key (some value) :: after ∧
        commits atEnd txn after = true) → ∃ before txn after,
          entry :: rest = before ++ .write txn key (some value) :: after ∧
            commits atEnd txn after = true := by
      rintro ⟨before, txn, after, rfl, commit⟩
      exact ⟨entry :: before, txn, after, rfl, commit⟩
    cases entry with
    | write txn written image =>
      rcases ih found with here | deeper
      · by_cases commit : commits atEnd txn rest = true
        · rw [if_pos commit] at here
          by_cases same : key = written
          · subst same
            rw [update_self] at here
            subst here
            exact .inr ⟨[], txn, rest, rfl, commit⟩
          · rw [update_of_ne same] at here
            exact .inl here
        · rw [if_neg commit] at here
          exact .inl here
      · exact .inr (later deeper)
    | _ => exact (ih found).imp_right later

/-! ## Undoing what is pending -/

/-- What the oldest pending write of a key restores. -/
def oldest (key : Key) : List (Key × Option Value) → Option (Option Value)
  | [] => none
  | (written, before) :: rest =>
    (oldest key rest).or (if written = key then some before else none)

lemma oldest_eq_none : oldest key stack = none ↔ ∀ before, (key, before) ∉ stack := by
  induction stack with
  | nil => simp [oldest]
  | cons head rest ih =>
    rw [oldest, Option.or_eq_none_iff, ih]
    constructor
    · intro absent before mem
      rcases mem_cons.mp mem with same | mem
      · rw [← same] at absent
        simp at absent
      · exact absent.1 before mem
    · intro absent
      constructor
      · exact fun before mem => absent before (mem_cons_of_mem _ mem)
      · apply if_neg
        intro same
        exact absent head.2 (same ▸ mem_cons_self)

/-- The invariant of exclusive logs: were the running transactions that `atEnd` names to
commit, a key they have pending would keep its value, and any other pending key would have
what its oldest pending write restores. -/
structure Recoverable (log : List (Entry Txn Key Value)) : Prop where
  disjoint : ∀ {txn other key}, (scan log).Holds txn key → (scan log).Holds other key →
    txn = other
  held : ∀ {atEnd : Txn → Bool} {txn key before},
    (∀ txn, atEnd txn = true → (scan log).live txn = true) →
    oldest key ((scan log).pending txn) = some before →
    committedFrom atEnd (fun _ => none) log key =
      if atEnd txn then (scan log).contents key else before
  free : ∀ {atEnd : Txn → Bool} {key},
    (∀ txn, atEnd txn = true → (scan log).live txn = true) →
    (∀ txn, ¬ (scan log).Holds txn key) →
    committedFrom atEnd (fun _ => none) log key = (scan log).contents key

namespace Recoverable

variable {log : List (Entry Txn Key Value)} {txn : Txn} {key : Key} {value : Option Value}

lemma of_oldest (found : oldest key stack = some before) : ∃ before, (key, before) ∈ stack := by
  by_contra absent
  rw [oldest_eq_none.mpr fun before mem => absent ⟨before, mem⟩] at found
  cases found

lemma nil : Recoverable ([] : List (Entry Txn Key Value)) where
  disjoint := nofun
  held := nofun
  free := fun _ _ => rfl

lemma concat_begin (recoverable : Recoverable log) (idle : (scan log).pending txn = []) :
    Recoverable (log ++ [.begin txn]) := by
  have pending : (scan (log ++ [.begin txn])).pending = (scan log).pending := by
    rw [scan_concat]
    exact update_eq_self_iff.mpr idle.symm
  have holds (other : Txn) (key : Key) :
      (scan (log ++ [.begin txn])).Holds other key ↔ (scan log).Holds other key := by
    rw [State.Holds, State.Holds, pending]
  have lived {atEnd : Txn → Bool}
      (live : ∀ other, atEnd other = true → (scan (log ++ [.begin txn])).live other = true) :
      ∀ other, update atEnd txn false other = true →
        (scan log).live other = true := by
    intro other chosen
    by_cases same : other = txn
    · subst same
      simp at chosen
    · simpa [State.step, same] using live other (by simpa [same] using chosen)
  constructor
  · intro other other' key
    rw [holds, holds]
    exact recoverable.disjoint
  · intro atEnd other key before live found
    rw [pending] at found
    have ne : other ≠ txn := by
      intro same
      rw [same, idle] at found
      cases found
    rw [committedFrom_concat]
    have old := recoverable.held (lived live) found
    simpa [decideBy, ne, State.step, Entry.apply] using old
  · intro atEnd key live unheld
    rw [committedFrom_concat]
    have old := recoverable.free (lived live) fun other held => unheld other ((holds _ _).mpr held)
    simpa [decideBy, State.step, Entry.apply] using old

lemma concat_commit (recoverable : Recoverable log) (live : (scan log).live txn = true) :
    Recoverable (log ++ [.commit txn]) := by
  have holds {other : Txn} {key : Key} (held : (scan (log ++ [.commit txn])).Holds other key) :
      other ≠ txn ∧ (scan log).Holds other key := by
    obtain ⟨before, mem⟩ := held
    by_cases same : other = txn
    · subst same
      simp [State.step] at mem
    · exact ⟨same, before, by simpa [State.step, same] using mem⟩
  have lived {atEnd : Txn → Bool} (chosen : ∀ other, atEnd other = true →
        (scan (log ++ [.commit txn])).live other = true) :
      ∀ other, update atEnd txn true other = true →
        (scan log).live other = true := by
    intro other named
    by_cases same : other = txn
    · subst same
      exact live
    · simpa [State.step, same] using chosen other (by simpa [same] using named)
  constructor
  · intro other other' key held held'
    exact recoverable.disjoint (holds held).2 (holds held').2
  · intro atEnd other key before chosen found
    have ne := (holds (of_oldest found)).1
    rw [committedFrom_concat]
    have found : oldest key ((scan log).pending other) = some before := by
      simpa [State.step, ne] using found
    simpa [decideBy, ne, State.step, Entry.apply] using recoverable.held (lived chosen) found
  · intro atEnd key chosen unheld
    rw [committedFrom_concat]
    -- A key the transaction wrote now keeps its value for good.
    cases found : oldest key ((scan log).pending txn) with
    | some before =>
      simpa [decideBy, State.step, Entry.apply] using recoverable.held (lived chosen) found
    | none =>
      have unheld' : ∀ other, ¬ (scan log).Holds other key := by
        intro other held
        obtain ⟨before, mem⟩ := held
        by_cases same : other = txn
        · subst same
          exact oldest_eq_none.mp found before mem
        · exact unheld other ⟨before, by simpa [State.step, same] using mem⟩
      simpa [decideBy, State.step, Entry.apply] using recoverable.free (lived chosen) unheld'

lemma concat_undo (recoverable : Recoverable log)
    (top : (scan log).pending txn = (key, value) :: rest) :
    Recoverable (log ++ [.undo txn key value]) := by
  have here : (scan log).Holds txn key := ⟨value, top ▸ mem_cons_self⟩
  have holds {other : Txn} {query : Key}
      (held : (scan (log ++ [.undo txn key value])).Holds other query) :
      (scan log).Holds other query := by
    obtain ⟨before, mem⟩ := held
    by_cases same : other = txn
    · subst same
      have mem : (query, before) ∈ rest := by simpa [State.step, top] using mem
      exact ⟨before, top ▸ mem_cons_of_mem _ mem⟩
    · exact ⟨before, by simpa [State.step, same] using mem⟩
  have lived {atEnd : Txn → Bool} (chosen : ∀ other, atEnd other = true →
        (scan (log ++ [.undo txn key value])).live other = true) :
      atEnd txn = false ∧ ∀ other, atEnd other = true → (scan log).live other = true := by
    constructor
    · cases named : atEnd txn with
      | false => rfl
      | true =>
        have impossible := chosen txn named
        simp [State.step] at impossible
    · intro other named
      have known := chosen other named
      by_cases same : other = txn
      · subst same
        simp [State.step] at known
      · simpa [State.step, same] using known
  constructor
  · intro other other' query held held'
    exact recoverable.disjoint (holds held) (holds held')
  · intro atEnd other query before chosen found
    have known := lived chosen
    rw [committedFrom_concat]
    by_cases same : other = txn
    · subst same
      have found : oldest query ((scan log).pending other) = some before := by
        have found : oldest query rest = some before := by simpa [State.step, top] using found
        rw [top, oldest, found]
        rfl
      simpa [decideBy, known.1] using recoverable.held known.2 found
    · have found' : oldest query ((scan log).pending other) = some before := by
        simpa [State.step, same] using found
      have ne : query ≠ key := by
        intro same'
        subst same'
        exact same (recoverable.disjoint (of_oldest found') here)
      simpa [decideBy, State.step, Entry.apply, ne] using recoverable.held known.2 found'
  · intro atEnd query chosen unheld
    have known := lived chosen
    rw [committedFrom_concat]
    by_cases same : query = key
    · subst same
      have gone : oldest query rest = none := by
        rw [oldest_eq_none]
        intro before mem
        exact unheld txn ⟨before, by simpa [State.step, top] using mem⟩
      have found : oldest query ((scan log).pending txn) = some value := by
        rw [top, oldest, gone]
        simp
      simpa [decideBy, known.1, State.step, Entry.apply] using recoverable.held known.2 found
    · have unheld' : ∀ other, ¬ (scan log).Holds other query := by
        intro other held
        obtain ⟨before, mem⟩ := held
        apply unheld other
        refine ⟨before, ?_⟩
        by_cases same' : other = txn
        · subst same'
          rw [top] at mem
          rcases mem_cons.mp mem with impossible | mem
          · exact absurd (congrArg Prod.fst impossible) same
          · simpa [State.step, top] using mem
        · simpa [State.step, same'] using mem
      simpa [decideBy, State.step, Entry.apply, same] using recoverable.free known.2 unheld'

lemma concat_write (recoverable : Recoverable log)
    (exclusive : ∀ other, (scan log).Holds other key → other = txn) :
    Recoverable (log ++ [.write txn key value]) := by
  have holds {other : Txn} {query : Key}
      (held : (scan (log ++ [.write txn key value])).Holds other query) :
      other = txn ∧ query = key ∨ (scan log).Holds other query := by
    obtain ⟨before, mem⟩ := held
    by_cases same : other = txn
    · subst same
      simp only [scan_concat, State.step, update_self, mem_cons, Prod.mk.injEq] at mem
      rcases mem with ⟨same, -⟩ | mem
      · exact .inl ⟨rfl, same⟩
      · exact .inr ⟨before, mem⟩
    · exact .inr ⟨before, by simpa [State.step, same] using mem⟩
  have unchanged : (scan (log ++ [.write txn key value])).live = (scan log).live := by
    rw [scan_concat]
    rfl
  constructor
  · intro other other' query held held'
    rcases holds held with ⟨same, here⟩ | before
    · subst same here
      rcases holds held' with ⟨same, -⟩ | before'
      · exact same.symm
      · exact (exclusive other' before').symm
    · rcases holds held' with ⟨same, here⟩ | before'
      · subst same here
        exact exclusive other before
      · exact recoverable.disjoint before before'
  · intro atEnd other query before live found
    rw [unchanged] at live
    rw [committedFrom_concat]
    by_cases same : other = txn
    · subst same
      cases earlier : oldest query ((scan log).pending other) with
      | some image =>
        have same : image = before := by
          simpa [State.step, oldest, earlier] using found
        subst same
        have old := recoverable.held live earlier
        by_cases chosen : atEnd other = true
        · by_cases here : query = key
          · simp [chosen, here, State.step, Entry.apply]
          · simpa [chosen, here, State.step, Entry.apply] using old
        · simpa [chosen, State.step, Entry.apply] using old
      | none =>
        -- The first write of the key: nobody had it pending.
        have both : key = query ∧ (scan log).contents key = before := by
          simpa [State.step, oldest, earlier] using found
        obtain ⟨here, image⟩ := both
        subst here image
        have unheld : ∀ other', ¬ (scan log).Holds other' key := by
          intro other' held
          have same := exclusive other' held
          subst same
          obtain ⟨before, mem⟩ := held
          exact oldest_eq_none.mp earlier before mem
        by_cases chosen : atEnd other = true
        · simp [chosen, State.step, Entry.apply]
        · simpa [chosen] using recoverable.free live unheld
    · have found' : oldest query ((scan log).pending other) = some before := by
        simpa [State.step, same] using found
      have ne : query ≠ key := by
        intro here
        subst here
        exact same (exclusive other (of_oldest found'))
      have old := recoverable.held live found'
      by_cases chosen : atEnd txn = true
      · simpa [chosen, ne, State.step, Entry.apply] using old
      · simpa [chosen, ne, State.step, Entry.apply] using old
  · intro atEnd query live unheld
    rw [unchanged] at live
    rw [committedFrom_concat]
    have ne : query ≠ key := by
      intro here
      subst here
      apply unheld txn
      exact ⟨(scan log).contents query, by simp [State.step]⟩
    have unheld' : ∀ other, ¬ (scan log).Holds other query := by
      intro other held
      obtain ⟨before, mem⟩ := held
      apply unheld other
      refine ⟨before, ?_⟩
      by_cases same : other = txn
      · subst same
        simp [State.step, mem]
      · simpa [State.step, same] using mem
    have old := recoverable.free live unheld'
    by_cases chosen : atEnd txn = true
    · simpa [chosen, ne, State.step, Entry.apply] using old
    · simpa [chosen, ne, State.step, Entry.apply] using old

end Recoverable

/-- Every log that is orderly and exclusive is recoverable. -/
lemma Built.recoverable
    (built : Built (fun state entry => Orderly state entry ∧ Exclusive state entry) log) :
    Recoverable log := by
  induction built with
  | nil => exact .nil
  | @concat log entry before may ih =>
    cases entry with
    | begin txn => exact ih.concat_begin may.1
    | write txn key value => exact ih.concat_write may.2
    | undo txn key value =>
      obtain ⟨rest, top⟩ := may.1
      exact ih.concat_undo top
    | commit txn => exact ih.concat_commit may.1

/-- With nothing pending, the log has written exactly what the committed transactions
wrote. -/
lemma Built.contents_eq_committed
    (built : Built (fun state entry => Orderly state entry ∧ Exclusive state entry) log)
    (idle : ∀ txn, (scan log).pending txn = []) : (scan log).contents = committed log := by
  funext key
  symm
  apply built.recoverable.free
  · nofun
  · intro txn held
    obtain ⟨before, mem⟩ := held
    rw [idle txn] at mem
    cases mem

/-- Undoing does not change what is committed. -/
lemma committed_append_undo
    (undos : ∀ entry ∈ undone, ∃ txn key value, entry = .undo txn key value) :
    committed (log ++ undone) = committed log := by
  induction undone using reverseRecOn with
  | nil => rw [append_nil]
  | append_singleton undone entry ih =>
    obtain ⟨txn, key, value, rfl⟩ := undos entry (by simp)
    rw [← append_assoc, committed, committedFrom_concat]
    exact ih fun other mem => undos other (by simp [mem])

end DbEngine.Lib.TransactionLog
