import DbEngine.Common.Lists

/-!
# Programs that take locks

A program takes and releases locks, in shared or exclusive mode, and between that works on a
shared state in atomic steps.  If every lock a program takes ranks above all those it holds,
then threads running such programs never block each other for good.

Nothing is assumed about how a lock treats its waiters: a request for shared mode may or may
not be granted while somebody waits for exclusive mode.
-/

namespace DbEngine.Lib

open Function

inductive LockMode where
  | shared
  | exclusive
  deriving Repr, DecidableEq

variable {Lock State Thread α β : Type}

/-- A program over locks and a shared state. -/
inductive LockProgram (Lock State : Type) (α : Type) where
  | done (result : α)
  | acquire (mode : LockMode) (lock : Lock) (next : LockProgram Lock State α)
  | release (mode : LockMode) (lock : Lock) (next : LockProgram Lock State α)
  /-- Change the state and go on with what it was before, in one step. -/
  | atomic (change : State → State) (next : State → LockProgram Lock State α)

namespace LockProgram

/-- Continue with the result. -/
def bind : LockProgram Lock State α → (α → LockProgram Lock State β) → LockProgram Lock State β
  | .done result, rest => rest result
  | .acquire mode lock next, rest => .acquire mode lock (next.bind rest)
  | .release mode lock next, rest => .release mode lock (next.bind rest)
  | .atomic change next, rest => .atomic change fun state => (next state).bind rest

instance : Monad (LockProgram Lock State) where
  pure := .done
  bind := bind

def lock (lock : Lock) : LockProgram Lock State Unit := .acquire .exclusive lock (.done ())

def unlock (lock : Lock) : LockProgram Lock State Unit := .release .exclusive lock (.done ())

def lockShared (lock : Lock) : LockProgram Lock State Unit := .acquire .shared lock (.done ())

def unlockShared (lock : Lock) : LockProgram Lock State Unit := .release .shared lock (.done ())

/-- Read from the state. -/
def load (view : State → β) : LockProgram Lock State β := .atomic id fun state => .done (view state)

/-- Change the state. -/
def store (change : State → State) : LockProgram Lock State Unit :=
  .atomic change fun _ => .done ()

/-- Read from the state and change it, in one step. -/
def exchange (view : State → β) (change : State → State) : LockProgram Lock State β :=
  .atomic change fun state => .done (view state)

/-- A program for each element of a list, one after the other. -/
def forEach (body : α → LockProgram Lock State Unit) : List α → LockProgram Lock State Unit
  | [] => pure ()
  | first :: rest => do
    body first
    forEach body rest

end LockProgram

/-! ## Taking locks in order -/

section

variable [DecidableEq Lock] {Rank : Type} [LinearOrder Rank] {rank : Lock → Rank}

/-- The program takes only locks that rank above those held, releases only locks it holds,
and ends with the given result and locks. -/
def Respects (rank : Lock → Rank) (held : List (LockMode × Lock)) :
    LockProgram Lock State α → (α → List (LockMode × Lock) → Prop) → Prop
  | .done result, ends => ends result held
  | .acquire mode lock next, ends =>
    (∀ hold ∈ held, rank hold.2 < rank lock) ∧ Respects rank ((mode, lock) :: held) next ends
  | .release mode lock next, ends =>
    (mode, lock) ∈ held ∧ Respects rank (held.erase (mode, lock)) next ends
  | .atomic _ next, ends => ∀ state, Respects rank held (next state) ends

namespace Respects

variable {held : List (LockMode × Lock)} {program : LockProgram Lock State α}
  {ends ends' : α → List (LockMode × Lock) → Prop}

lemma mono (respects : Respects rank held program ends)
    (implies : ∀ result held, ends result held → ends' result held) :
    Respects rank held program ends' := by
  induction program generalizing held with
  | done result => exact implies result held respects
  | acquire mode lock next ih | release mode lock next ih => exact ⟨respects.1, ih respects.2⟩
  | atomic change next ih => exact fun state => ih state (respects state)

/-- The rule for sequences. -/
lemma bind {ends : β → List (LockMode × Lock) → Prop}
    (respects : Respects rank held program fun result held =>
      Respects rank held (rest result) ends) : Respects rank held (program >>= rest) ends := by
  induction program generalizing held with
  | done result => exact respects
  | acquire mode lock next ih | release mode lock next ih => exact ⟨respects.1, ih respects.2⟩
  | atomic change next ih => exact fun state => ih state (respects state)

@[simp] lemma pure_iff {ends : α → List (LockMode × Lock) → Prop} :
    Respects rank held (pure result : LockProgram Lock State α) ends ↔ ends result held :=
  Iff.rfl

section

variable {rest : Unit → LockProgram Lock State α} {lock : Lock}

@[simp] lemma lock_bind : Respects rank held (LockProgram.lock lock >>= rest) ends ↔
      (∀ hold ∈ held, rank hold.2 < rank lock) ∧
        Respects rank ((.exclusive, lock) :: held) (rest ()) ends :=
  Iff.rfl

@[simp] lemma lockShared_bind : Respects rank held (LockProgram.lockShared lock >>= rest) ends ↔
      (∀ hold ∈ held, rank hold.2 < rank lock) ∧
        Respects rank ((.shared, lock) :: held) (rest ()) ends :=
  Iff.rfl

@[simp] lemma unlock_bind : Respects rank held (LockProgram.unlock lock >>= rest) ends ↔
      (.exclusive, lock) ∈ held ∧ Respects rank (held.erase (.exclusive, lock)) (rest ()) ends :=
  Iff.rfl

@[simp] lemma unlockShared_bind : Respects rank held (LockProgram.unlockShared lock >>= rest) ends ↔
      (.shared, lock) ∈ held ∧ Respects rank (held.erase (.shared, lock)) (rest ()) ends :=
  Iff.rfl

@[simp] lemma unlock_iff {ends : Unit → List (LockMode × Lock) → Prop} :
    Respects rank held (LockProgram.unlock lock : LockProgram Lock State Unit) ends ↔
      (.exclusive, lock) ∈ held ∧ ends () (held.erase (.exclusive, lock)) :=
  Iff.rfl

variable {change : State → State} {view : State → β}

@[simp] lemma store_bind : Respects rank held (LockProgram.store change >>= rest) ends ↔
      ∀ _state : State, Respects rank held (rest ()) ends :=
  Iff.rfl

@[simp] lemma load_bind {rest : β → LockProgram Lock State α} :
    Respects rank held (LockProgram.load view >>= rest) ends ↔
      ∀ state, Respects rank held (rest (view state)) ends :=
  Iff.rfl

@[simp] lemma exchange_bind {rest : β → LockProgram Lock State α} :
    Respects rank held (LockProgram.exchange view change >>= rest) ends ↔
      ∀ state, Respects rank held (rest (view state)) ends :=
  Iff.rfl

end

/-- A loop whose body ends with the locks it began with. -/
lemma forEach
    (each : ∀ value ∈ values, Respects rank held (body value) fun _ held' => held' = held) :
    Respects rank held (LockProgram.forEach body values) fun _ held' => held' = held := by
  induction values with
  | nil => rfl
  | cons first rest ih =>
    apply bind
    refine (each first mem_cons_self).mono ?_
    rintro result held' rfl
    exact ih fun value mem => each value (mem_cons_of_mem _ mem)

section

variable {lockOf : β → Lock} {values : List β}

/-- The locks taken one after the other in the order of their ranks. -/
lemma lockAll
    (ascending : values.Pairwise fun left right => rank (lockOf left) < rank (lockOf right))
    (above : ∀ value ∈ values, ∀ hold ∈ held, rank hold.2 < rank (lockOf value)) :
    Respects rank held (LockProgram.forEach (fun value => LockProgram.lock (lockOf value)) values :
        LockProgram Lock State Unit)
      fun _ held' => held'.Perm (values.map (fun value => (.exclusive, lockOf value)) ++ held) := by
  induction values generalizing held with
  | nil => exact .refl held
  | cons first rest ih =>
    obtain ⟨least, ascending⟩ := pairwise_cons.mp ascending
    refine ⟨above first mem_cons_self, ?_⟩
    have taken := @ih ((.exclusive, lockOf first) :: held) ascending <| by
      intro value mem hold holds
      rcases mem_cons.mp holds with rfl | holds
      · exact least value mem
      · exact above value (mem_cons_of_mem _ mem) hold holds
    apply taken.mono
    intro _ held' same
    exact same.trans List.perm_middle

/-- The locks released one after the other. -/
lemma unlockAll (holds : held.Perm (values.map (fun value => (.exclusive, lockOf value)) ++ kept)) :
    Respects rank held
      (LockProgram.forEach (fun value => LockProgram.unlock (lockOf value)) values :
        LockProgram Lock State Unit) fun _ held' => held'.Perm kept := by
  induction values generalizing held with
  | nil => exact holds
  | cons first rest ih =>
    refine ⟨holds.mem_iff.mpr mem_cons_self, ih ?_⟩
    have fewer := holds.erase (.exclusive, lockOf first)
    rwa [map_cons, cons_append, erase_cons_head] at fewer

end

end Respects

end

/-! ## Threads -/

/-- Threads with the state and the locks they share. -/
structure Threads (Lock State Thread : Type) where
  state : State
  /-- The rest of the call a thread is in. -/
  running : Thread → Option (LockProgram Lock State Unit) := fun _ => none
  held : Thread → List (LockMode × Lock) := fun _ => []

namespace Threads

variable {threads after : Threads Lock State Thread} {thread : Thread}

/-- A lock may be granted in a mode. -/
def Grants (threads : Threads Lock State Thread) (lock : Lock) : LockMode → Prop
  | .exclusive => ∀ other mode, (mode, lock) ∉ threads.held other
  | .shared => ∀ other, (.exclusive, lock) ∉ threads.held other

/-- The thread can take its next step whatever the locks do with their waiters: a request
for shared mode counts only if nobody waits for exclusive mode. -/
def Ready (threads : Threads Lock State Thread) (thread : Thread) : Prop :=
  match threads.running thread with
  | none => False
  | some (.acquire .exclusive lock _) => threads.Grants lock .exclusive
  | some (.acquire .shared lock _) => threads.Grants lock .shared ∧
      ∀ other next, threads.running other ≠ some (.acquire .exclusive lock next)
  | some _ => True

section

variable [DecidableEq Lock] [DecidableEq Thread]

def proceed (threads : Threads Lock State Thread) (thread : Thread)
    (next : Option (LockProgram Lock State Unit)) : Threads Lock State Thread :=
  { threads with running := update threads.running thread next }

def setHeld (threads : Threads Lock State Thread) (thread : Thread)
    (held : List (LockMode × Lock)) : Threads Lock State Thread :=
  { threads with held := update threads.held thread held }

/-- One step of a thread. -/
inductive Step (calls : LockProgram Lock State Unit → Prop) (thread : Thread)
    (threads : Threads Lock State Thread) : Threads Lock State Thread → Prop where
  | call (program : LockProgram Lock State Unit)
      (idle : threads.running thread = none) (may : calls program) :
      Step calls thread threads (threads.proceed thread (some program))
  | return (stands : threads.running thread = some (.done ())) :
      Step calls thread threads (threads.proceed thread none)
  | acquire (stands : threads.running thread = some (.acquire mode lock next))
      (grants : threads.Grants lock mode) :
      Step calls thread threads ((threads.proceed thread (some next)).setHeld thread
        ((mode, lock) :: threads.held thread))
  | release (stands : threads.running thread = some (.release mode lock next)) :
      Step calls thread threads ((threads.proceed thread (some next)).setHeld thread
        ((threads.held thread).erase (mode, lock)))
  | atomic (stands : threads.running thread = some (.atomic change next)) :
      Step calls thread threads
        { threads.proceed thread (some (next threads.state)) with state := change threads.state }

/-- The states that threads making the given calls can reach. -/
def Reachable (calls : LockProgram Lock State Unit → Prop) (initial : State)
    (threads : Threads Lock State Thread) : Prop :=
  Relation.ReflTransGen (fun before after => ∃ thread, Step calls thread before after)
    { state := initial } threads

lemma Ready.step (calls : LockProgram Lock State Unit → Prop) (ready : threads.Ready thread) :
    ∃ after, Step calls thread threads after := by
  rw [Ready] at ready
  cases stands : threads.running thread with
  | none =>
    rw [stands] at ready
    exact ready.elim
  | some program =>
    rw [stands] at ready
    cases program with
    | done result => exact ⟨_, .return stands⟩
    | acquire mode lock next =>
      cases mode with
      | shared => exact ⟨_, .acquire stands ready.1⟩
      | exclusive => exact ⟨_, .acquire stands ready⟩
    | release mode lock next => exact ⟨_, .release stands⟩
    | atomic change next => exact ⟨_, .atomic stands⟩

end

variable [DecidableEq Lock] {Rank : Type} [LinearOrder Rank] {rank : Lock → Rank}

/-- A thread outside a call holds nothing, and inside one takes its locks in order. -/
def Obeys (rank : Lock → Rank) (held : List (LockMode × Lock)) :
    Option (LockProgram Lock State Unit) → Prop
  | none => held = []
  | some program => Respects rank held program fun _ held => held = []

/-- Every thread takes its locks in order. -/
def Disciplined (rank : Lock → Rank) (threads : Threads Lock State Thread) : Prop :=
  ∀ thread, Obeys rank (threads.held thread) (threads.running thread)

section

variable [DecidableEq Thread]

lemma Disciplined.update (disciplined : threads.Disciplined rank) (thread : Thread)
    {held : List (LockMode × Lock)} (obeys : Obeys rank held next) (state : State) :
    (⟨state, update threads.running thread next,
      update threads.held thread held⟩ : Threads Lock State Thread).Disciplined rank := by
  intro other
  by_cases same : other = thread
  · simp only [same, update_self]
    exact obeys
  · simp only [update_of_ne same]
    exact disciplined other

variable {calls : LockProgram Lock State Unit → Prop}

lemma Disciplined.step
    (ordered : ∀ program, calls program → Respects rank [] program fun _ held => held = [])
    (disciplined : threads.Disciplined rank) (step : Step calls thread threads after) :
    after.Disciplined rank := by
  have own := disciplined thread
  -- A step that takes and releases nothing leaves the locks of its thread.
  have unheld (next : Option (LockProgram Lock State Unit)) (state : State)
      (obeys : Obeys rank (threads.held thread) next) :
      ({ threads.proceed thread next with state } : Threads Lock State Thread).Disciplined
        rank := by
    have updated := disciplined.update thread obeys state
    rw [update_eq_self] at updated
    exact updated
  cases step with
  | call program idle may =>
    rw [idle] at own
    apply unheld
    rw [own]
    exact ordered program may
  | «return» stands =>
    rw [stands] at own
    exact unheld none threads.state own
  | acquire stands grants | release stands =>
    rw [stands] at own
    apply disciplined.update thread
    exact own.2
  | atomic stands =>
    rw [stands] at own
    exact unheld _ _ (own threads.state)

lemma Reachable.disciplined
    (ordered : ∀ program, calls program → Respects rank [] program fun _ held => held = [])
    (reachable : Reachable calls initial threads) : threads.Disciplined rank := by
  induction reachable with
  | refl => exact fun _ => rfl
  | tail _ step ih =>
    obtain ⟨thread, step⟩ := step
    exact ih.step ordered step

end

/-! ## No deadlock -/

/-- The lock that a thread asks for. -/
def wanted (threads : Threads Lock State Thread) (thread : Thread) : Option Lock :=
  match threads.running thread with
  | some (.acquire _ lock _) => some lock
  | _ => none

lemma Disciplined.rank_lt (disciplined : threads.Disciplined rank) {lock : Lock}
    (wants : threads.wanted thread = some lock) (holds : (mode, other) ∈ threads.held thread) :
    rank other < rank lock := by
  have own := disciplined thread
  rw [wanted] at wants
  cases stands : threads.running thread with
  | none =>
    rw [stands] at wants
    cases wants
  | some program =>
    rw [stands] at own wants
    cases program with
    | acquire mode' lock' next =>
      cases wants
      exact own.1 _ holds
    | _ => cases wants

/-- A thread never asks for a lock that it holds. -/
lemma Disciplined.not_held (disciplined : threads.Disciplined rank) {lock : Lock}
    (wants : threads.wanted thread = some lock) (mode : LockMode) :
    (mode, lock) ∉ threads.held thread :=
  fun holds => lt_irrefl _ (disciplined.rank_lt wants holds)

/-- Whoever holds a lock is inside a call. -/
lemma Disciplined.running (disciplined : threads.Disciplined rank)
    (holds : hold ∈ threads.held thread) : threads.running thread ≠ none := by
  intro idle
  have own := disciplined thread
  rw [idle] at own
  rw [show threads.held thread = [] from own] at holds
  cases holds

/-- A thread inside a call that cannot go on asks for a lock that somebody holds, or that
somebody who cannot go on either asks for in exclusive mode. -/
lemma wanted_of_not_ready (inside : threads.running thread ≠ none)
    (blocked : ¬ threads.Ready thread) : ∃ lock, threads.wanted thread = some lock ∧
      ((∃ other mode, (mode, lock) ∈ threads.held other) ∨
        ∃ other next, threads.running other = some (.acquire .exclusive lock next)) := by
  rw [Ready] at blocked
  rw [wanted]
  cases stands : threads.running thread with
  | none => exact absurd stands inside
  | some program =>
    rw [stands] at blocked
    cases program with
    | acquire mode lock next =>
      refine ⟨lock, rfl, ?_⟩
      cases mode with
      | exclusive =>
        left
        simpa [Grants] using blocked
      | shared =>
        by_cases free : threads.Grants lock .shared
        · right
          have waits := fun none => blocked ⟨free, none⟩
          simpa using waits
        · left
          simp only [Grants, not_forall, not_not] at free
          obtain ⟨other, holds⟩ := free
          exact ⟨other, .exclusive, holds⟩
    | _ => exact absurd trivial blocked

/-- As long as some thread is inside a call, some thread can go on. -/
lemma Disciplined.exists_ready [Finite Thread] (disciplined : threads.Disciplined rank)
    (inside : threads.running thread ≠ none) : ∃ ready, threads.Ready ready := by
  by_contra stuck
  have blocked (thread : Thread) : ¬ threads.Ready thread := fun ready => stuck ⟨thread, ready⟩
  -- Of the threads inside a call, one asks for a lock of the highest rank.
  let rankOf (thread : Thread) : WithBot Rank := (threads.wanted thread).map rank
  rcases Set.exists_max_image {thread | threads.running thread ≠ none} rankOf
    (Set.toFinite _) ⟨thread, inside⟩ with ⟨highest, isInside, isHighest⟩
  obtain ⟨lock, wants, why⟩ := wanted_of_not_ready isInside (blocked highest)
  -- But whoever holds that lock asks for one of a still higher rank.
  have nobody (other : Thread) (mode : LockMode) : (mode, lock) ∉ threads.held other := by
    intro holds
    have otherInside := disciplined.running holds
    obtain ⟨next, wantsNext, -⟩ := wanted_of_not_ready otherInside (blocked other)
    have higher : rankOf highest < rankOf other := by
      simp only [rankOf, wants, wantsNext]
      exact WithBot.coe_lt_coe.mpr (disciplined.rank_lt wantsNext holds)
    exact absurd (isHighest other otherInside) (not_le.mpr higher)
  rcases why with ⟨other, mode, holds⟩ | ⟨other, next, waits⟩
  · exact nobody other mode holds
  · have ready : threads.Ready other := by
      rw [Ready, waits]
      exact nobody
    exact blocked other ready

end Threads

end DbEngine.Lib
