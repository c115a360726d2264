import DbEngine.Common.Lists

/-!
# Replaying operations on a map

A key-value client reads, writes and deletes.  `Replays map script` says that running
the operations of `script` one after another on `map` gives each of them the answer the
script records for it.  The outcome of a script depends only on the keys it touches,
which is what lets a script observed on one map be replayed on another.
-/

namespace DbEngine.Lib

universe u v

variable {Key : Type u} {Value : Type v}

/-- What a client can do to a map. -/
inductive MapOp (Key : Type u) (Value : Type v) where
  | read (key : Key)
  | write (key : Key) (value : Value)
  | delete (key : Key)
  deriving Repr, DecidableEq

/-- What it is told: the value read, nothing, or whether the deleted key existed. -/
inductive MapReply (Value : Type v) where
  | value (found : Option Value)
  | done
  | existed (present : Bool)
  deriving Repr, DecidableEq

namespace MapOp

/-- The key an operation is about. -/
def key : MapOp Key Value → Key
  | .read key | .write key _ | .delete key => key

/-- Whether the operation may change the map. -/
def mutates : MapOp Key Value → Bool
  | .read _ => false
  | .write _ _ | .delete _ => true

/-- The value an operation leaves at its key, where `before` was. -/
def leaves (before : Option Value) : MapOp Key Value → Option Value
  | .read _ => before
  | .write _ value => some value
  | .delete _ => none

/-- The reply to an operation that finds `before` at its key. -/
def reply (before : Option Value) : MapOp Key Value → MapReply Value
  | .read _ => .value before
  | .write _ _ => .done
  | .delete _ => .existed before.isSome

end MapOp

/-- Operations with the replies a client saw. -/
abbrev Script (Key : Type u) (Value : Type v) := List (MapOp Key Value × MapReply Value)

/-- The script has an operation on the key. -/
def Touches (script : Script Key Value) (key : Key) : Prop :=
  ∃ step ∈ script, step.1.key = key

/-- The script has a write or a delete of the key. -/
def Mutates (script : Script Key Value) (key : Key) : Prop :=
  ∃ step ∈ script, step.1.key = key ∧ step.1.mutates = true

variable {script : Script Key Value} {step : MapOp Key Value × MapReply Value} {key : Key}
  {left right : Key → Option Value}

lemma touches_concat : Touches (script ++ [step]) key ↔ Touches script key ∨ step.1.key = key := by
  simp only [Touches, mem_append, mem_singleton]
  constructor
  · intro touched
    obtain ⟨found, mem | rfl, same⟩ := touched
    · exact .inl ⟨found, mem, same⟩
    · exact .inr same
  · intro touched
    rcases touched with ⟨found, mem, same⟩ | same
    · exact ⟨found, .inl mem, same⟩
    · exact ⟨step, .inr rfl, same⟩

lemma mutates_concat : Mutates (script ++ [step]) key ↔
      Mutates script key ∨ step.1.key = key ∧ step.1.mutates = true := by
  simp only [Mutates, mem_append, mem_singleton]
  constructor
  · intro mutated
    obtain ⟨found, mem | rfl, changes⟩ := mutated
    · exact .inl ⟨found, mem, changes⟩
    · exact .inr changes
  · intro mutated
    rcases mutated with ⟨found, mem, changes⟩ | changes
    · exact ⟨found, .inl mem, changes⟩
    · exact ⟨step, .inr rfl, changes⟩

lemma Mutates.touches (mutated : Mutates script key) : Touches script key := by
  obtain ⟨step, mem, same, _⟩ := mutated
  exact ⟨step, mem, same⟩

variable [DecidableEq Key]

namespace MapOp

/-- The map after an operation. -/
def apply (map : Key → Option Value) (op : MapOp Key Value) : Key → Option Value :=
  Function.update map op.key (op.leaves (map op.key))

@[simp] lemma apply_key (map : Key → Option Value) (op : MapOp Key Value) :
    op.apply map op.key = op.leaves (map op.key) := by
  simp [apply]

variable {query : Key} {op : MapOp Key Value}

lemma apply_of_ne (map : Key → Option Value) (op : MapOp Key Value) (ne : query ≠ op.key) :
    op.apply map query = map query := by
  simp [apply, ne]

lemma apply_of_not_mutates (map : Key → Option Value) (reads : op.mutates = false) :
    op.apply map = map := by
  cases op with
  | read key => simp [apply, leaves, MapOp.key]
  | write key value | delete key => cases reads

/-- What an operation leaves at a key depends on what was there and at its own key. -/
lemma apply_congr {left right : Key → Option Value} (here : left op.key = right op.key)
    (same : left query = right query) : op.apply left query = op.apply right query := by
  by_cases hit : query = op.key
  · subst hit
    rw [apply_key, apply_key, here]
  · rw [apply_of_ne left op hit, apply_of_ne right op hit, same]

end MapOp

/-- The map after a script. -/
def applyScript (map : Key → Option Value) (script : Script Key Value) :
    Key → Option Value :=
  script.foldl (fun current step => step.1.apply current) map

/-- Every operation of the script gets the reply recorded for it. -/
def Replays (map : Key → Option Value) : Script Key Value → Prop
  | [] => True
  | (op, reply) :: rest => op.reply (map op.key) = reply ∧ Replays (op.apply map) rest

@[simp] lemma applyScript_nil (map : Key → Option Value) : applyScript map [] = map := rfl

@[simp] lemma applyScript_cons (map : Key → Option Value)
    (step : MapOp Key Value × MapReply Value) (rest : Script Key Value) :
    applyScript map (step :: rest) = applyScript (step.1.apply map) rest := rfl

@[simp] lemma applyScript_concat (map : Key → Option Value) (script : Script Key Value)
    (step : MapOp Key Value × MapReply Value) :
    applyScript map (script ++ [step]) = step.1.apply (applyScript map script) := by
  simp [applyScript]

lemma replays_concat (map : Key → Option Value) (script : Script Key Value)
    (op : MapOp Key Value) (reply : MapReply Value) : Replays map (script ++ [(op, reply)]) ↔
      Replays map script ∧ op.reply (applyScript map script op.key) = reply := by
  induction script generalizing map with
  | nil => simp [Replays]
  | cons step rest ih =>
    simp only [cons_append, Replays, ih, applyScript_cons, and_assoc]

/-- A script changes no key it does not mutate. -/
lemma applyScript_of_not_mutates (untouched : ¬ Mutates script key) (map : Key → Option Value) :
    applyScript map script key = map key := by
  induction script generalizing map with
  | nil => rfl
  | cons step rest ih =>
    have later : ¬ Mutates rest key := by
      intro mutated
      obtain ⟨found, mem, same⟩ := mutated
      exact untouched ⟨found, mem_cons_of_mem _ mem, same⟩
    rw [applyScript_cons, ih later]
    cases mutates : step.1.mutates with
    | false => rw [MapOp.apply_of_not_mutates map mutates]
    | true =>
      apply MapOp.apply_of_ne
      intro same
      exact untouched ⟨step, mem_cons_self, same.symm, mutates⟩

/-- On the keys a script touches, its outcome depends on those keys alone. -/
lemma applyScript_congr (agree : ∀ key, Touches script key → left key = right key) {query : Key}
    (same : left query = right query) :
    applyScript left script query = applyScript right script query := by
  induction script generalizing left right with
  | nil => exact same
  | cons step rest ih =>
    have here : left step.1.key = right step.1.key :=
      agree step.1.key ⟨step, mem_cons_self, rfl⟩
    apply ih
    · intro key touched
      obtain ⟨found, mem, sameKey⟩ := touched
      exact MapOp.apply_congr here (agree key ⟨found, mem_cons_of_mem _ mem, sameKey⟩)
    · exact MapOp.apply_congr here same

/-- A script replays on any map that agrees with the original on the keys it touches. -/
lemma Replays.congr (agree : ∀ key, Touches script key → left key = right key)
    (replays : Replays left script) : Replays right script := by
  induction script generalizing left right with
  | nil => trivial
  | cons step rest ih =>
    obtain ⟨answered, later⟩ := replays
    have here : left step.1.key = right step.1.key :=
      agree step.1.key ⟨step, mem_cons_self, rfl⟩
    refine ⟨by rw [← here]; exact answered, ih ?_ later⟩
    intro key touched
    obtain ⟨found, mem, sameKey⟩ := touched
    exact MapOp.apply_congr here (agree key ⟨found, mem_cons_of_mem _ mem, sameKey⟩)

/-! ## Serial execution -/

/-- Scripts run one after another. -/
def applySerially (map : Key → Option Value) (scripts : List (Script Key Value)) :
    Key → Option Value :=
  scripts.foldl applyScript map

/-- Every script, run after those before it, gets the replies recorded in it. -/
def ReplaysSerially (map : Key → Option Value) : List (Script Key Value) → Prop
  | [] => True
  | script :: rest => Replays map script ∧ ReplaysSerially (applyScript map script) rest

@[simp] lemma applySerially_concat (map : Key → Option Value)
    (scripts : List (Script Key Value)) (script : Script Key Value) :
    applySerially map (scripts ++ [script]) = applyScript (applySerially map scripts) script := by
  simp [applySerially]

lemma replaysSerially_concat (map : Key → Option Value)
    (scripts : List (Script Key Value)) (script : Script Key Value) :
    ReplaysSerially map (scripts ++ [script]) ↔
      ReplaysSerially map scripts ∧ Replays (applySerially map scripts) script := by
  induction scripts generalizing map with
  | nil => simp [ReplaysSerially, applySerially]
  | cons first rest ih =>
    simp only [cons_append, ReplaysSerially, ih, and_assoc]
    rfl

/-- Scripts that leave a key alone do not change it. -/
lemma applySerially_append_of_not_mutates (untouched : ∀ script ∈ second, ¬ Mutates script key)
    (map : Key → Option Value) :
    applySerially map (first ++ second) key = applySerially map first key := by
  induction second using reverseRecOn with
  | nil => rw [append_nil]
  | append_singleton scripts script ih =>
    rw [← append_assoc, applySerially_concat,
      applyScript_of_not_mutates (untouched script (by simp))]
    exact ih fun other mem => untouched other (by simp [mem])

end DbEngine.Lib
