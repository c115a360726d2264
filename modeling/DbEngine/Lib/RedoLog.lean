import Mathlib

/-!
# Logs that are replayed

A record of a log may be an operation on a key, and after a replay each key is as its last
operation left it.  Two ways to log records again do not change that: behind all of them, or
behind some of them when no key so far comes again later.
-/

namespace DbEngine.Lib

variable {ρ κ ω : Type} [DecidableEq κ] (effect : ρ → Option (κ × ω))

/-- The operation of a record on a key. -/
def opOn (key : κ) (record : ρ) : Option ω :=
  (effect record).bind fun write => if write.1 = key then some write.2 else none

/-- The last operation on a key. -/
def lastOp (records : List ρ) (key : κ) : Option ω := records.reverse.findSome? (opOn effect key)

section

variable {effect} {records copied left : List ρ} {key : κ}

lemma lastOp_append (first second : List ρ) (key : κ) : lastOp effect (first ++ second) key =
      (lastOp effect second key).or (lastOp effect first key) := by
  rw [lastOp, List.reverse_append, List.findSome?_append]
  rfl

lemma lastOp_concat (records : List ρ) (record : ρ) (key : κ) :
    lastOp effect (records ++ [record]) key =
      (opOn effect key record).or (lastOp effect records key) := by
  rw [lastOp_append]
  cases found : opOn effect key record <;> simp [lastOp, found]

/-- A key without a last operation has none. -/
lemma lastOp_eq_none : lastOp effect records key = none ↔
    ∀ record ∈ records, opOn effect key record = none := by
  simp [lastOp]

/-- What is logged before all of it is of no effect. -/
lemma lastOp_append_of_subset {part : List ρ} (contained : part ⊆ records) (key : κ) :
    lastOp effect (part ++ records) key = lastOp effect records key := by
  rw [lastOp_append]
  cases found : lastOp effect records key with
  | some op => rfl
  | none =>
    rw [Option.none_or]
    apply lastOp_eq_none.mpr
    intro record mem
    exact lastOp_eq_none.mp found record (contained mem)

/-- No key that has been copied comes again in what is left. -/
def Settled (effect : ρ → Option (κ × ω)) (copied left : List ρ) : Prop :=
  ∀ key, lastOp effect copied key ≠ none → lastOp effect left key = none

/-- A settled copy is of no effect. -/
lemma Settled.lastOp_append (settled : Settled effect copied left) (key : κ) :
    lastOp effect (copied ++ left ++ copied) key = lastOp effect (copied ++ left) key := by
  rw [Lib.lastOp_append, Lib.lastOp_append copied left]
  cases found : lastOp effect copied key with
  | none => rfl
  | some op =>
    rw [settled key (by rw [found]; exact nofun)]
    rfl

end

end DbEngine.Lib
