import Mathlib

/-!
# Calls with state and exceptions

How calls in `EStateM` run: the state they read and leave, step by step.
-/

namespace DbEngine.Lib

variable {ε σ α β : Type}

@[simp] lemma run_pure (value : α) (state : σ) :
    (pure value : EStateM ε σ α) state = .ok value state :=
  rfl

@[simp] lemma run_get_bind (next : σ → EStateM ε σ β) (state : σ) :
    (get >>= next) state = next state state :=
  rfl

@[simp] lemma run_set_bind (next : PUnit → EStateM ε σ β) (state state' : σ) :
    (set state' >>= next) state = next ⟨⟩ state' :=
  rfl

@[simp] lemma run_modify_bind (change : σ → σ) (next : PUnit → EStateM ε σ β)
    (state : σ) : (modify change >>= next) state = next ⟨⟩ (change state) :=
  rfl

variable {action : EStateM ε σ α} {next : α → EStateM ε σ β} {before after : σ}

lemma bind_of_ok {value : α} (ran : action before = .ok value after) :
    (action >>= next) before = next value after := by
  simp only [bind, EStateM.bind, ran]

lemma bind_of_error {failure : ε} (ran : action before = .error failure after) :
    (action >>= next) before = .error failure after := by
  simp only [bind, EStateM.bind, ran]

/-- The state a call leaves, whether it returns or throws. -/
def finalState : EStateM.Result ε σ α → σ
  | .ok _ state | .error _ state => state

/-- A sequence leaves what its first call leaves by throwing, or what the second leaves. -/
lemma finalState_bind {motive : σ → Prop} (first : motive (finalState (action before)))
    (second : ∀ {value after}, action before = .ok value after → motive after → motive (finalState
      (next value after))) : motive (finalState ((action >>= next) before)) := by
  cases ran : action before with
  | ok value after =>
    rw [ran] at first
    rw [bind_of_ok ran]
    exact second ran first
  | error failure after =>
    rw [ran] at first
    rw [bind_of_error ran]
    exact first

end DbEngine.Lib
