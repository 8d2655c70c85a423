/-!
# Attempts

An attempt acts on a state and may fail. What it has changed before it fails stays changed:
nothing is put back. An attempt that is to change nothing when it fails has to fail before
its first change.
-/

namespace Chip8

/-- An action on a state that may fail. -/
abbrev Attempt (Error State : Type) := ExceptT Error (StateM State)

namespace Attempt

variable {Error State α β : Type}

/-- The value of an attempt or its error, and the state that it leaves behind. -/
def run (attempt : Attempt Error State α) (state : State) : Except Error α × State :=
  StateT.run (ExceptT.run attempt) state

@[simp] theorem run_pure (value : α) (state : State) :
    run (pure value : Attempt Error State α) state = (.ok value, state) := rfl

@[simp] theorem run_throw (error : Error) (state : State) :
    run (throw error : Attempt Error State α) state = (.error error, state) := rfl

@[simp] theorem run_get (state : State) :
    run (get : Attempt Error State State) state = (.ok state, state) := rfl

@[simp] theorem run_modify (change : State → State) (state : State) :
    run (modify change : Attempt Error State Unit) state = (.ok (), change state) := rfl

/-- What is worked out apart from the state leaves it alone. -/
@[simp] theorem run_lift (result : Except Error α) (state : State) :
    run (liftM result : Attempt Error State α) state = (result, state) := rfl

/-- The second of two attempts finds what the first one leaves behind, if that has succeeded. -/
@[simp] theorem run_bind (first : Attempt Error State α) (next : α → Attempt Error State β)
    (state : State) :
    run (first >>= next) state =
      match run first state with
      | (.ok value, between) => run (next value) between
      | (.error error, between) => (.error error, between) := by
  unfold run
  rw [ExceptT.run_bind, StateT.run_bind]
  obtain ⟨result, between⟩ := StateT.run (ExceptT.run first) state
  cases result with
  | ok value => rfl
  | error error => rfl

end Attempt

end Chip8
