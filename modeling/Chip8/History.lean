import Chip8.Machine

/-!
# History for rewinding

The states before the most recent cycles, newest first, of which at most `depth`
are kept. A depth of zero keeps none.
-/

namespace Chip8

/-- The saved states of a machine, newest first. -/
structure History where
  /-- The number of states that are kept at most. -/
  depth : Nat
  /-- The states that are kept. -/
  saved : List Machine
deriving DecidableEq

namespace History

/-- The number of states that are kept unless a host asks for another. -/
def defaultDepth : Nat := 600

/-- The history of a machine that has not run. -/
def empty (depth : Nat) : History := ⟨depth, []⟩

/-- The history without its states. -/
def clear (history : History) : History := empty history.depth

/-- The history with one more state. If it is full, the oldest one goes. -/
def save (history : History) (machine : Machine) : History :=
  if history.depth = 0 then
    history
  else if history.saved.length = history.depth then
    { history with saved := machine :: history.saved.dropLast }
  else
    { history with saved := machine :: history.saved }

/-- The newest state, and the history before it. -/
def pop? (history : History) : Option (Machine × History) :=
  match history.saved with
  | [] => none
  | machine :: older => some (machine, { history with saved := older })

@[simp] theorem depth_save (history : History) (machine : Machine) :
    (history.save machine).depth = history.depth := by
  unfold save
  split
  · rfl
  · split <;> rfl

/-- Nothing is in a history that was not saved. -/
theorem eq_or_mem_of_mem_save {history : History} {machine state : Machine}
    (member : state ∈ (history.save machine).saved) :
    state = machine ∨ state ∈ history.saved := by
  unfold save at member
  split at member
  · exact .inr member
  · split at member
    · exact (List.mem_cons.mp member).imp_right fun kept => List.dropLast_subset _ kept
    · exact List.mem_cons.mp member

/-- A history that is not overfull keeps the most recent states. -/
theorem saved_save {history : History} (machine : Machine)
    (within : history.saved.length ≤ history.depth) :
    (history.save machine).saved = (machine :: history.saved).take history.depth := by
  unfold save
  split
  · next none =>
    have empty : history.saved = [] := List.eq_nil_of_length_eq_zero (by omega)
    rw [empty, none, List.take_zero]
  · next positive =>
    obtain ⟨kept, depth⟩ := Nat.exists_eq_succ_of_ne_zero positive
    split
    · next full =>
      rw [depth, List.take_succ_cons, List.dropLast_eq_take, full, depth]
      rfl
    · next =>
      rw [List.take_of_length_le (by simp only [List.length_cons]; omega)]

end History

end Chip8
