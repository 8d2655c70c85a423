import Chip8.Attempt
import Chip8.Machine

/-!
# Loading a program

A program is a sequence of bytes that is placed in the memory of a machine. The
machine is reset first, so that nothing of an earlier state survives, and a
program that does not fit leaves the machine as the reset has left it.
-/

namespace Chip8.Rom

/-- The number of bytes between the program start and the end of memory. -/
def capacity : Nat := Memory.size - Machine.programStart

/-- An attempt to load a program into a machine, which tells the size of the program. -/
abbrev Loading := Attempt LoadError Machine Nat

/-- Resets a machine and places a program in its memory. -/
def install (rom : List UInt8) : Loading := do
  modify Machine.reset
  if capacity < rom.length then
    throw (.tooLarge rom.length capacity)
  modify fun machine =>
    { machine with memory := overlay machine.memory Machine.programStart rom }
  return rom.length

/-- The size that an attempt to load tells. The machine is a fresh one unless another is given. -/
def reportedSize (loading : Loading) (machine : Machine := Machine.fresh) :
    Except LoadError Nat :=
  (loading.run machine).1

/-- The machine that an attempt to load leaves behind of a machine. -/
def machineAfter (loading : Loading) (machine : Machine := Machine.fresh) : Machine :=
  (loading.run machine).2

/-- A program that fits is in the memory of a fresh machine, and one that does not leaves the fresh
machine. Nothing comes from the machine before. -/
theorem run_install (rom : List UInt8) (machine : Machine) :
    (install rom).run machine =
      if rom.length ≤ capacity then
        (.ok rom.length,
          { Machine.fresh with
            memory := overlay Machine.fresh.memory Machine.programStart rom })
      else
        (.error (.tooLarge rom.length capacity), Machine.fresh) := by
  by_cases fits : rom.length ≤ capacity
  · have within : ¬ capacity < rom.length := Nat.not_lt.mpr fits
    simp only [install, Attempt.run_bind, Attempt.run_modify, Attempt.run_pure,
      Machine.reset_eq_fresh, within, fits, if_true, if_false]
  · have excess : capacity < rom.length := Nat.not_le.mp fits
    simp only [install, Attempt.run_bind, Attempt.run_modify, Attempt.run_throw,
      Machine.reset_eq_fresh, excess, fits, if_true, if_false]

end Chip8.Rom
