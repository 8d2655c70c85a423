import Chip8.Machine.Report

/-!
# Log entries

What is logged when a program is loaded, before each instruction, and when the
host asks for the state of the machine.
-/

namespace Chip8.Log

/-- How detailed an entry is. -/
inductive Level where
  | debug
  | trace
deriving DecidableEq, Repr

/-- The name of a level. -/
def Level.text : Level → String
  | .debug => "DEBUG"
  | .trace => "TRACE"

/-- A line of a log. -/
structure Entry where
  level : Level
  message : String
deriving DecidableEq, Repr

/-- The text of a line. -/
def Entry.text (entry : Entry) : String :=
  entry.level.text ++ " " ++ entry.message

/-- A program of the given size has been loaded. -/
def loaded (size : Nat) : Entry :=
  ⟨.debug, "loaded " ++ toString size ++ " byte ROM"⟩

/-- A machine is about to execute a word. -/
def step (machine : Machine) (word : Word) : Entry :=
  ⟨.trace, machine.stepText word⟩

/-- The registers and the whole memory of a machine. -/
def inspection (machine : Machine) : List Entry :=
  (machine.statusText :: machine.dump).map fun message => ⟨.debug, message⟩

end Chip8.Log
