import Chip8.Dump
import Chip8.Machine

/-!
# What a machine looks like in words

The register listings that are written to a log, and the description of the
place where a program stopped.
-/

namespace Chip8.Machine

open Chip8.Text

/-- The registers in brackets. -/
def registersText (machine : Machine) : String :=
  "[" ++ ", ".intercalate (machine.v.toList.map Hexadecimal.byteText) ++ "]"

/-- A machine about to execute a word. -/
def stepText (machine : Machine) (word : Word) : String :=
  Hexadecimal.wordText word ++ " v" ++ machine.registersText
    ++ " i" ++ Hexadecimal.wordText machine.i
    ++ " pc" ++ Hexadecimal.wordText machine.pc
    ++ " sp" ++ toString machine.sp.toNat

/-- The registers, counters and timers of a machine. -/
def statusText (machine : Machine) : String :=
  "pc " ++ Hexadecimal.wordText machine.pc
    ++ " i " ++ Hexadecimal.wordText machine.i
    ++ " sp " ++ toString machine.sp.toNat
    ++ " dt " ++ toString machine.delay.toNat
    ++ " st " ++ toString machine.sound.toNat
    ++ " v " ++ machine.registersText

/-- The dump of the whole memory. -/
def dump (machine : Machine) : List String :=
  Dump.text machine.memory.toList

/-- Where a machine stands. A cycle that faults leaves the counter on its instruction, so this
names the word that could not be executed, if there is one. -/
def haltText (machine : Machine) : String :=
  let place := "halted at pc " ++ Hexadecimal.wordText machine.pc
  match machine.fetch with
  | .ok word => place ++ " on opcode " ++ Hexadecimal.wordText word
  | .error _ => place

end Chip8.Machine
