import Chip8.Text.Hexadecimal

/-!
# What can stop a program

A `Fault` ends a cycle, a `LoadError` ends the loading of a program. Each names
its cause, and its wording is one function of the cause.

`Fault.defect` stands apart. The arithmetic of the interpreter is checked, and
this is the value that a sum, difference or product outside its range, or an
index outside its table, would produce.
-/

namespace Chip8

open Chip8.Text

/-- How a checked operation of the interpreter can go wrong. -/
inductive Defect where
  /-- A sum or product does not fit its width. -/
  | overflow
  /-- A difference is negative. -/
  | underflow
  /-- A position lies outside its table. -/
  | position
deriving DecidableEq, Repr

/-- The wording of a defect. -/
def Defect.message : Defect → String
  | .overflow => "arithmetic overflow"
  | .underflow => "arithmetic underflow"
  | .position => "position out of range"

/-- Why a cycle fails. -/
inductive Fault where
  /-- No instruction has this word. -/
  | unknownWord (word : UInt16)
  /-- The call at `pc` finds the call stack full. -/
  | stackOverflow (pc : UInt16)
  /-- The return at `pc` finds the call stack empty. -/
  | stackUnderflow (pc : UInt16)
  /-- An address lies past the end of memory. -/
  | outOfBounds (address : Nat)
  /-- A register that should name a key holds a value past the last key. -/
  | noSuchKey (key : UInt8)
  /-- A checked operation of the interpreter itself went wrong. -/
  | defect (kind : Defect)
deriving DecidableEq, Repr

namespace Fault

/-- The wording of a fault. Numbers are hexadecimal, with at least as many digits as the
largest valid value has, and with more where the number needs them. -/
def message : Fault → String
  | unknownWord word => "unknown opcode 0x" ++ Hexadecimal.wordText word
  | stackOverflow pc => "call stack overflow at pc 0x" ++ Hexadecimal.wordText pc
  | stackUnderflow pc => "return with an empty call stack at pc 0x" ++ Hexadecimal.wordText pc
  | outOfBounds address =>
    "memory access out of bounds at address 0x" ++ Hexadecimal.text 4 address
  | noSuchKey key => "key 0x" ++ Hexadecimal.byteText key ++ " is not on the keypad"
  | defect kind => kind.message

end Fault

/-- Why a program cannot be loaded. -/
inductive LoadError where
  /-- The program has `size` bytes where at most `capacity` fit. -/
  | tooLarge (size capacity : Nat)
  /-- The source of the program failed, for the reason that it gave. -/
  | unreadable (reason : String)
deriving DecidableEq, Repr

/-- The wording of a load error. The reason of an unreadable source is not part of it. -/
def LoadError.message : LoadError → String
  | .tooLarge size capacity =>
    "ROM is " ++ toString size ++ " bytes but at most " ++ toString capacity
      ++ " bytes fit in memory"
  | .unreadable _ => "unable to read ROM"

end Chip8
