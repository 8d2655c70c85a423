import Chip8.Word

/-!
# Instructions

The instruction set as a type, and the reading of a word as an instruction.

Decoding looks at no more of a word than it must. Family 0 is told apart by its
last nibble alone, so that `0x0AB0` clears the screen and `0x012E` returns. The
last nibble of a register comparison is not looked at, and neither is the third
nibble of a key comparison.
-/

namespace Chip8

/-- An operation on two registers. -/
inductive Arithmetic where
  | copy
  | or
  | and
  | xor
  | add
  | subtract
  | shiftRight
  | subtractFrom
  | shiftLeft
deriving DecidableEq, Repr

/-- An instruction with its operands. -/
inductive Instruction where
  /-- Clear the screen. -/
  | clear
  /-- Return from a subroutine. -/
  | ret
  /-- Continue at the target. -/
  | jump (target : Address)
  /-- Call the subroutine at the target. -/
  | call (target : Address)
  /-- Skip the next instruction if the register holds the byte. -/
  | skipIfByte (x : Register) (byte : UInt8)
  /-- Skip the next instruction unless the register holds the byte. -/
  | skipUnlessByte (x : Register) (byte : UInt8)
  /-- Skip the next instruction if both registers hold the same value. -/
  | skipIfEqual (x y : Register)
  /-- Set the register to the byte. -/
  | setByte (x : Register) (byte : UInt8)
  /-- Add the byte to the register, leaving the flag alone. -/
  | addByte (x : Register) (byte : UInt8)
  /-- Combine the first register with the second. -/
  | arithmetic (operation : Arithmetic) (x y : Register)
  /-- Skip the next instruction unless both registers hold the same value. -/
  | skipUnlessEqual (x y : Register)
  /-- Point the index at the target. -/
  | setIndex (target : Address)
  /-- Continue at the target plus `V0`. -/
  | jumpOffset (target : Address)
  /-- Set the register to a random byte under the mask. -/
  | random (x : Register) (mask : UInt8)
  /-- Draw a sprite of the given height at the position held by two registers. -/
  | draw (x y : Register) (height : Nibble)
  /-- Skip the next instruction if the key named by the register is down. -/
  | skipIfKey (x : Register)
  /-- Skip the next instruction unless the key named by the register is down. -/
  | skipUnlessKey (x : Register)
  /-- Read the delay timer. -/
  | getDelay (x : Register)
  /-- Wait for a key. -/
  | awaitKey (x : Register)
  /-- Set the delay timer. -/
  | setDelay (x : Register)
  /-- Set the sound timer. -/
  | setSound (x : Register)
  /-- Add the register to the index. -/
  | addIndex (x : Register)
  /-- Point the index at the glyph of the register's value. -/
  | glyph (x : Register)
  /-- Write the three decimal digits of the register to memory. -/
  | decimal (x : Register)
  /-- Write the registers up to and including this one to memory. -/
  | store (x : Register)
  /-- Read the registers up to and including this one from memory. -/
  | restore (x : Register)
deriving DecidableEq, Repr

namespace Arithmetic

/-- The operation that the last nibble of a word in family 8 names. -/
def ofNibble? : Nibble → Option Arithmetic
  | 0x0 => some .copy
  | 0x1 => some .or
  | 0x2 => some .and
  | 0x3 => some .xor
  | 0x4 => some .add
  | 0x5 => some .subtract
  | 0x6 => some .shiftRight
  | 0x7 => some .subtractFrom
  | 0xE => some .shiftLeft
  | _ => none

end Arithmetic

namespace Instruction

/-- Family 0: the screen and the return. -/
def ofControl? (word : Word) : Option Instruction :=
  match word.low with
  | 0x0 => some .clear
  | 0xE => some .ret
  | _ => none

/-- Family E: the state of a key. -/
def ofKey? (word : Word) : Option Instruction :=
  match word.low with
  | 0xE => some (.skipIfKey word.x)
  | 0x1 => some (.skipUnlessKey word.x)
  | _ => none

/-- Family F: timers, index and memory, told apart by the low byte. -/
def ofTransfer? (word : Word) : Option Instruction :=
  match word.byte.toNat with
  | 0x07 => some (.getDelay word.x)
  | 0x0A => some (.awaitKey word.x)
  | 0x15 => some (.setDelay word.x)
  | 0x18 => some (.setSound word.x)
  | 0x1E => some (.addIndex word.x)
  | 0x29 => some (.glyph word.x)
  | 0x33 => some (.decimal word.x)
  | 0x55 => some (.store word.x)
  | 0x65 => some (.restore word.x)
  | _ => none

/-- The instruction that a word stands for; the last line is family F. -/
def ofWord? (word : Word) : Option Instruction :=
  match word.family with
  | 0x0 => ofControl? word
  | 0x1 => some (.jump word.address)
  | 0x2 => some (.call word.address)
  | 0x3 => some (.skipIfByte word.x word.byte)
  | 0x4 => some (.skipUnlessByte word.x word.byte)
  | 0x5 => some (.skipIfEqual word.x word.y)
  | 0x6 => some (.setByte word.x word.byte)
  | 0x7 => some (.addByte word.x word.byte)
  | 0x8 => (Arithmetic.ofNibble? word.low).map (.arithmetic · word.x word.y)
  | 0x9 => some (.skipUnlessEqual word.x word.y)
  | 0xA => some (.setIndex word.address)
  | 0xB => some (.jumpOffset word.address)
  | 0xC => some (.random word.x word.byte)
  | 0xD => some (.draw word.x word.y word.low)
  | 0xE => ofKey? word
  | _ => ofTransfer? word

end Instruction

end Chip8
