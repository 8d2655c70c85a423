import Chip8.Checked
import Chip8.Frame.Sprite
import Chip8.Instruction
import Chip8.Keypad
import Chip8.Machine

/-!
# Execution of one instruction

`Machine.execute` gives the state after an instruction, or the fault that it
raises. Neither timer runs here, and neither the tone flag nor the record of the
last word changes.

An instruction that writes the flag register writes it first and computes its
result from the registers after that, so an operand or a destination that is
the flag register sees the new flag.
-/

namespace Chip8

/-- The flag as a register value. -/
def flag (set : Bool) : UInt8 := if set then 1 else 0

namespace Arithmetic

/-- The flag that an operation on two values writes, if it writes one: the carry of a sum, the
absence of a borrow, or the bit that is shifted out. -/
def flag? : Arithmetic → UInt8 → UInt8 → Option UInt8
  | add, x, y => some (flag (255 < x.toNat + y.toNat))
  | subtract, x, y => some (flag (y ≤ x))
  | shiftRight, x, _ => some (x &&& 1)
  | subtractFrom, x, y => some (flag (x ≤ y))
  | shiftLeft, x, _ => some (x >>> 7)
  | copy, _, _ | or, _, _ | and, _, _ | xor, _, _ => none

/-- The result of an operation on two values, modulo 256. -/
def result : Arithmetic → UInt8 → UInt8 → UInt8
  | copy, _, y => y
  | or, x, y => x ||| y
  | and, x, y => x &&& y
  | xor, x, y => x ^^^ y
  | add, x, y => x + y
  | subtract, x, y => x - y
  | shiftRight, x, _ => x >>> 1
  | subtractFrom, x, y => y - x
  | shiftLeft, x, _ => x <<< 1

/-- The registers after an operation: first the flag, then the result in the first operand. -/
def apply (operation : Arithmetic) (x y : Register) (v : Registers) : Registers :=
  let flagged :=
    match operation.flag? (v.read x) (v.read y) with
    | some value => v.write Machine.flagRegister value
    | none => v
  flagged.write x (operation.result (flagged.read x) (flagged.read y))

end Arithmetic

/-- The hundreds, tens and ones digits of a byte. -/
def decimalDigits (value : UInt8) : List UInt8 :=
  [value / 100, value / 10 % 10, value % 10]

namespace Machine

/-- What an instruction may ask of the world outside the machine. -/
structure Input where
  /-- The keypad as it stands. -/
  keys : Keypad
  /-- A byte from a source of randomness. -/
  random : UInt8
deriving DecidableEq

/-- The machine with its counter on the next instruction. -/
def advance (machine : Machine) : Except Fault Machine := do
  let pc ← Checked.add machine.pc 2
  return { machine with pc }

/-- The machine with its counter on the next instruction, or on the one after if a condition
holds. -/
def skipIf (machine : Machine) (condition : Bool) : Except Fault Machine := do
  let pc ← Checked.add machine.pc (if condition then 4 else 2)
  return { machine with pc }

/-- The machine with one register replaced. -/
def setRegister (machine : Machine) (x : Register) (value : UInt8) : Machine :=
  { machine with v := machine.v.write x value }

/-- Back behind the call on top of the stack. -/
def returnFromCall (machine : Machine) : Except Fault Machine := do
  if machine.sp = 0 then
    throw (.stackUnderflow machine.pc)
  let sp ← Checked.previous machine.sp
  let callSite ← Checked.entry machine.stack sp.toNat
  let pc ← Checked.add callSite 2
  return { machine with pc, sp }

/-- On to a subroutine, with the address of the call on the stack. -/
def callAt (machine : Machine) (target : Address) : Except Fault Machine := do
  if stackDepth ≤ machine.sp.toNat then
    throw (.stackOverflow machine.pc)
  let stack ← Checked.replace machine.stack machine.sp.toNat machine.pc
  let sp ← Checked.next machine.sp
  return { machine with pc := UInt16.ofNat target.val, sp, stack }

/-- The sprite at the index, flipped onto the screen at the position that two registers held
before the flag was written. The flag tells whether a lit pixel went out. -/
def drawSprite (machine : Machine) (x y : Register) (height : Fin 16) :
    Except Fault Machine := do
  let sprite ← machine.memory.load machine.i.toNat height.val
  let covered := Sprite.pixels (machine.v.read x).toNat (machine.v.read y).toNat sprite
  let drawing := machine.frame.draw covered
  advance
    { machine with
      v := machine.v.write flagRegister (flag drawing.collided)
      frame := drawing.frame
      redraw := true }

/-- The register set to the greatest key that is down. While no key is down the counter stays,
so that the same instruction runs again. -/
def awaitKey (machine : Machine) (x : Register) (keys : Keypad) : Except Fault Machine :=
  match keys.greatestDown? with
  | some key => (machine.setRegister x (UInt8.ofNat key.val)).advance
  | none => .ok machine

/-- The index moved on by a register. The flag tells whether the sum leaves the address space,
and the sum itself takes the register after the flag was written, modulo 65536. -/
def addToIndex (machine : Machine) (x : Register) : Except Fault Machine :=
  let beyond := Memory.lastAddress < machine.i.toNat + (machine.v.read x).toNat
  let v := machine.v.write flagRegister (flag beyond)
  advance { machine with v, i := machine.i + (v.read x).toUInt16 }

/-- The registers up to and including one written to memory at the index, which moves behind
them. -/
def storeRegisters (machine : Machine) (x : Register) : Except Fault Machine := do
  let bytes ← Checked.leading machine.v (x.val + 1)
  let memory ← machine.memory.store machine.i.toNat bytes
  let i ← Checked.add machine.i (UInt16.ofNat (x.val + 1))
  advance { machine with memory, i }

/-- The registers up to and including one read from memory at the index, which moves behind
them. -/
def restoreRegisters (machine : Machine) (x : Register) : Except Fault Machine := do
  let bytes ← machine.memory.load machine.i.toNat (x.val + 1)
  let v ← Checked.write machine.v 0 bytes
  let i ← Checked.add machine.i (UInt16.ofNat (x.val + 1))
  advance { machine with v, i }

/-- The machine after an instruction. -/
def execute (machine : Machine) (input : Input) : Instruction → Except Fault Machine
  | .clear => advance { machine with frame := Frame.blank, redraw := true }
  | .ret => machine.returnFromCall
  | .jump target => .ok { machine with pc := UInt16.ofNat target.val }
  | .call target => machine.callAt target
  | .skipIfByte x byte => machine.skipIf (machine.v.read x == byte)
  | .skipUnlessByte x byte => machine.skipIf (machine.v.read x != byte)
  | .skipIfEqual x y => machine.skipIf (machine.v.read x == machine.v.read y)
  | .setByte x byte => (machine.setRegister x byte).advance
  | .addByte x byte => (machine.setRegister x (machine.v.read x + byte)).advance
  | .arithmetic operation x y =>
    advance { machine with v := operation.apply x y machine.v }
  | .skipUnlessEqual x y => machine.skipIf (machine.v.read x != machine.v.read y)
  | .setIndex target => advance { machine with i := UInt16.ofNat target.val }
  | .jumpOffset target => do
    let pc ← Checked.add (machine.v.read 0).toUInt16 (UInt16.ofNat target.val)
    return { machine with pc }
  | .random x mask => (machine.setRegister x (input.random &&& mask)).advance
  | .draw x y height => machine.drawSprite x y height
  | .skipIfKey x => do
    let down ← input.keys.isDown (machine.v.read x)
    machine.skipIf down
  | .skipUnlessKey x => do
    let down ← input.keys.isDown (machine.v.read x)
    machine.skipIf (!down)
  | .getDelay x => (machine.setRegister x machine.delay).advance
  | .awaitKey x => machine.awaitKey x input.keys
  | .setDelay x => advance { machine with delay := machine.v.read x }
  | .setSound x => advance { machine with sound := machine.v.read x }
  | .addIndex x => machine.addToIndex x
  | .glyph x => do
    let i ← Checked.mul (machine.v.read x).toUInt16 Font.glyphSize
    advance { machine with i }
  | .decimal x => do
    let memory ← machine.memory.store machine.i.toNat (decimalDigits (machine.v.read x))
    advance { machine with memory }
  | .store x => machine.storeRegisters x
  | .restore x => machine.restoreRegisters x

/-- The machine after the instruction that a word stands for. -/
def executeWord (machine : Machine) (input : Input) (word : Word) : Except Fault Machine :=
  match Instruction.ofWord? word with
  | some instruction => machine.execute input instruction
  | none => .error (.unknownWord word)

end Machine

end Chip8
