import Chip8.Font
import Chip8.Frame
import Chip8.Word

/-!
# The machine

Everything that a running program can change: registers, counters, timers,
call stack, memory and screen, and two flags that tell the host when to repaint
and when to sound a tone.
-/

namespace Chip8

/-- The sixteen byte registers. -/
abbrev Registers := Vector UInt8 16

namespace Registers

/-- The value of a register. -/
def read (v : Registers) (x : Register) : UInt8 := v.get x

/-- The registers with one of them replaced. -/
def write (v : Registers) (x : Register) (value : UInt8) : Registers := v.set x.val value x.isLt

/-- A register that was written holds its new value, and every other one the value it had. -/
theorem read_write (v : Registers) (x y : Register) (value : UInt8) :
    (v.write x value).read y = if x = y then value else v.read y := by
  show (v.set x.val value x.isLt)[y.val] = if x = y then value else v[y.val]
  rw [Vector.getElem_set]
  exact ite_congr (propext Fin.val_inj) (fun _ => rfl) fun _ => rfl

/-- The registers up to and including one are one more than its number. -/
theorem length_take (v : Registers) (x : Register) :
    (v.toList.take (x.val + 1)).length = x.val + 1 := by
  rw [List.length_take, Vector.length_toList]
  exact Nat.min_eq_left x.isLt

end Registers

/-- The slots of the call stack. -/
abbrev CallStack := Vector UInt16 16

/-- The state of a machine. -/
structure Machine where
  /-- The registers `V0` to `VF`. The last one is also written as a flag. -/
  v : Registers
  /-- The index register, which points into memory. -/
  i : UInt16
  /-- The address of the next instruction. -/
  pc : UInt16
  /-- The number of calls that have not returned. -/
  sp : UInt8
  /-- The delay timer. -/
  delay : UInt8
  /-- The sound timer. -/
  sound : UInt8
  /-- The addresses of the pending calls below `sp`, and what earlier calls left above. -/
  stack : CallStack
  /-- The memory, which holds the program. -/
  memory : Memory
  /-- The screen. -/
  frame : Frame
  /-- Whether the screen is to be painted again. -/
  redraw : Bool
  /-- Whether a tone is to sound. -/
  tone : Bool
  /-- The word of the last instruction fetched by a cycle that succeeded. -/
  word : Word
deriving DecidableEq

namespace Machine

/-- Where a program starts. -/
def programStart : Nat := 0x200

/-- The number of calls that can be pending. -/
def stackDepth : Nat := 16

/-- The register that is also written as a flag. -/
def flagRegister : Register := 0xF

/-- The machine with nothing in memory. Its screen is still to be painted. -/
def blank : Machine where
  v := Vector.replicate 16 0
  i := 0
  pc := UInt16.ofNat programStart
  sp := 0
  delay := 0
  sound := 0
  stack := Vector.replicate 16 0
  memory := Memory.blank
  frame := Frame.blank
  redraw := true
  tone := false
  word := 0

/-- The machine with only the font in memory. -/
def fresh : Machine := { blank with memory := Font.memory }

/-- The machine with nothing in memory, whatever it was before. -/
def erase (_ : Machine) : Machine := blank

/-- The machine as it starts, whatever it was before: everything is erased, and then the font is
put into memory. -/
def reset (machine : Machine) : Machine :=
  let erased := machine.erase
  { erased with memory := overlay erased.memory Font.start Font.glyphs }

theorem reset_eq_fresh (machine : Machine) : machine.reset = fresh := rfl

/-- The word at the program counter, high byte first. -/
def fetch (machine : Machine) : Except Fault Word := do
  let high ← machine.memory.byteAt machine.pc.toNat
  let low ← machine.memory.byteAt (machine.pc.toNat + 1)
  return Word.ofBytes high low

end Machine

end Chip8
