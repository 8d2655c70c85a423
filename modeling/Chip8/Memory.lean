import Chip8.Checked

/-!
# Memory

The 4096 bytes that a program can address. A read of one byte and the check of
a range both refuse addresses past the end. A range that does not fit is
reported by the first of its addresses that lies outside, which is the end of
memory or, for a range that starts later, its own start.
-/

namespace Chip8

/-- The bytes of the machine, by address. -/
abbrev Memory := Vector UInt8 4096

namespace Memory

/-- The number of addressable bytes. -/
def size : Nat := 4096

/-- The highest address that twelve bits can express. -/
def lastAddress : Nat := 0x0FFF

/-- Memory full of zeros. -/
def blank : Memory := Vector.replicate 4096 0

/-- The byte at an address. -/
def byteAt (memory : Memory) (address : Nat) : Except Fault UInt8 :=
  match memory[address]? with
  | some byte => .ok byte
  | none => .error (.outOfBounds address)

/-- A range of addresses that lies within memory. -/
structure Span where
  /-- The first address of the range. -/
  first : Nat
  /-- The address after the range. -/
  stop : Nat
  first_le_stop : first ≤ stop
  stop_le_size : stop ≤ size

/-- The range of `count` addresses from `address` on, provided all of it lies within memory. -/
def span (address count : Nat) : Except Fault Span :=
  if fits : address + count ≤ size then
    .ok ⟨address, address + count, Nat.le_add_right address count, fits⟩
  else
    .error (.outOfBounds (max size address))

/-- The bytes of a range. -/
def slice (memory : Memory) (range : Span) : List UInt8 :=
  (memory.extract range.first range.stop).toList

/-- Reads `count` bytes from `address` on. -/
def load (memory : Memory) (address count : Nat) : Except Fault (List UInt8) := do
  let range ← span address count
  return memory.slice range

/-- Writes bytes from `address` on. -/
def store (memory : Memory) (address : Nat) (bytes : List UInt8) : Except Fault Memory := do
  let range ← span address bytes.length
  Checked.write memory range.first bytes

end Memory

end Chip8
