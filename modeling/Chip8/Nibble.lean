/-!
# Nibbles

A nibble is one of the sixteen values of four bits: a digit of a number written
in hexadecimal, the name of a register, or the label of a key.
-/

namespace Chip8

/-- A value of four bits. -/
abbrev Nibble := Fin 16

/-- Numerals and remainders stand for nibbles because sixteen is not zero. The fact has a name
here, so that `0xF : Nibble` is one and the same term in every module: without one, each module
that writes a nibble would make a lemma of its own of it. -/
instance Nibble.neZero_sixteen : @NeZero Nat Zero.ofOfNat0 16 := Nat.instNeZeroSucc

end Chip8
