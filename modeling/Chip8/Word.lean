import Chip8.Nibble

/-!
# Instruction words

An instruction is one big-endian word of four nibbles. The first nibble names
its family, the later ones hold registers, bytes, addresses and heights. Every
field carries its bound in its type. The lemma beside a field says which bits of
the word it is made of.
-/

namespace Chip8

/-- One of the sixteen registers `V0` to `VF`. -/
abbrev Register := Nibble

/-- A twelve-bit address, as an instruction can name it. -/
abbrev Address := Fin 4096

/-- A sixteen-bit instruction word. -/
abbrev Word := UInt16

namespace Word

/-- The word made of a high and a low byte. -/
def ofBytes (high low : UInt8) : Word :=
  high.toUInt16 <<< 8 ||| low.toUInt16

/-- A word is 256 times its high byte plus its low byte. -/
theorem toNat_ofBytes (high low : UInt8) :
    (ofBytes high low).toNat = 256 * high.toNat + low.toNat := by
  have highBound : high.toNat < 256 := high.toNat_lt
  have lowBound : low.toNat < 2 ^ 8 := low.toNat_lt
  have shifted : high.toNat <<< 8 % 2 ^ 16 = high.toNat <<< 8 := by
    rw [Nat.shiftLeft_eq]
    omega
  have eight : (8 : UInt16).toNat % 16 = 8 := rfl
  rw [ofBytes, UInt16.toNat_or, UInt16.toNat_shiftLeft, UInt8.toNat_toUInt16,
    UInt8.toNat_toUInt16, eight, shifted, ← Nat.shiftLeft_add_eq_or_of_lt lowBound,
    Nat.shiftLeft_eq]
  omega

/-- The ones of a mask, from a place on, cut a field out of a word. -/
theorem toNat_field (word mask place : Word) (width : Nat)
    (ones : mask.toNat >>> (place.toNat % 16) = 1 <<< width - 1) :
    ((word &&& mask) >>> place).toNat =
      word.toNat / (1 <<< (place.toNat % 16)) % (1 <<< width) := by
  rw [Nat.one_shiftLeft] at ones
  rw [UInt16.toNat_shiftRight, UInt16.toNat_and, Nat.shiftRight_and_distrib, ones,
    Nat.and_two_pow_sub_one_eq_mod, Nat.shiftRight_eq_div_pow, Nat.one_shiftLeft,
    Nat.one_shiftLeft]

/-- The first nibble. -/
def family (word : Word) : Nibble :=
  Fin.ofNat 16 (word.toNat / 4096)

theorem val_family (word : Word) : word.family.val = ((word &&& 0xF000) >>> 12).toNat :=
  (word.toNat_field 0xF000 12 4 rfl).symm

/-- The second nibble, which names a register. -/
def x (word : Word) : Register :=
  Fin.ofNat 16 (word.toNat / 256)

theorem val_x (word : Word) : word.x.val = ((word &&& 0x0F00) >>> 8).toNat :=
  (word.toNat_field 0x0F00 8 4 rfl).symm

/-- The third nibble, which names a register. -/
def y (word : Word) : Register :=
  Fin.ofNat 16 (word.toNat / 16)

theorem val_y (word : Word) : word.y.val = ((word &&& 0x00F0) >>> 4).toNat :=
  (word.toNat_field 0x00F0 4 4 rfl).symm

/-- The last nibble. -/
def low (word : Word) : Nibble :=
  Fin.ofNat 16 word.toNat

theorem val_low (word : Word) : word.low.val = (word &&& 0x000F).toNat := by
  rw [UInt16.toNat_and]
  exact (Nat.and_two_pow_sub_one_eq_mod word.toNat 4).symm

/-- The low byte. -/
def byte (word : Word) : UInt8 :=
  word.toUInt8

theorem toNat_byte (word : Word) : word.byte.toNat = (word &&& 0x00FF).toNat := by
  rw [UInt16.toNat_and]
  exact (Nat.and_two_pow_sub_one_eq_mod word.toNat 8).symm

/-- The last three nibbles. -/
def address (word : Word) : Address :=
  Fin.ofNat 4096 word.toNat

theorem val_address (word : Word) : word.address.val = (word &&& 0x0FFF).toNat := by
  rw [UInt16.toNat_and]
  exact (Nat.and_two_pow_sub_one_eq_mod word.toNat 12).symm

end Word

end Chip8
