import Chip8.Instruction

/-!
# The words of an instruction

`Word.Encodes` is the instruction set as a table: one row for each instruction,
with the nibbles that a word for it must have. `ofWord?_eq_some_iff` says that
decoding reads this table, and `ofWord?_eq_none_iff` which words it leaves out.
No instruction is left out: `encodes_word` gives each of them a word.
-/

namespace Chip8

/-- The last nibble of a word in family 8 for an operation. -/
def Arithmetic.nibble : Arithmetic → Nibble
  | copy => 0x0
  | or => 0x1
  | and => 0x2
  | xor => 0x3
  | add => 0x4
  | subtract => 0x5
  | shiftRight => 0x6
  | subtractFrom => 0x7
  | shiftLeft => 0xE

/-- A word stands for an instruction. -/
def Word.Encodes (word : Word) : Instruction → Prop
  | .clear => word.family = 0x0 ∧ word.low = 0x0
  | .ret => word.family = 0x0 ∧ word.low = 0xE
  | .jump target => word.family = 0x1 ∧ word.address = target
  | .call target => word.family = 0x2 ∧ word.address = target
  | .skipIfByte x byte => word.family = 0x3 ∧ word.x = x ∧ word.byte = byte
  | .skipUnlessByte x byte => word.family = 0x4 ∧ word.x = x ∧ word.byte = byte
  | .skipIfEqual x y => word.family = 0x5 ∧ word.x = x ∧ word.y = y
  | .setByte x byte => word.family = 0x6 ∧ word.x = x ∧ word.byte = byte
  | .addByte x byte => word.family = 0x7 ∧ word.x = x ∧ word.byte = byte
  | .arithmetic operation x y =>
    word.family = 0x8 ∧ word.low = operation.nibble ∧ word.x = x ∧ word.y = y
  | .skipUnlessEqual x y => word.family = 0x9 ∧ word.x = x ∧ word.y = y
  | .setIndex target => word.family = 0xA ∧ word.address = target
  | .jumpOffset target => word.family = 0xB ∧ word.address = target
  | .random x mask => word.family = 0xC ∧ word.x = x ∧ word.byte = mask
  | .draw x y height => word.family = 0xD ∧ word.x = x ∧ word.y = y ∧ word.low = height
  | .skipIfKey x => word.family = 0xE ∧ word.low = 0xE ∧ word.x = x
  | .skipUnlessKey x => word.family = 0xE ∧ word.low = 0x1 ∧ word.x = x
  | .getDelay x => word.family = 0xF ∧ word.byte = 0x07 ∧ word.x = x
  | .awaitKey x => word.family = 0xF ∧ word.byte = 0x0A ∧ word.x = x
  | .setDelay x => word.family = 0xF ∧ word.byte = 0x15 ∧ word.x = x
  | .setSound x => word.family = 0xF ∧ word.byte = 0x18 ∧ word.x = x
  | .addIndex x => word.family = 0xF ∧ word.byte = 0x1E ∧ word.x = x
  | .glyph x => word.family = 0xF ∧ word.byte = 0x29 ∧ word.x = x
  | .decimal x => word.family = 0xF ∧ word.byte = 0x33 ∧ word.x = x
  | .store x => word.family = 0xF ∧ word.byte = 0x55 ∧ word.x = x
  | .restore x => word.family = 0xF ∧ word.byte = 0x65 ∧ word.x = x

/-- A word has one of the forms that stand for an instruction. -/
def Word.Known (word : Word) : Prop :=
  word.family = 0x0 ∧ (word.low = 0x0 ∨ word.low = 0xE) ∨
  0x1 ≤ word.family ∧ word.family ≤ 0x7 ∨
  word.family = 0x8 ∧ (word.low ≤ 0x7 ∨ word.low = 0xE) ∨
  0x9 ≤ word.family ∧ word.family ≤ 0xD ∨
  word.family = 0xE ∧ (word.low = 0xE ∨ word.low = 0x1) ∨
  word.family = 0xF ∧
    word.byte.toNat ∈ [0x07, 0x0A, 0x15, 0x18, 0x1E, 0x29, 0x33, 0x55, 0x65]

/-- The nibble of an operation is the one it is read from. -/
theorem Arithmetic.ofNibble?_eq_some_iff {nibble : Fin 16} {operation : Arithmetic} :
    ofNibble? nibble = some operation ↔ nibble = operation.nibble := by
  cases operation <;> revert nibble <;> decide

theorem Arithmetic.ofNibble?_eq_none_iff {nibble : Fin 16} :
    ofNibble? nibble = none ↔ ¬ (nibble ≤ 0x7 ∨ nibble = 0xE) := by
  revert nibble
  decide

namespace Instruction

theorem encodes_of_ofControl? {word : Word} {instruction : Instruction}
    (family : word.family = 0x0) (decoded : ofControl? word = some instruction) :
    word.Encodes instruction := by
  unfold ofControl? at decoded
  split at decoded <;> cases decoded
  · next low => exact ⟨family, low⟩
  · next low => exact ⟨family, low⟩

theorem encodes_of_ofKey? {word : Word} {instruction : Instruction}
    (family : word.family = 0xE) (decoded : ofKey? word = some instruction) :
    word.Encodes instruction := by
  unfold ofKey? at decoded
  split at decoded <;> cases decoded
  · next low => exact ⟨family, low, rfl⟩
  · next low => exact ⟨family, low, rfl⟩

theorem encodes_of_ofTransfer? {word : Word} {instruction : Instruction}
    (family : word.family = 0xF) (decoded : ofTransfer? word = some instruction) :
    word.Encodes instruction := by
  unfold ofTransfer? at decoded
  split at decoded <;> cases decoded
  all_goals next byte => exact ⟨family, UInt8.toNat_inj.mp byte, rfl⟩

/-- Decoding reads the table. -/
theorem ofWord?_eq_some_iff {word : Word} {instruction : Instruction} :
    ofWord? word = some instruction ↔ word.Encodes instruction := by
  constructor
  · intro decoded
    unfold ofWord? at decoded
    split at decoded
    case h_1 family => exact encodes_of_ofControl? family decoded
    case h_9 family =>
      obtain ⟨operation, named, rfl⟩ := Option.map_eq_some_iff.mp decoded
      exact ⟨family, Arithmetic.ofNibble?_eq_some_iff.mp named, rfl, rfl⟩
    case h_15 family => exact encodes_of_ofKey? family decoded
    case h_16 =>
      have family : word.family = 0xF := by grind
      exact encodes_of_ofTransfer? family decoded
    all_goals
      next family =>
        cases decoded
        simp [Word.Encodes, family]
  · intro encoded
    cases instruction
    all_goals simp_all [Word.Encodes, ofWord?, ofControl?, ofKey?, ofTransfer?,
      Arithmetic.ofNibble?_eq_some_iff]

/-- A word stands for one instruction at most. -/
theorem eq_of_encodes {word : Word} {instruction other : Instruction}
    (encodes : word.Encodes instruction) (also : word.Encodes other) : instruction = other :=
  Option.some_inj.mp ((ofWord?_eq_some_iff.mpr encodes).symm.trans (ofWord?_eq_some_iff.mpr also))

/-- Decoding fails on the words that have none of the forms. -/
theorem ofWord?_eq_none_iff {word : Word} : ofWord? word = none ↔ ¬ word.Known := by
  unfold ofWord?
  split
  case h_1 family =>
    simp only [ofControl?, Word.Known, family]
    split <;> simp_all
  case h_9 family =>
    simp [Word.Known, family, Arithmetic.ofNibble?_eq_none_iff]
  case h_15 family =>
    simp only [ofKey?, Word.Known, family]
    split <;> simp_all
  case h_16 =>
    have family : word.family = 0xF := by grind
    simp only [ofTransfer?, Word.Known, family]
    split <;> simp_all
  all_goals
    next family => simp [Word.Known, family]

end Instruction

/-! ## A word for each instruction -/

namespace Word

/-- The word of a family with an address. -/
def ofAddress (family : Nibble) (address : Address) : Word :=
  UInt16.ofNat (family.val * 4096 + address.val)

/-- The word of a family with a register and a byte. -/
def ofByte (family : Nibble) (x : Register) (byte : UInt8) : Word :=
  UInt16.ofNat (family.val * 4096 + x.val * 256 + byte.toNat)

/-- The word of a family with two registers and a nibble. -/
def ofNibbles (family : Nibble) (x y : Register) (low : Nibble) : Word :=
  UInt16.ofNat (family.val * 4096 + x.val * 256 + y.val * 16 + low.val)

theorem toNat_ofAddress (family : Nibble) (address : Address) :
    (ofAddress family address).toNat = family.val * 4096 + address.val := by
  apply UInt16.toNat_ofNat_of_lt'
  simp only [UInt16.size]
  omega

theorem toNat_ofByte (family : Nibble) (x : Register) (byte : UInt8) :
    (ofByte family x byte).toNat = family.val * 4096 + x.val * 256 + byte.toNat := by
  have bound : byte.toNat < 256 := byte.toNat_lt
  apply UInt16.toNat_ofNat_of_lt'
  simp only [UInt16.size]
  omega

theorem toNat_ofNibbles (family : Nibble) (x y : Register) (low : Nibble) :
    (ofNibbles family x y low).toNat =
      family.val * 4096 + x.val * 256 + y.val * 16 + low.val := by
  apply UInt16.toNat_ofNat_of_lt'
  simp only [UInt16.size]
  omega

variable (family x y low : Nibble) (address : Address) (byte : UInt8)

@[simp] theorem family_ofAddress : (ofAddress family address).family = family := by
  simp only [Word.family, toNat_ofAddress, Fin.ext_iff, Fin.val_ofNat]
  omega

@[simp] theorem address_ofAddress : (ofAddress family address).address = address := by
  simp only [Word.address, toNat_ofAddress, Fin.ext_iff, Fin.val_ofNat]
  omega

@[simp] theorem family_ofByte : (ofByte family x byte).family = family := by
  have bound : byte.toNat < 256 := byte.toNat_lt
  simp only [Word.family, toNat_ofByte, Fin.ext_iff, Fin.val_ofNat]
  omega

@[simp] theorem x_ofByte : (ofByte family x byte).x = x := by
  have bound : byte.toNat < 256 := byte.toNat_lt
  simp only [Word.x, toNat_ofByte, Fin.ext_iff, Fin.val_ofNat]
  omega

@[simp] theorem byte_ofByte : (ofByte family x byte).byte = byte := by
  have bound : byte.toNat < 256 := byte.toNat_lt
  apply UInt8.toNat_inj.mp
  rw [Word.byte, UInt16.toNat_toUInt8, toNat_ofByte]
  omega

@[simp] theorem low_ofByte : (ofByte family x byte).low = Fin.ofNat 16 byte.toNat := by
  simp only [Word.low, toNat_ofByte, Fin.ext_iff, Fin.val_ofNat]
  omega

@[simp] theorem family_ofNibbles : (ofNibbles family x y low).family = family := by
  simp only [Word.family, toNat_ofNibbles, Fin.ext_iff, Fin.val_ofNat]
  omega

@[simp] theorem x_ofNibbles : (ofNibbles family x y low).x = x := by
  simp only [Word.x, toNat_ofNibbles, Fin.ext_iff, Fin.val_ofNat]
  omega

@[simp] theorem y_ofNibbles : (ofNibbles family x y low).y = y := by
  simp only [Word.y, toNat_ofNibbles, Fin.ext_iff, Fin.val_ofNat]
  omega

@[simp] theorem low_ofNibbles : (ofNibbles family x y low).low = low := by
  simp only [Word.low, toNat_ofNibbles, Fin.ext_iff, Fin.val_ofNat]
  omega

end Word

namespace Instruction

/-- The word that stands for an instruction. Nibbles that decoding does not look at are as they
are commonly written. -/
def word : Instruction → Word
  | .clear => .ofByte 0x0 0x0 0xE0
  | .ret => .ofByte 0x0 0x0 0xEE
  | .jump target => .ofAddress 0x1 target
  | .call target => .ofAddress 0x2 target
  | .skipIfByte x byte => .ofByte 0x3 x byte
  | .skipUnlessByte x byte => .ofByte 0x4 x byte
  | .skipIfEqual x y => .ofNibbles 0x5 x y 0x0
  | .setByte x byte => .ofByte 0x6 x byte
  | .addByte x byte => .ofByte 0x7 x byte
  | .arithmetic operation x y => .ofNibbles 0x8 x y operation.nibble
  | .skipUnlessEqual x y => .ofNibbles 0x9 x y 0x0
  | .setIndex target => .ofAddress 0xA target
  | .jumpOffset target => .ofAddress 0xB target
  | .random x mask => .ofByte 0xC x mask
  | .draw x y height => .ofNibbles 0xD x y height
  | .skipIfKey x => .ofByte 0xE x 0x9E
  | .skipUnlessKey x => .ofByte 0xE x 0xA1
  | .getDelay x => .ofByte 0xF x 0x07
  | .awaitKey x => .ofByte 0xF x 0x0A
  | .setDelay x => .ofByte 0xF x 0x15
  | .setSound x => .ofByte 0xF x 0x18
  | .addIndex x => .ofByte 0xF x 0x1E
  | .glyph x => .ofByte 0xF x 0x29
  | .decimal x => .ofByte 0xF x 0x33
  | .store x => .ofByte 0xF x 0x55
  | .restore x => .ofByte 0xF x 0x65

theorem encodes_word (instruction : Instruction) : instruction.word.Encodes instruction := by
  cases instruction with
  | clear | ret => exact ⟨by decide, by decide⟩
  | skipIfKey x | skipUnlessKey x =>
    exact ⟨Word.family_ofByte _ _ _, (Word.low_ofByte _ _ _).trans (by decide),
      Word.x_ofByte _ _ _⟩
  | _ => simp [word, Word.Encodes]

end Instruction

end Chip8
