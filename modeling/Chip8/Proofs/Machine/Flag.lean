import Chip8.Proofs.Machine.Sequence

/-!
# Arithmetic with a flag

The instructions that tell in the flag register how a sum, a difference or a shift
came out, in integers. Where the flag register is not among the operands, flag and
result together are exact: nothing is lost modulo 256.

Where it is among them, the flag is computed from the old values and written
first, and the result is computed after that. An operand that is the flag register
then counts as the new flag (`seen`), and a result that goes to the flag register
takes the place of the new flag. `FlagLaw` puts the instructions together, one
field for each form of word, and `flag_arithmetic` says that every word keeps it.
-/

namespace Chip8

/-- A condition as an integer. -/
def bit (condition : Prop) [Decidable condition] : Int := if condition then 1 else 0

/-- The value of a register as an integer. -/
def Registers.number (v : Registers) (x : Register) : Int := (v.read x).toNat

open Machine (flagRegister)

/-! ## The laws -/

/-- What becomes of a sum: it is exact with its carry, unless the carry is one of its operands. -/
structure SumLaw (x y : Register) (v next : Registers) : Prop where
  exact_sum :
    x ≠ flagRegister → y ≠ flagRegister →
      next.number x + 256 * next.number flagRegister = v.number x + v.number y
  flag : x ≠ flagRegister → next.number flagRegister = bit (255 < v.number x + v.number y)
  plus_flag :
    x ≠ flagRegister → y = flagRegister →
      next.number x = (v.number x + bit (255 < v.number x + v.number y)) % 256
  flag_plus :
    x = flagRegister → y ≠ flagRegister →
      next.number flagRegister = (bit (255 < v.number x + v.number y) + v.number y) % 256
  flag_plus_flag :
    x = flagRegister → y = flagRegister →
      next.number flagRegister = 2 * bit (255 < v.number x + v.number y)

/-- What becomes of a difference, which goes to the one or the other of its operands: it is exact
with its borrow, which the flag is the absence of, unless the flag is one of its operands. -/
structure DifferenceLaw (target minuend subtrahend : Register) (v next : Registers) : Prop where
  exact_difference :
    minuend ≠ flagRegister → subtrahend ≠ flagRegister →
      next.number target =
        v.number minuend - v.number subtrahend + 256 * (1 - next.number flagRegister)
  flag :
    target ≠ flagRegister →
      next.number flagRegister = bit (v.number subtrahend ≤ v.number minuend)
  minus_flag :
    minuend ≠ flagRegister → subtrahend = flagRegister →
      next.number target =
        (v.number minuend - bit (v.number subtrahend ≤ v.number minuend)) % 256
  flag_minus :
    minuend = flagRegister → subtrahend ≠ flagRegister →
      next.number target =
        (bit (v.number subtrahend ≤ v.number minuend) - v.number subtrahend) % 256
  flag_minus_flag :
    minuend = flagRegister → subtrahend = flagRegister → next.number target = 0

/-- What becomes of a shift to the right: the bit that is shifted out is not lost. -/
structure HalfLaw (x : Register) (v next : Registers) : Prop where
  exact_half : x ≠ flagRegister → 2 * next.number x + next.number flagRegister = v.number x
  flag : x ≠ flagRegister → next.number flagRegister = v.number x % 2
  half_flag : x = flagRegister → next.number flagRegister = 0

/-- What becomes of a shift to the left: the bit that is shifted out is not lost. -/
structure DoubleLaw (x : Register) (v next : Registers) : Prop where
  exact_double :
    x ≠ flagRegister → next.number x + 256 * next.number flagRegister = 2 * v.number x
  flag : x ≠ flagRegister → next.number flagRegister = v.number x / 128
  double_flag : x = flagRegister → next.number flagRegister = 2 * (v.number x / 128)

/-- What becomes of a register added to the index. The flag tells whether the sum leaves the
address space, also if the index had left it before, or if the sum wraps. -/
structure OffsetLaw (x : Register) (machine next : Machine) : Prop where
  sum :
    x ≠ flagRegister →
      (next.i.toNat : Int) = (machine.i.toNat + machine.v.number x) % 65536
  plus_flag :
    x = flagRegister →
      (next.i.toNat : Int) =
        (machine.i.toNat + bit (0xFFF < machine.i.toNat + machine.v.number x)) % 65536
  flag :
    next.v.number flagRegister = bit (0xFFF < machine.i.toNat + machine.v.number x)

/-- A word has one of the forms that compute a flag from two values. -/
def Word.ComputesFlag (word : Word) : Prop :=
  word.family = 0x8 ∧
    (word.low = 0x4 ∨ word.low = 0x5 ∨ word.low = 0x6 ∨ word.low = 0x7 ∨ word.low = 0xE) ∨
  word.family = 0xF ∧ word.byte = 0x1E

namespace Machine

/-- The flag and the result in the next machine are what a word makes of its operands. -/
structure FlagLaw (machine : Machine) (word : Word) (next : Machine) : Prop where
  add :
    word.family = 0x8 → word.low = 0x4 → SumLaw word.x word.y machine.v next.v
  subtract :
    word.family = 0x8 → word.low = 0x5 → DifferenceLaw word.x word.x word.y machine.v next.v
  shiftRight :
    word.family = 0x8 → word.low = 0x6 → HalfLaw word.x machine.v next.v
  subtractFrom :
    word.family = 0x8 → word.low = 0x7 → DifferenceLaw word.x word.y word.x machine.v next.v
  shiftLeft :
    word.family = 0x8 → word.low = 0xE → DoubleLaw word.x machine.v next.v
  addIndex :
    word.family = 0xF → word.byte = 0x1E → OffsetLaw word.x machine next
  /-- No other register takes part. -/
  registers (register : Register) :
    word.ComputesFlag → register ≠ word.x → register ≠ flagRegister →
      next.v.read register = machine.v.read register

end Machine

/-! ## Bytes as integers -/

theorem Registers.number_nonneg (v : Registers) (x : Register) : 0 ≤ v.number x :=
  Int.natCast_nonneg _

theorem Registers.number_lt (v : Registers) (x : Register) : v.number x < 256 :=
  Int.ofNat_lt.mpr (v.read x).toNat_lt

theorem bit_eq_zero_or_one (condition : Prop) [Decidable condition] :
    bit condition = 0 ∨ bit condition = 1 := by
  unfold bit
  split
  · exact .inr rfl
  · exact .inl rfl

/-- A flag is raised where its condition holds, however the condition is decided. -/
theorem toNat_flag {condition same : Prop} [Decidable condition] [Decidable same]
    (equivalent : condition ↔ same) : ((flag (decide condition)).toNat : Int) = bit same := by
  by_cases holds : same
  · simp [flag, bit, holds, equivalent]
  · simp [flag, bit, holds, equivalent]

theorem toNat_add_byte (first second : UInt8) :
    ((first + second).toNat : Int) = ((first.toNat : Int) + second.toNat) % 256 := by
  rw [UInt8.toNat_add]
  omega

theorem toNat_sub_byte (first second : UInt8) :
    ((first - second).toNat : Int) = ((first.toNat : Int) - second.toNat) % 256 := by
  have bound := second.toNat_lt
  rw [UInt8.toNat_sub]
  omega

theorem toNat_half_byte (byte : UInt8) : ((byte >>> 1).toNat : Int) = (byte.toNat : Int) / 2 := by
  rw [UInt8.toNat_shiftRight]
  exact congrArg Int.ofNat (Nat.shiftRight_eq_div_pow byte.toNat 1)

theorem toNat_double_byte (byte : UInt8) :
    ((byte <<< 1).toNat : Int) = 2 * (byte.toNat : Int) % 256 := by
  have doubled : byte.toNat <<< 1 = byte.toNat * 2 := Nat.shiftLeft_eq byte.toNat 1
  rw [UInt8.toNat_shiftLeft]
  simp only [UInt8.toNat_one, doubled]
  omega

/-! ## Registers after an operation -/

namespace Arithmetic

/-- The value of a register as an operation sees it that has written its flag. -/
def seen (v : Registers) (raised : UInt8) (x : Register) : UInt8 :=
  if x = flagRegister then raised else v.read x

variable {operation : Arithmetic} {x y : Register} {v : Registers} {raised : UInt8}

theorem read_flagged (v : Registers) (raised : UInt8) (x : Register) :
    (v.write flagRegister raised).read x = seen v raised x := by
  rw [Registers.read_write, seen]
  exact ite_congr (propext eq_comm) (fun _ => rfl) fun _ => rfl

/-- The result is computed from what the operation sees. -/
theorem number_apply (computed : operation.flag? (v.read x) (v.read y) = some raised) :
    (operation.apply x y v).number x =
      (operation.result (seen v raised x) (seen v raised y)).toNat := by
  simp only [Registers.number, apply, computed, read_flagged]
  rw [Registers.read_write, if_pos rfl]

/-- The flag stays what it is unless the result replaces it. -/
theorem number_apply_flag (computed : operation.flag? (v.read x) (v.read y) = some raised)
    (other : x ≠ flagRegister) : (operation.apply x y v).number flagRegister = raised.toNat := by
  simp only [Registers.number, apply, computed, Registers.read_write, if_neg other, if_true]

theorem toNat_seen (v : Registers) (raised : UInt8) (x : Register) :
    ((seen v raised x).toNat : Int) =
      if x = flagRegister then (raised.toNat : Int) else v.number x := by
  unfold seen
  split <;> rfl

/-- A sum keeps its law. -/
theorem sumLaw (x y : Register) (v : Registers) : SumLaw x y v (add.apply x y v) := by
  obtain ⟨raised, computed⟩ : ∃ raised, add.flag? (v.read x) (v.read y) = some raised :=
    ⟨_, rfl⟩
  have value : (raised.toNat : Int) = bit (255 < v.number x + v.number y) := by
    cases computed
    exact toNat_flag (by simp only [Registers.number]; omega)
  have result : (add.apply x y v).number x =
      ((seen v raised x).toNat + (seen v raised y).toNat) % 256 :=
    (number_apply computed).trans (toNat_add_byte _ _)
  rw [toNat_seen, toNat_seen, value] at result
  have flagged (other : x ≠ flagRegister) := (number_apply_flag computed other).trans value
  have lowX := v.number_nonneg x
  have highX := v.number_lt x
  have lowY := v.number_nonneg y
  have highY := v.number_lt y
  have binary := bit_eq_zero_or_one (255 < v.number x + v.number y)
  exact
    { exact_sum := fun xOther yOther => by
        rw [result, flagged xOther, if_neg xOther, if_neg yOther, bit]
        split <;> omega
      flag := flagged
      plus_flag := fun xOther yFlag => by rw [result, if_neg xOther, if_pos yFlag]
      flag_plus := fun xFlag yOther => by
        subst xFlag
        rw [result, if_pos rfl, if_neg yOther]
      flag_plus_flag := fun xFlag yFlag => by
        subst xFlag
        rw [result, if_pos rfl, if_pos yFlag]
        omega }

/-- A difference keeps its law, if the flag and the result are those of a difference. -/
theorem differenceLaw {minuend subtrahend : Register}
    (operands : minuend = x ∨ subtrahend = x)
    (computed : operation.flag? (v.read x) (v.read y) = some raised)
    (value : (raised.toNat : Int) = bit (v.number subtrahend ≤ v.number minuend))
    (result : (operation.result (seen v raised x) (seen v raised y)) =
      seen v raised minuend - seen v raised subtrahend) :
    DifferenceLaw x minuend subtrahend v (operation.apply x y v) := by
  have result : (operation.apply x y v).number x =
      ((seen v raised minuend).toNat - (seen v raised subtrahend).toNat) % 256 := by
    rw [number_apply computed, result, toNat_sub_byte]
  rw [toNat_seen, toNat_seen, value] at result
  have flagged (other : x ≠ flagRegister) := (number_apply_flag computed other).trans value
  have lowMinuend := v.number_nonneg minuend
  have highMinuend := v.number_lt minuend
  have lowSubtrahend := v.number_nonneg subtrahend
  have highSubtrahend := v.number_lt subtrahend
  exact
    { exact_difference := fun minuendOther subtrahendOther => by
        have other : x ≠ flagRegister := by
          rcases operands with rfl | rfl
          · exact minuendOther
          · exact subtrahendOther
        rw [result, flagged other, if_neg minuendOther, if_neg subtrahendOther, bit]
        split <;> omega
      flag := flagged
      minus_flag := fun minuendOther subtrahendFlag => by
        rw [result, if_neg minuendOther, if_pos subtrahendFlag]
      flag_minus := fun minuendFlag subtrahendOther => by
        rw [result, if_pos minuendFlag, if_neg subtrahendOther]
      flag_minus_flag := fun minuendFlag subtrahendFlag => by
        rw [result, if_pos minuendFlag, if_pos subtrahendFlag, Int.sub_self]
        rfl }

theorem differenceLaw_subtract (x y : Register) (v : Registers) :
    DifferenceLaw x x y v (subtract.apply x y v) := by
  refine differenceLaw (.inl rfl) rfl (toNat_flag ?_) rfl
  rw [UInt8.le_iff_toNat_le]
  exact Int.ofNat_le.symm

theorem differenceLaw_subtractFrom (x y : Register) (v : Registers) :
    DifferenceLaw x y x v (subtractFrom.apply x y v) := by
  refine differenceLaw (.inr rfl) rfl (toNat_flag ?_) rfl
  rw [UInt8.le_iff_toNat_le]
  exact Int.ofNat_le.symm

/-- A shift to the right keeps its law. -/
theorem halfLaw (x y : Register) (v : Registers) : HalfLaw x v (shiftRight.apply x y v) := by
  obtain ⟨raised, computed⟩ : ∃ raised, shiftRight.flag? (v.read x) (v.read y) = some raised :=
    ⟨_, rfl⟩
  have value : (raised.toNat : Int) = v.number x % 2 := by
    cases computed
    rw [UInt8.toNat_and]
    exact congrArg Int.ofNat (Nat.and_one_is_mod _)
  have result : (shiftRight.apply x y v).number x = ((seen v raised x).toNat : Int) / 2 :=
    (number_apply computed).trans (toNat_half_byte _)
  rw [toNat_seen, value] at result
  have flagged (other : x ≠ flagRegister) := (number_apply_flag computed other).trans value
  exact
    { exact_half := fun other => by
        rw [result, flagged other, if_neg other]
        omega
      flag := flagged
      half_flag := fun isFlag => by
        subst isFlag
        rw [result, if_pos rfl]
        omega }

/-- A shift to the left keeps its law. -/
theorem doubleLaw (x y : Register) (v : Registers) : DoubleLaw x v (shiftLeft.apply x y v) := by
  obtain ⟨raised, computed⟩ : ∃ raised, shiftLeft.flag? (v.read x) (v.read y) = some raised :=
    ⟨_, rfl⟩
  have value : (raised.toNat : Int) = v.number x / 128 := by
    cases computed
    rw [UInt8.toNat_shiftRight]
    exact congrArg Int.ofNat (Nat.shiftRight_eq_div_pow _ 7)
  have result : (shiftLeft.apply x y v).number x = 2 * ((seen v raised x).toNat : Int) % 256 :=
    (number_apply computed).trans (toNat_double_byte _)
  rw [toNat_seen, value] at result
  have flagged (other : x ≠ flagRegister) := (number_apply_flag computed other).trans value
  have low := v.number_nonneg x
  have high := v.number_lt x
  exact
    { exact_double := fun other => by
        rw [result, flagged other, if_neg other]
        omega
      flag := flagged
      double_flag := fun isFlag => by
        subst isFlag
        rw [result, if_pos rfl]
        omega }

end Arithmetic

/-! ## Words -/

namespace Machine

variable {machine next : Machine} {input : Input} {word : Word}

/-- A register added to the index keeps its law. -/
theorem offsetLaw (machine : Machine) (input : Input) (x : Register) :
    OffsetLaw x machine (machine.effect input (.addIndex x)) := by
  let beyond := flag (Memory.lastAddress < machine.i.toNat + (machine.v.read x).toNat)
  have value : (beyond.toNat : Int) = bit (0xFFF < machine.i.toNat + machine.v.number x) :=
    toNat_flag (by simp only [Memory.lastAddress, Registers.number]; omega)
  have index : (machine.effect input (.addIndex x)).i =
      machine.i + ((machine.v.write flagRegister beyond).read x).toUInt16 := rfl
  have sum : ((machine.effect input (.addIndex x)).i.toNat : Int) =
      (machine.i.toNat + ((machine.v.write flagRegister beyond).read x).toNat) % 65536 := by
    rw [index, UInt16.toNat_add, UInt8.toNat_toUInt16]
    omega
  rw [Arithmetic.read_flagged, Arithmetic.toNat_seen, value] at sum
  have flagged : (machine.effect input (.addIndex x)).v.read flagRegister = beyond :=
    (machine.v.read_write flagRegister flagRegister beyond).trans (if_pos rfl)
  exact
    { sum := fun other => by rw [sum, if_neg other]
      plus_flag := fun isFlag => by rw [sum, if_pos isFlag]
      flag := by rw [Registers.number, flagged, value] }

theorem eq_or_flag_of_writesRegister {register : Register} (computes : word.ComputesFlag)
    (writes : word.WritesRegister register) : register = word.x ∨ register = flagRegister := by
  rcases writes with ⟨first, -⟩ | ⟨either, -⟩ | ⟨flagged, -⟩ | ⟨-, family, byte⟩
  · exact .inl first
  · exact either
  · exact .inr flagged
  · simp [Word.ComputesFlag, family, byte] at computes

theorem flagLaw_of_executeWord (executed : machine.executeWord input word = .ok next) :
    machine.FlagLaw word next := by
  have registers (operation : Arithmetic) (family : word.family = 0x8)
      (low : word.low = operation.nibble) :
      next.v = operation.apply word.x word.y machine.v := by
    have encodes : word.Encodes (.arithmetic operation word.x word.y) := ⟨family, low, rfl, rfl⟩
    rw [eq_effect_of_encodes encodes executed]
    rfl
  exact
    { add := fun family low => registers .add family low ▸ Arithmetic.sumLaw _ _ _
      subtract := fun family low =>
        registers .subtract family low ▸ Arithmetic.differenceLaw_subtract _ _ _
      shiftRight := fun family low =>
        registers .shiftRight family low ▸ Arithmetic.halfLaw _ word.y _
      subtractFrom := fun family low =>
        registers .subtractFrom family low ▸ Arithmetic.differenceLaw_subtractFrom _ _ _
      shiftLeft := fun family low =>
        registers .shiftLeft family low ▸ Arithmetic.doubleLaw _ word.y _
      addIndex := fun family byte => by
        have encodes : word.Encodes (.addIndex word.x) := ⟨family, byte, rfl⟩
        rw [eq_effect_of_encodes encodes executed]
        exact offsetLaw machine input word.x
      registers := fun register computes other notFlag =>
        Decidable.byContradiction fun changed =>
          (eq_or_flag_of_writesRegister computes
            ((footprint_of_executeWord executed).registers register changed)).elim other notFlag }

/-- A word that computes a flag raises no fault and goes on to the next word. -/
theorem exists_encodes_of_computesFlag (machine : Machine) (input : Input)
    (computes : word.ComputesFlag) :
    ∃ instruction, word.Encodes instruction ∧ machine.fault? instruction = none ∧
      machine.stride input instruction = 2 := by
  rcases computes with ⟨family, low | low | low | low | low⟩ | ⟨family, byte⟩
  · exact ⟨.arithmetic .add word.x word.y, ⟨family, low, rfl, rfl⟩, rfl, rfl⟩
  · exact ⟨.arithmetic .subtract word.x word.y, ⟨family, low, rfl, rfl⟩, rfl, rfl⟩
  · exact ⟨.arithmetic .shiftRight word.x word.y, ⟨family, low, rfl, rfl⟩, rfl, rfl⟩
  · exact ⟨.arithmetic .subtractFrom word.x word.y, ⟨family, low, rfl, rfl⟩, rfl, rfl⟩
  · exact ⟨.arithmetic .shiftLeft word.x word.y, ⟨family, low, rfl, rfl⟩, rfl, rfl⟩
  · exact ⟨.addIndex word.x, ⟨family, byte, rfl⟩, rfl, rfl⟩

/-- A word that computes a flag succeeds if there is room for the counter, and whenever it succeeds
its flag and its result are exact, or follow from the new flag where the flag register takes
part. -/
theorem flag_arithmetic (machine : Machine) (input : Input) (word : Word)
    (computes : word.ComputesFlag) :
    (machine.pc.toNat + 2 < UInt16.size →
      ∃ next, machine.executeWord input word = .ok next) ∧
    ∀ next, machine.executeWord input word = .ok next → machine.FlagLaw word next := by
  constructor
  · intro room
    obtain ⟨instruction, encodes, harmless, stride⟩ :=
      exists_encodes_of_computesFlag machine input computes
    exact ⟨_, executeWord_of_room encodes harmless (by rw [stride]; exact room)⟩
  · intro next executed
    exact flagLaw_of_executeWord executed

/-- A carry is written to the flag register before it is an operand of the sum that replaces it. An
index behind the address space wraps, and so does its sum with the flag that says so. -/
theorem flag_arithmetic_on_flag :
    let machine := { (fresh.setRegister 0xF 255).setRegister 1 3 with i := 0xFFFF }
    let input : Input := ⟨Keypad.released, 0⟩
    Word.ComputesFlag 0x8F14 ∧ Word.ComputesFlag 0xFF1E ∧
      ∃ sum offset, machine.executeWord input 0x8F14 = .ok sum ∧
        machine.executeWord input 0xFF1E = .ok offset ∧
        machine.FlagLaw 0x8F14 sum ∧ machine.FlagLaw 0xFF1E offset ∧
        sum.v.number 0xF = 4 ∧ offset.i = 0 ∧ offset.v.number 0xF = 1 := by
  intro machine input
  have computesSum : Word.ComputesFlag 0x8F14 := .inl (by decide)
  have computesOffset : Word.ComputesFlag 0xFF1E := .inr (by decide)
  have sums := flag_arithmetic machine input 0x8F14 computesSum
  have offsets := flag_arithmetic machine input 0xFF1E computesOffset
  obtain ⟨sum, executedSum⟩ := sums.1 (by decide)
  obtain ⟨offset, executedOffset⟩ := offsets.1 (by decide)
  have lawOfSum := sums.2 sum executedSum
  have lawOfOffset := offsets.2 offset executedOffset
  have carried : sum.v.number 0xF = 4 :=
    ((lawOfSum.add (by decide) (by decide)).flag_plus (by decide) (by decide)).trans (by decide)
  have beyond := lawOfOffset.addIndex (by decide) (by decide)
  have wrapped : (offset.i.toNat : Int) = 0 := (beyond.plus_flag (by decide)).trans (by decide)
  have flagged : offset.v.number 0xF = 1 := beyond.flag.trans (by decide)
  exact ⟨computesSum, computesOffset, sum, offset, executedSum, executedOffset, lawOfSum,
    lawOfOffset, carried, UInt16.toNat_inj.mp (Int.ofNat_inj.mp wrapped), flagged⟩

end Machine

end Chip8
