import Chip8.Proofs.Frame
import Chip8.Proofs.Instruction
import Chip8.Proofs.Machine.Effect
import Chip8.Proofs.Sprite

/-!
# What a word may change

`Footprint` is the frame law of the instruction set. For each part of a machine
it names the words that change it, and where the part has positions, the
positions that they change. `footprint_of_executeWord` says that every word
keeps the law in every machine in which it can be executed, also in one whose
counter has left memory.

The counter has no part in the law, for nearly every word changes it.
-/

namespace Chip8

/-- A word writes a register, as far as the word alone tells. -/
def Word.WritesRegister (word : Word) (register : Register) : Prop :=
  register = word.x ∧
    (word.family = 0x6 ∨ word.family = 0x7 ∨ word.family = 0xC ∨
      word.family = 0xF ∧ (word.byte = 0x07 ∨ word.byte = 0x0A) ∨
      word.family = 0x8 ∧ word.low ≤ 0x3) ∨
  (register = word.x ∨ register = 0xF) ∧
    word.family = 0x8 ∧ (0x4 ≤ word.low ∧ word.low ≤ 0x7 ∨ word.low = 0xE) ∨
  register = 0xF ∧ (word.family = 0xD ∨ word.family = 0xF ∧ word.byte = 0x1E) ∨
  register ≤ word.x ∧ word.family = 0xF ∧ word.byte = 0x65

namespace Machine

/-- A word writes the byte at an address: one of three digits, or one of the registers up to and
including the one that the word names. -/
def Stores (machine : Machine) (word : Word) (address : Nat) : Prop :=
  word.family = 0xF ∧ machine.i.toNat ≤ address ∧
    (word.byte = 0x33 ∧ address < machine.i.toNat + 3 ∨
      word.byte = 0x55 ∧ address ≤ machine.i.toNat + word.x.val)

/-- A word changes a pixel, if at all: it clears the screen, or it draws a sprite whose box of
eight columns holds the pixel. -/
def Paints (machine : Machine) (word : Word) (pixel : Pixel) : Prop :=
  word.family = 0x0 ∧ word.low = 0x0 ∨
  word.family = 0xD ∧
    (machine.v.read word.x).toNat ≤ pixel.x.val ∧
    pixel.x.val < (machine.v.read word.x).toNat + 8 ∧
    (machine.v.read word.y).toNat ≤ pixel.y.val ∧
    pixel.y.val < (machine.v.read word.y).toNat + word.low.val

/-- The machine after a word differs from the one before it nowhere but in its counter and where
the word may change it. -/
structure Footprint (machine : Machine) (word : Word) (next : Machine) : Prop where
  memory (address : Fin 4096) :
    next.memory.get address ≠ machine.memory.get address → machine.Stores word address.val
  frame (pixel : Pixel) :
    next.frame.level pixel ≠ machine.frame.level pixel → machine.Paints word pixel
  stack (slot : Fin 16) :
    next.stack.get slot ≠ machine.stack.get slot →
      word.family = 0x2 ∧ slot.val = machine.sp.toNat
  depth : next.sp ≠ machine.sp → word.family = 0x2 ∨ word.family = 0x0 ∧ word.low = 0xE
  index :
    next.i ≠ machine.i →
      word.family = 0xA ∨
        word.family = 0xF ∧
          (word.byte = 0x1E ∨ word.byte = 0x29 ∨ word.byte = 0x55 ∨ word.byte = 0x65)
  delay : next.delay ≠ machine.delay → word.family = 0xF ∧ word.byte = 0x15
  sound : next.sound ≠ machine.sound → word.family = 0xF ∧ word.byte = 0x18
  registers (register : Register) :
    next.v.read register ≠ machine.v.read register → word.WritesRegister register
  /-- The screen is to be painted again exactly after a clear or a draw, and where it was to be
  painted already. -/
  redraw :
    next.redraw =
      (machine.redraw || decide (word.family = 0x0 ∧ word.low = 0x0 ∨ word.family = 0xD))
  tone : next.tone = machine.tone
  word : next.word = machine.word

variable {machine : Machine} {word : Word} {instruction : Instruction}

/-! ## Part by part -/

theorem stores_of_nextMemory_ne (encodes : word.Encodes instruction) {address : Fin 4096}
    (changed : (machine.nextMemory instruction).get address ≠ machine.memory.get address) :
    machine.Stores word address.val := by
  cases instruction with
  | decimal x =>
    obtain ⟨family, byte, rfl⟩ := encodes
    obtain ⟨after, before⟩ := covered_of_getElem_overlay_ne address.isLt changed
    exact ⟨family, after, .inl ⟨byte, before⟩⟩
  | store x =>
    obtain ⟨family, byte, rfl⟩ := encodes
    obtain ⟨after, before⟩ := covered_of_getElem_overlay_ne address.isLt changed
    rw [machine.v.length_take] at before
    exact ⟨family, after, .inr ⟨byte, by omega⟩⟩
  | _ => exact absurd rfl changed

theorem paints_of_nextFrame_ne (encodes : word.Encodes instruction) {pixel : Pixel}
    (changed : (machine.nextFrame instruction).level pixel ≠ machine.frame.level pixel) :
    machine.Paints word pixel := by
  cases instruction with
  | clear => exact .inl encodes
  | draw x y height =>
    obtain ⟨family, rfl, rfl, rfl⟩ := encodes
    have covered := Frame.mem_of_level_draw_ne (Sprite.nodup_pixels _ _ _) changed
    obtain ⟨below, right, near, row, found, -⟩ := Sprite.mem_pixels.mp covered
    obtain ⟨inside, -⟩ := List.getElem?_eq_some_iff.mp found
    rw [Memory.block, Vector.length_toList] at inside
    exact .inr ⟨family, right, near, below, by omega⟩
  | _ => exact absurd rfl changed

theorem call_of_nextStack_ne (encodes : word.Encodes instruction) {slot : Fin 16}
    (changed : (machine.nextStack instruction).get slot ≠ machine.stack.get slot) :
    word.family = 0x2 ∧ slot.val = machine.sp.toNat := by
  cases instruction with
  | call target =>
    refine ⟨encodes.1, ?_⟩
    refine Decidable.byContradiction fun differs => changed ?_
    exact Vector.getElem_setIfInBounds_ne slot.isLt (Ne.symm differs)
  | _ => exact absurd rfl changed

theorem call_or_ret_of_nextDepth_ne (encodes : word.Encodes instruction)
    (changed : machine.nextDepth instruction ≠ machine.sp) :
    word.family = 0x2 ∨ word.family = 0x0 ∧ word.low = 0xE := by
  cases instruction with
  | call target => exact .inl encodes.1
  | ret => exact .inr encodes
  | _ => exact absurd rfl changed

theorem family_of_nextIndex_ne {input : Input} (encodes : word.Encodes instruction)
    (changed : machine.nextIndex input instruction ≠ machine.i) :
    word.family = 0xA ∨
      word.family = 0xF ∧
        (word.byte = 0x1E ∨ word.byte = 0x29 ∨ word.byte = 0x55 ∨ word.byte = 0x65) := by
  cases instruction with
  | setIndex target => exact .inl encodes.1
  | addIndex x => exact .inr ⟨encodes.1, .inl encodes.2.1⟩
  | glyph x => exact .inr ⟨encodes.1, .inr (.inl encodes.2.1)⟩
  | store x => exact .inr ⟨encodes.1, .inr (.inr (.inl encodes.2.1))⟩
  | restore x => exact .inr ⟨encodes.1, .inr (.inr (.inr encodes.2.1))⟩
  | _ => exact absurd rfl changed

theorem byte_of_nextDelay_ne (encodes : word.Encodes instruction)
    (changed : machine.nextDelay instruction ≠ machine.delay) :
    word.family = 0xF ∧ word.byte = 0x15 := by
  cases instruction with
  | setDelay x => exact ⟨encodes.1, encodes.2.1⟩
  | _ => exact absurd rfl changed

theorem byte_of_nextSound_ne (encodes : word.Encodes instruction)
    (changed : machine.nextSound instruction ≠ machine.sound) :
    word.family = 0xF ∧ word.byte = 0x18 := by
  cases instruction with
  | setSound x => exact ⟨encodes.1, encodes.2.1⟩
  | _ => exact absurd rfl changed

theorem nextRedraw_eq (encodes : word.Encodes instruction) :
    machine.nextRedraw instruction =
      (machine.redraw || decide (word.family = 0x0 ∧ word.low = 0x0 ∨ word.family = 0xD)) := by
  cases instruction
  all_goals simp_all [Word.Encodes, nextRedraw]

/-! ## Registers -/

theorem eq_of_write_ne {v : Registers} {x register : Register} {value : UInt8}
    (changed : (v.write x value).read register ≠ v.read register) : register = x := by
  refine Decidable.byContradiction fun differs => changed ?_
  exact (v.read_write x register value).trans (if_neg (Ne.symm differs))

/-- An operation writes its first register, and the flag register if it has a flag. -/
theorem eq_or_flag_of_apply_ne {operation : Arithmetic} {x y register : Register} {v : Registers}
    (changed : (operation.apply x y v).read register ≠ v.read register) :
    register = x ∨
      register = flagRegister ∧ operation.flag? (v.read x) (v.read y) ≠ none := by
  refine Decidable.byContradiction fun outside => changed ?_
  obtain ⟨notFirst, notFlag⟩ := not_or.mp outside
  rw [Arithmetic.apply, Registers.read_write, if_neg (Ne.symm notFirst)]
  cases raised : operation.flag? (v.read x) (v.read y) with
  | none => rfl
  | some value =>
    have other : register ≠ flagRegister := fun equal => notFlag ⟨equal, by simp [raised]⟩
    exact (v.read_write flagRegister register value).trans (if_neg (Ne.symm other))

/-- The nibbles of the operations that have no flag are those up to three. -/
theorem nibble_of_flag? {operation : Arithmetic} {x y : UInt8} :
    (operation.flag? x y = none → operation.nibble ≤ 0x3) ∧
      (operation.flag? x y ≠ none →
        0x4 ≤ operation.nibble ∧ operation.nibble ≤ 0x7 ∨ operation.nibble = 0xE) := by
  cases operation <;> simp [Arithmetic.flag?, Arithmetic.nibble]

theorem writesRegister_of_nextRegisters_ne {input : Input} (encodes : word.Encodes instruction)
    {register : Register}
    (changed :
      (machine.nextRegisters input instruction).read register ≠ machine.v.read register) :
    word.WritesRegister register := by
  cases instruction with
  | setByte x byte =>
    obtain ⟨family, rfl, -⟩ := encodes
    exact .inl ⟨eq_of_write_ne changed, .inl family⟩
  | addByte x byte =>
    obtain ⟨family, rfl, -⟩ := encodes
    exact .inl ⟨eq_of_write_ne changed, .inr (.inl family)⟩
  | random x mask =>
    obtain ⟨family, rfl, -⟩ := encodes
    exact .inl ⟨eq_of_write_ne changed, .inr (.inr (.inl family))⟩
  | getDelay x =>
    obtain ⟨family, byte, rfl⟩ := encodes
    exact .inl ⟨eq_of_write_ne changed, .inr (.inr (.inr (.inl ⟨family, .inl byte⟩)))⟩
  | awaitKey x =>
    obtain ⟨family, byte, rfl⟩ := encodes
    refine .inl ⟨?_, .inr (.inr (.inr (.inl ⟨family, .inr byte⟩)))⟩
    rw [nextRegisters] at changed
    cases down : input.keys.greatestDown? with
    | none =>
      rw [down] at changed
      exact absurd rfl changed
    | some key =>
      rw [down] at changed
      exact eq_of_write_ne changed
  | arithmetic operation x y =>
    obtain ⟨family, low, rfl, rfl⟩ := encodes
    rcases eq_or_flag_of_apply_ne changed with first | ⟨flagged, raised⟩
    · by_cases plain : operation.flag? (machine.v.read word.x) (machine.v.read word.y) = none
      · have small : word.low ≤ 0x3 := low ▸ nibble_of_flag?.1 plain
        exact .inl ⟨first, .inr (.inr (.inr (.inr ⟨family, small⟩)))⟩
      · exact .inr (.inl ⟨.inl first, family, low ▸ nibble_of_flag?.2 plain⟩)
    · exact .inr (.inl ⟨.inr flagged, family, low ▸ nibble_of_flag?.2 raised⟩)
  | draw x y height => exact .inr (.inr (.inl ⟨eq_of_write_ne changed, .inl encodes.1⟩))
  | addIndex x =>
    exact .inr (.inr (.inl ⟨eq_of_write_ne changed, .inr ⟨encodes.1, encodes.2.1⟩⟩))
  | restore x =>
    obtain ⟨family, byte, rfl⟩ := encodes
    obtain ⟨-, before⟩ := covered_of_getElem_overlay_ne register.isLt changed
    have upTo : register.val ≤ word.x.val := by
      rw [Memory.block, Vector.length_toList] at before
      omega
    exact .inr (.inr (.inr ⟨upTo, family, byte⟩))
  | _ => exact absurd rfl changed

/-! ## All parts -/

/-- The effect of an instruction keeps within the footprint of its words. -/
theorem footprint_of_encodes (machine : Machine) (input : Input)
    (encodes : word.Encodes instruction) :
    machine.Footprint word (machine.effect input instruction) where
  memory _ changed := stores_of_nextMemory_ne encodes changed
  frame _ changed := paints_of_nextFrame_ne encodes changed
  stack _ changed := call_of_nextStack_ne encodes changed
  depth changed := call_or_ret_of_nextDepth_ne encodes changed
  index changed := family_of_nextIndex_ne encodes changed
  delay changed := byte_of_nextDelay_ne encodes changed
  sound changed := byte_of_nextSound_ne encodes changed
  registers _ changed := writesRegister_of_nextRegisters_ne encodes changed
  redraw := nextRedraw_eq encodes
  tone := rfl
  word := rfl

/-- A word is executed as the instruction that it stands for. -/
theorem executeWord_of_encodes (machine : Machine) (input : Input)
    (encodes : word.Encodes instruction) :
    machine.executeWord input word = machine.execute input instruction := by
  simp only [executeWord, Instruction.ofWord?_eq_some_iff.mpr encodes]

/-- A word that can be executed stands for an instruction and has its effect. -/
theorem executeWord_eq_ok_iff {machine next : Machine} {input : Input} {word : Word} :
    machine.executeWord input word = .ok next ↔
      ∃ instruction, word.Encodes instruction ∧ machine.fault? instruction = none ∧
        machine.overrun? input instruction = none ∧ next = machine.effect input instruction := by
  constructor
  · intro executed
    cases decoded : Instruction.ofWord? word with
    | none =>
      rw [executeWord, decoded] at executed
      cases executed
    | some instruction =>
      have encodes := Instruction.ofWord?_eq_some_iff.mp decoded
      rw [executeWord_of_encodes machine input encodes] at executed
      exact ⟨instruction, encodes, execute_eq_ok_iff.mp executed⟩
  · rintro ⟨instruction, encodes, effective⟩
    rw [executeWord_of_encodes machine input encodes]
    exact execute_eq_ok_iff.mpr effective

theorem footprint_of_executeWord {machine next : Machine} {input : Input} {word : Word}
    (executed : machine.executeWord input word = .ok next) : machine.Footprint word next := by
  obtain ⟨instruction, encodes, -, -, rfl⟩ := executeWord_eq_ok_iff.mp executed
  exact footprint_of_encodes machine input encodes

end Machine

end Chip8
