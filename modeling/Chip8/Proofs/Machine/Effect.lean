import Chip8.Machine.Execution
import Chip8.Proofs.Outcome

/-!
# The effect of an instruction, field by field

`Machine.execute` says for each instruction what becomes of the machine. Here
the same is said for each field of the machine: which instructions change it,
and into what. `Machine.fault?` says which fault an instruction raises, if any,
and `Machine.overrun?` whether the counter leaves its width with the step to the
next instruction.

`execute_eq` puts them together: an instruction raises its fault, overruns, or
has its effect. While the counter is on a word of memory nothing overruns
(`execute_of_onWord`), so that no sum or product on the way leaves its range,
other than the return address of a damaged call stack.
-/

namespace Chip8.Machine

/-- The address of the call on top of the stack, if there can be one. -/
def callSite? (machine : Machine) : Option UInt16 :=
  machine.stack[machine.sp.toNat - 1]?

/-- The fault of a return. The last two say that the stack is damaged: its pointer is past
its end, or the address of the call has no instruction behind it. -/
def returnFault? (machine : Machine) : Option Fault :=
  if machine.sp = 0 then
    some (.stackUnderflow machine.pc)
  else
    match machine.callSite? with
    | some callSite =>
      if callSite.toNat + 2 < UInt16.size then none else some (.defect .overflow)
    | none => some (.defect .position)

/-- The fault that an instruction raises. -/
def fault? (machine : Machine) : Instruction → Option Fault
  | .ret => machine.returnFault?
  | .call _ =>
    if stackDepth ≤ machine.sp.toNat then some (.stackOverflow machine.pc) else none
  | .skipIfKey x | .skipUnlessKey x => Keypad.beyond? (machine.v.read x)
  | .draw _ _ height => Memory.excess? machine.i.toNat height.val
  | .decimal _ => Memory.excess? machine.i.toNat 3
  | .store x | .restore x => Memory.excess? machine.i.toNat (x.val + 1)
  | _ => none

/-- Whether an instruction skips the next one. -/
def skips (machine : Machine) (input : Input) : Instruction → Bool
  | .skipIfByte x byte => machine.v.read x == byte
  | .skipUnlessByte x byte => machine.v.read x != byte
  | .skipIfEqual x y => machine.v.read x == machine.v.read y
  | .skipUnlessEqual x y => machine.v.read x != machine.v.read y
  | .skipIfKey x => input.keys.holds (machine.v.read x)
  | .skipUnlessKey x => !input.keys.holds (machine.v.read x)
  | _ => false

/-- How far an instruction takes the counter on, unless it sets it anew. -/
def stride (machine : Machine) (input : Input) : Instruction → UInt16
  | .ret | .jump _ | .call _ | .jumpOffset _ => 0
  | .awaitKey _ => if input.keys.greatestDown?.isSome then 2 else 0
  | instruction => if machine.skips input instruction then 4 else 2

/-- The defect of the step to the next instruction. -/
def overrun? (machine : Machine) (input : Input) (instruction : Instruction) : Option Fault :=
  Checked.overflow? machine.pc (machine.stride input instruction)

/-- The counter after an instruction. -/
def nextCounter (machine : Machine) (input : Input) : Instruction → UInt16
  | .ret => machine.callSite?.getD 0 + 2
  | .jump target | .call target => UInt16.ofNat target.val
  | .jumpOffset target => (machine.v.read 0).toUInt16 + UInt16.ofNat target.val
  | .awaitKey _ => if input.keys.greatestDown?.isSome then machine.pc + 2 else machine.pc
  | instruction => machine.pc + if machine.skips input instruction then 4 else 2

/-- The sprite at the index, flipped onto the screen at the position held by two registers. -/
def drawing (machine : Machine) (x y : Register) (height : Fin 16) : Frame.Drawing :=
  machine.frame.draw
    (Sprite.pixels (machine.v.read x).toNat (machine.v.read y).toNat
      (machine.memory.block machine.i.toNat height.val))

/-- The registers after an instruction. -/
def nextRegisters (machine : Machine) (input : Input) : Instruction → Registers
  | .setByte x byte => machine.v.write x byte
  | .addByte x byte => machine.v.write x (machine.v.read x + byte)
  | .arithmetic operation x y => operation.apply x y machine.v
  | .random x mask => machine.v.write x (input.random &&& mask)
  | .draw x y height => machine.v.write flagRegister (flag (machine.drawing x y height).collided)
  | .getDelay x => machine.v.write x machine.delay
  | .awaitKey x =>
    input.keys.greatestDown?.elim machine.v fun key => machine.v.write x (UInt8.ofNat key.val)
  | .addIndex x =>
    machine.v.write flagRegister
      (flag (Memory.lastAddress < machine.i.toNat + (machine.v.read x).toNat))
  | .restore x => overlay machine.v 0 (machine.memory.block machine.i.toNat (x.val + 1))
  | _ => machine.v

/-- The index after an instruction. A register added to it is read after the flag is written. -/
def nextIndex (machine : Machine) (input : Input) : Instruction → UInt16
  | .setIndex target => UInt16.ofNat target.val
  | .addIndex x => machine.i + ((machine.nextRegisters input (.addIndex x)).read x).toUInt16
  | .glyph x => (machine.v.read x).toUInt16 * Font.glyphSize
  | .store x | .restore x => machine.i + UInt16.ofNat (x.val + 1)
  | _ => machine.i

/-- The number of pending calls after an instruction. -/
def nextDepth (machine : Machine) : Instruction → UInt8
  | .ret => machine.sp - 1
  | .call _ => machine.sp + 1
  | _ => machine.sp

/-- The call stack after an instruction. -/
def nextStack (machine : Machine) : Instruction → CallStack
  | .call _ => machine.stack.setIfInBounds machine.sp.toNat machine.pc
  | _ => machine.stack

/-- The delay timer after an instruction, before it runs. -/
def nextDelay (machine : Machine) : Instruction → UInt8
  | .setDelay x => machine.v.read x
  | _ => machine.delay

/-- The sound timer after an instruction, before it runs. -/
def nextSound (machine : Machine) : Instruction → UInt8
  | .setSound x => machine.v.read x
  | _ => machine.sound

/-- The memory after an instruction. -/
def nextMemory (machine : Machine) : Instruction → Memory
  | .decimal x => overlay machine.memory machine.i.toNat (decimalDigits (machine.v.read x))
  | .store x => overlay machine.memory machine.i.toNat (machine.v.toList.take (x.val + 1))
  | _ => machine.memory

/-- The frame after an instruction. -/
def nextFrame (machine : Machine) : Instruction → Frame
  | .clear => Frame.blank
  | .draw x y height => (machine.drawing x y height).frame
  | _ => machine.frame

/-- Whether the screen is to be painted again after an instruction. -/
def nextRedraw (machine : Machine) : Instruction → Bool
  | .clear | .draw _ _ _ => true
  | _ => machine.redraw

/-- The machine after an instruction that raises no fault. -/
def effect (machine : Machine) (input : Input) (instruction : Instruction) : Machine where
  v := machine.nextRegisters input instruction
  i := machine.nextIndex input instruction
  pc := machine.nextCounter input instruction
  sp := machine.nextDepth instruction
  delay := machine.nextDelay instruction
  sound := machine.nextSound instruction
  stack := machine.nextStack instruction
  memory := machine.nextMemory instruction
  frame := machine.nextFrame instruction
  redraw := machine.nextRedraw instruction
  tone := machine.tone
  word := machine.word

/-- The counter is on a word of memory, of which both bytes exist. -/
abbrev OnWord (machine : Machine) : Prop :=
  machine.pc.toNat + 1 < Memory.size

/-! ## The operations that instructions share -/

theorem advance_eq (machine : Machine) :
    machine.advance =
      outcome (Checked.overflow? machine.pc 2) { machine with pc := machine.pc + 2 } := by
  rw [advance, Checked.add_eq]
  exact outcome_bind_ok _ _ _

theorem skipIf_eq (machine : Machine) (condition : Bool) :
    machine.skipIf condition =
      outcome (Checked.overflow? machine.pc (if condition then 4 else 2))
        { machine with pc := machine.pc + if condition then 4 else 2 } := by
  rw [skipIf, Checked.add_eq]
  exact outcome_bind_ok _ _ _

/-- A return goes behind the call on top of the stack. -/
theorem returnFromCall_eq (machine : Machine) :
    machine.returnFromCall =
      outcome machine.returnFault?
        { machine with pc := machine.callSite?.getD 0 + 2, sp := machine.sp - 1 } := by
  by_cases empty : machine.sp = 0
  · simp [returnFromCall, returnFault?, empty]
    rfl
  · have positive : 0 < machine.sp.toNat := UInt8.pos_iff_ne_zero.mpr empty
    simp only [returnFromCall, returnFault?, empty, if_false, Checked.previous_eq_ok positive,
      ok_bind, Checked.toNat_sub_one positive]
    rcases damaged : machine.callSite? with _ | callSite
    · have outside : ¬ machine.sp.toNat - 1 < 16 := by
        simpa [callSite?] using damaged
      simp [Checked.entry, outside]
    · obtain ⟨inside, top⟩ := Vector.getElem?_eq_some_iff.mp damaged
      rw [Checked.entry_eq_ok inside, top]
      by_cases fits : callSite.toNat + 2 < UInt16.size
      · have added : Checked.add callSite 2 = .ok (callSite + 2) := Checked.add_eq_ok fits
        simp only [ok_bind, added, fits, if_true]
        rfl
      · have refused : Checked.add callSite 2 = .error (.defect .overflow) := if_neg fits
        simp only [ok_bind, refused, fits, if_false]
        rfl

theorem callAt_eq (machine : Machine) (target : Address) :
    machine.callAt target =
      outcome (machine.fault? (.call target))
        { machine with
          pc := UInt16.ofNat target.val
          sp := machine.sp + 1
          stack := machine.stack.setIfInBounds machine.sp.toNat machine.pc } := by
  by_cases full : stackDepth ≤ machine.sp.toNat
  · simp [callAt, fault?, full]
    rfl
  · have inside : machine.sp.toNat < 16 := Nat.lt_of_not_le full
    have fits : machine.sp.toNat + 1 < UInt8.size := by
      simp only [UInt8.size]
      omega
    have pushed : machine.stack.set machine.sp.toNat machine.pc inside =
        machine.stack.setIfInBounds machine.sp.toNat machine.pc := by
      ext slot bound
      rw [Vector.getElem_set, Vector.getElem_setIfInBounds]
    simp only [callAt, fault?, full, if_false, Checked.replace_eq_ok inside,
      Checked.next_eq_ok fits, ok_bind, pushed]
    rfl

theorem drawSprite_eq (machine : Machine) (x y : Register) (height : Fin 16) :
    machine.drawSprite x y height =
      outcome ((Memory.excess? machine.i.toNat height.val).or (Checked.overflow? machine.pc 2))
        { machine with
          pc := machine.pc + 2
          v := machine.v.write flagRegister (flag (machine.drawing x y height).collided)
          frame := (machine.drawing x y height).frame
          redraw := true } := by
  simp only [drawSprite, Memory.load_eq]
  cases Memory.excess? machine.i.toNat height.val with
  | some fault => rfl
  | none => exact advance_eq _

/-- The greatest key that is down is taken, and without one the counter stays. -/
theorem awaitKey_eq (machine : Machine) (input : Input) (x : Register) :
    machine.awaitKey x input.keys =
      outcome (machine.overrun? input (.awaitKey x))
        { machine with
          pc := machine.nextCounter input (.awaitKey x)
          v := machine.nextRegisters input (.awaitKey x) } := by
  unfold awaitKey
  simp only [overrun?, stride, nextCounter, nextRegisters]
  generalize input.keys.greatestDown? = found
  cases found with
  | some key => exact advance_eq (machine.setRegister x (UInt8.ofNat key.val))
  | none =>
    have stays : Checked.overflow? machine.pc 0 = none := if_pos machine.pc.toNat_lt
    exact (congrArg (outcome · machine) stays).symm

/-- A range that fits ends at an address that a counter can hold. -/
theorem add_index_eq_ok {machine : Machine} {count : Nat}
    (fits : machine.i.toNat + count ≤ Memory.size) :
    Checked.add machine.i (UInt16.ofNat count) = .ok (machine.i + UInt16.ofNat count) := by
  apply Checked.add_eq_ok
  have small : count % UInt16.size = count := by
    apply Nat.mod_eq_of_lt
    simp only [Memory.size] at fits
    simp only [UInt16.size]
    omega
  simp only [Memory.size] at fits
  rw [UInt16.toNat_ofNat', small, UInt16.size]
  omega

theorem storeRegisters_eq (machine : Machine) (x : Register) :
    machine.storeRegisters x =
      outcome ((Memory.excess? machine.i.toNat (x.val + 1)).or (Checked.overflow? machine.pc 2))
        { machine with
          pc := machine.pc + 2
          i := machine.i + UInt16.ofNat (x.val + 1)
          memory := overlay machine.memory machine.i.toNat
            (machine.v.toList.take (x.val + 1)) } := by
  simp only [storeRegisters, Checked.leading_eq_ok x.isLt, ok_bind, Memory.store_eq,
    machine.v.length_take]
  by_cases fits : machine.i.toNat + (x.val + 1) ≤ Memory.size
  · simp only [Memory.excess?, fits, if_true, outcome_none, ok_bind, add_index_eq_ok fits]
    exact advance_eq _
  · simp only [Memory.excess?, fits, if_false, outcome_some, error_bind, Option.some_or]

theorem restoreRegisters_eq (machine : Machine) (x : Register) :
    machine.restoreRegisters x =
      outcome ((Memory.excess? machine.i.toNat (x.val + 1)).or (Checked.overflow? machine.pc 2))
        { machine with
          pc := machine.pc + 2
          i := machine.i + UInt16.ofNat (x.val + 1)
          v := overlay machine.v 0 (machine.memory.block machine.i.toNat (x.val + 1)) } := by
  simp only [restoreRegisters, Memory.load_eq]
  by_cases fits : machine.i.toNat + (x.val + 1) ≤ Memory.size
  · have written : 0 + (machine.memory.block machine.i.toNat (x.val + 1)).length ≤ 16 := by
      rw [Memory.length_block fits, Nat.zero_add]
      exact x.isLt
    simp only [Memory.excess?, fits, if_true, outcome_none, ok_bind, Checked.write_eq_ok written,
      add_index_eq_ok fits]
    exact advance_eq _
  · simp only [Memory.excess?, fits, if_false, outcome_some, error_bind, Option.some_or]

/-- A sum of a byte and an address fits a word. -/
theorem add_offset_eq_ok (byte : UInt8) (target : Address) :
    Checked.add byte.toUInt16 (UInt16.ofNat target.val) =
      .ok (byte.toUInt16 + UInt16.ofNat target.val) := by
  apply Checked.add_eq_ok
  have byteBound : byte.toNat < 256 := byte.toNat_lt
  have targetBound : target.val < 4096 := target.isLt
  rw [UInt8.toNat_toUInt16, UInt16.toNat_ofNat_of_lt' (by simp only [UInt16.size]; omega)]
  simp only [UInt16.size]
  omega

/-- The glyph of every byte has an address that fits a word. -/
theorem mul_glyphSize_eq_ok (byte : UInt8) :
    Checked.mul byte.toUInt16 Font.glyphSize = .ok (byte.toUInt16 * Font.glyphSize) := by
  apply Checked.mul_eq_ok
  have byteBound : byte.toNat < 256 := byte.toNat_lt
  have sizeOfGlyph : Font.glyphSize.toNat = 5 := rfl
  rw [UInt8.toNat_toUInt16, sizeOfGlyph, UInt16.size]
  omega

/-! ## All instructions -/

/-- An instruction that sets the counter anew does not overrun. -/
theorem overrun?_of_stride {machine : Machine} {input : Input} {instruction : Instruction}
    (anew : machine.stride input instruction = 0) : machine.overrun? input instruction = none := by
  rw [overrun?, anew]
  exact if_pos machine.pc.toNat_lt

/-- An instruction raises its fault, overruns, or has its effect. -/
theorem execute_eq (machine : Machine) (input : Input) (instruction : Instruction) :
    machine.execute input instruction =
      outcome ((machine.fault? instruction).or (machine.overrun? input instruction))
        (machine.effect input instruction) := by
  cases instruction with
  | clear => exact advance_eq _
  | ret =>
    rw [overrun?_of_stride rfl, Option.or_none]
    exact returnFromCall_eq machine
  | jump target =>
    rw [overrun?_of_stride rfl]
    rfl
  | call target =>
    rw [overrun?_of_stride rfl, Option.or_none]
    exact callAt_eq machine target
  | skipIfByte x byte => exact skipIf_eq machine _
  | skipUnlessByte x byte => exact skipIf_eq machine _
  | skipIfEqual x y => exact skipIf_eq machine _
  | setByte x byte => exact advance_eq _
  | addByte x byte => exact advance_eq _
  | arithmetic operation x y => exact advance_eq _
  | skipUnlessEqual x y => exact skipIf_eq machine _
  | setIndex target => exact advance_eq _
  | jumpOffset target =>
    rw [overrun?_of_stride rfl]
    simp only [execute, add_offset_eq_ok, ok_bind]
    rfl
  | random x mask => exact advance_eq _
  | draw x y height => exact drawSprite_eq machine x y height
  | skipIfKey x | skipUnlessKey x =>
    simp only [execute, Keypad.isDown_eq, fault?]
    cases Keypad.beyond? (machine.v.read x) with
    | some fault => rfl
    | none => exact skipIf_eq machine _
  | getDelay x => exact advance_eq _
  | awaitKey x => exact awaitKey_eq machine input x
  | setDelay x => exact advance_eq _
  | setSound x => exact advance_eq _
  | addIndex x => exact advance_eq _
  | glyph x =>
    simp only [execute, mul_glyphSize_eq_ok, ok_bind]
    exact advance_eq _
  | decimal x =>
    have digits : (decimalDigits (machine.v.read x)).length = 3 := rfl
    simp only [execute, Memory.store_eq, digits, fault?]
    cases Memory.excess? machine.i.toNat 3 with
    | some fault => rfl
    | none => exact advance_eq _
  | store x => exact storeRegisters_eq machine x
  | restore x => exact restoreRegisters_eq machine x

theorem stride_le_four (machine : Machine) (input : Input) (instruction : Instruction) :
    (machine.stride input instruction).toNat ≤ 4 := by
  unfold stride
  split <;> try split
  all_goals decide

/-- From a word of memory an instruction raises its fault or has its effect. -/
theorem execute_of_onWord {machine : Machine} (onWord : machine.OnWord) (input : Input)
    (instruction : Instruction) :
    machine.execute input instruction =
      outcome (machine.fault? instruction) (machine.effect input instruction) := by
  have within : machine.overrun? input instruction = none := by
    have near := machine.stride_le_four input instruction
    simp only [OnWord, Memory.size] at onWord
    apply if_pos
    simp only [UInt16.size]
    omega
  rw [execute_eq, within, Option.or_none]

/-- An instruction that succeeds has had its effect. -/
theorem execute_eq_ok_iff {machine next : Machine} {input : Input} {instruction : Instruction} :
    machine.execute input instruction = .ok next ↔
      machine.fault? instruction = none ∧ machine.overrun? input instruction = none ∧
        next = machine.effect input instruction := by
  rw [execute_eq, outcome_eq_ok_iff, Option.or_eq_none_iff, and_assoc]

end Chip8.Machine
