import Chip8.Proofs.Frame
import Chip8.Proofs.Machine.Cycle

/-!
# Bounds of a machine

A machine is in bounds if its counter and its call stack stay where the checked
arithmetic of every instruction works out. `InBounds.cycle` says that a cycle
leads from bounds to bounds, and `InBounds.cycle_ne_defect` that within them no
checked operation goes wrong.

The counter may lie past memory, where the next fetch ends the program. A fetch
that succeeds bounds it by `0xFFE`, which is also what bounds the addresses that
calls leave on the stack.
-/

namespace Chip8.Machine

/-- Counter, call stack and screen are within their bounds. Slots of the stack above its
pointer count as well. -/
structure InBounds (machine : Machine) : Prop where
  counter_le : machine.pc.toNat ≤ 0x10FE
  depth_le : machine.sp.toNat ≤ stackDepth
  callSite_le : ∀ slot : Fin 16, machine.stack[slot].toNat ≤ 0xFFE
  frame_binary : machine.frame.Binary

/-- A fresh machine is in bounds, whatever its memory holds. -/
theorem fresh_inBounds (memory : Memory) : InBounds { fresh with memory } where
  counter_le := show fresh.pc.toNat ≤ 0x10FE by decide
  depth_le := show fresh.sp.toNat ≤ stackDepth by decide
  callSite_le slot := by simp [fresh, blank]
  frame_binary := Frame.blank_binary

/-- The flags for the host have no part in the bounds. -/
theorem InBounds.withFlags {machine : Machine} (bounded : machine.InBounds)
    (redraw tone : Bool) : InBounds { machine with redraw, tone } :=
  ⟨bounded.counter_le, bounded.depth_le, bounded.callSite_le, bounded.frame_binary⟩

/-- A step of two or four bytes from a word of memory ends just behind memory at most. -/
theorem stride_le {machine : Machine} (onWord : machine.OnWord) (far : Bool) :
    (machine.pc + if far then 4 else 2).toNat ≤ 0x1002 := by
  have bound : machine.pc.toNat + 1 < 4096 := onWord
  cases far <;> rw [UInt16.toNat_add] <;> simp <;> omega

/-- An address that an instruction names is the counter after a jump to it. -/
theorem toNat_ofNat_address (target : Address) : (UInt16.ofNat target.val).toNat = target.val := by
  apply UInt16.toNat_ofNat_of_lt'
  have bound : target.val < 4096 := target.isLt
  simp only [UInt16.size]
  omega

/-- A jump with an offset goes past its target by the first register. -/
theorem toNat_nextCounter_jumpOffset (machine : Machine) (input : Input) (target : Address) :
    (machine.nextCounter input (.jumpOffset target)).toNat =
      target.val + (machine.v.read 0).toNat := by
  have byteBound : (machine.v.read 0).toNat < 256 := (machine.v.read 0).toNat_lt
  have targetBound : target.val < 4096 := target.isLt
  rw [nextCounter, UInt16.toNat_add, toNat_ofNat_address, UInt8.toNat_toUInt16]
  omega

theorem InBounds.callSite_top_le {machine : Machine} (bounded : machine.InBounds) :
    (machine.callSite?.getD 0).toNat ≤ 0xFFE := by
  cases top : machine.callSite? with
  | none => decide
  | some callSite =>
    obtain ⟨inside, rfl⟩ := Vector.getElem?_eq_some_iff.mp top
    exact bounded.callSite_le ⟨_, inside⟩

/-- No instruction takes the counter further than a jump with the greatest offset. -/
theorem InBounds.nextCounter_le {machine : Machine} (bounded : machine.InBounds)
    (onWord : machine.OnWord) (input : Input) (instruction : Instruction) :
    (machine.nextCounter input instruction).toNat ≤ 0x10FE := by
  have strideBound (far : Bool) : (machine.pc + if far then 4 else 2).toNat ≤ 0x10FE :=
    Nat.le_trans (stride_le onWord far) (by decide)
  cases instruction with
  | ret =>
    have topBound := bounded.callSite_top_le
    rw [nextCounter, UInt16.toNat_add]
    simp only [UInt16.reduceToNat]
    omega
  | jump target | call target =>
    rw [nextCounter, toNat_ofNat_address]
    omega
  | jumpOffset target =>
    have byteBound : (machine.v.read 0).toNat < 256 := (machine.v.read 0).toNat_lt
    have targetBound : target.val < 4096 := target.isLt
    rw [toNat_nextCounter_jumpOffset]
    omega
  | awaitKey x =>
    rw [nextCounter]
    split
    · exact strideBound false
    · exact bounded.counter_le
  -- Every other instruction goes on by one instruction or skips one.
  | _ => exact strideBound _

/-- A call or return that raises no fault leaves as many pending calls as the stack can hold. -/
theorem InBounds.nextDepth_le {machine : Machine} (bounded : machine.InBounds)
    {instruction : Instruction} (harmless : machine.fault? instruction = none) :
    (machine.nextDepth instruction).toNat ≤ stackDepth := by
  have bound : machine.sp.toNat ≤ 16 := bounded.depth_le
  cases instruction with
  | ret =>
    have occupied : machine.sp ≠ 0 := by
      intro empty
      simp [fault?, returnFault?, empty] at harmless
    rw [nextDepth, Checked.toNat_sub_one (UInt8.pos_iff_ne_zero.mpr occupied)]
    exact Nat.le_trans (Nat.sub_le _ _) bounded.depth_le
  | call target =>
    have room : ¬ stackDepth ≤ machine.sp.toNat := by
      intro full
      simp [fault?, full] at harmless
    simp only [stackDepth] at room
    rw [nextDepth, UInt8.toNat_add]
    simp only [UInt8.reduceToNat, stackDepth]
    omega
  | _ => exact bounded.depth_le

/-- A call leaves the address of a word of memory on the stack. -/
theorem InBounds.nextStack_le {machine : Machine} (bounded : machine.InBounds)
    (onWord : machine.OnWord) (instruction : Instruction) (slot : Fin 16) :
    (machine.nextStack instruction)[slot].toNat ≤ 0xFFE := by
  cases instruction with
  | call target =>
    have counterBound : machine.pc.toNat + 1 < 4096 := onWord
    simp only [nextStack, Fin.getElem_fin, Vector.getElem_setIfInBounds]
    split
    · omega
    · exact bounded.callSite_le slot
  | _ => exact bounded.callSite_le slot

theorem InBounds.nextFrame_binary {machine : Machine} (bounded : machine.InBounds)
    (instruction : Instruction) : (machine.nextFrame instruction).Binary := by
  cases instruction with
  | clear => exact Frame.blank_binary
  | draw x y height => exact bounded.frame_binary.draw _
  | _ => exact bounded.frame_binary

theorem InBounds.cycle {machine next : Machine} (bounded : machine.InBounds) {input : Input}
    (ran : machine.cycle input = .ok next) : next.InBounds := by
  obtain ⟨instruction, onWord, -, harmless, rfl⟩ := cycle_eq_ok_iff.mp ran
  exact
    { counter_le := bounded.nextCounter_le onWord input instruction
      depth_le := bounded.nextDepth_le harmless
      callSite_le := bounded.nextStack_le onWord instruction
      frame_binary := bounded.nextFrame_binary instruction }

theorem InBounds.returnFault?_eq {machine : Machine} (bounded : machine.InBounds) :
    machine.returnFault? =
      if machine.sp = 0 then some (.stackUnderflow machine.pc) else none := by
  have bound : machine.sp.toNat ≤ 16 := bounded.depth_le
  have inside : machine.sp.toNat - 1 < 16 := by omega
  have top : machine.callSite? = some machine.stack[machine.sp.toNat - 1] :=
    Vector.getElem?_eq_getElem inside
  have fits : machine.stack[machine.sp.toNat - 1].toNat + 2 < UInt16.size :=
    Nat.lt_of_le_of_lt (Nat.add_le_add_right (bounded.callSite_le ⟨_, inside⟩) 2) (by decide)
  simp only [returnFault?, top, fits, if_true]

/-- In bounds no instruction finds the call stack damaged. -/
theorem InBounds.fault?_ne_defect {machine : Machine} (bounded : machine.InBounds)
    (instruction : Instruction) (kind : Defect) :
    machine.fault? instruction ≠ some (.defect kind) := by
  cases instruction with
  | ret =>
    rw [fault?, bounded.returnFault?_eq]
    split <;> simp
  | call target =>
    rw [fault?]
    split <;> simp
  | skipIfKey x | skipUnlessKey x =>
    rw [fault?, Keypad.beyond?]
    split <;> simp
  | draw x y height =>
    rw [fault?, Memory.excess?]
    split <;> simp
  | decimal x | store x | restore x =>
    rw [fault?, Memory.excess?]
    split <;> simp
  | _ => simp [fault?]

/-- In bounds no checked operation of a cycle goes wrong. -/
theorem InBounds.cycle_ne_defect {machine : Machine} (bounded : machine.InBounds)
    (input : Input) (kind : Defect) : machine.cycle input ≠ .error (.defect kind) := by
  rw [cycle_eq, Ne, outcome_eq_error_iff, cycleFault?]
  split
  · split
    · exact bounded.fault?_ne_defect _ kind
    · simp
  · simp

end Chip8.Machine
