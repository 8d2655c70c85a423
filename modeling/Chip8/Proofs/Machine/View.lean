import Chip8.Proofs.Machine.Backtrace

/-!
# What a program can see

The flags for the host, the record of the last word and the slots of the call
stack that no pending call occupies have no part in the run of a program. The
`View` of a machine is what is left without them.

`cycleFault?_of_view_eq` and `view_cycleEffect` say that machines with the same
view fail alike and else run into machines with the same view. No bounds are
needed for this, for a return never reads a slot that is not in the view.
-/

namespace Chip8.Machine

/-- All of a machine that its program can see. -/
@[ext] structure View where
  v : Registers
  i : UInt16
  pc : UInt16
  sp : UInt8
  delay : UInt8
  sound : UInt8
  memory : Memory
  frame : Frame
  /-- The slots of the call stack below its pointer. -/
  backtrace : Backtrace
deriving DecidableEq

def view (machine : Machine) : View :=
  { v := machine.v, i := machine.i, pc := machine.pc, sp := machine.sp, delay := machine.delay,
    sound := machine.sound, memory := machine.memory, frame := machine.frame,
    backtrace := machine.backtrace }

/-- Flags, record and a slot that no pending call occupies may hold anything. -/
theorem view_unseen (machine : Machine) {slot : Nat} (unoccupied : machine.sp.toNat ≤ slot)
    (callSite : UInt16) (redraw tone : Bool) (word : Word) :
    { machine with
      stack := machine.stack.setIfInBounds slot callSite, redraw, tone, word }.view =
      machine.view := by
  have below : (machine.stack.setIfInBounds slot callSite).toList.take machine.sp.toNat =
      machine.stack.toList.take machine.sp.toNat := by
    rw [Vector.toList_setIfInBounds, List.take_set_of_le unoccupied]
  exact View.ext rfl rfl rfl rfl rfl rfl rfl rfl below

variable {left right : Machine}

/-- Machines with the same view differ at most in the parts that the view leaves out. -/
theorem exists_eq_of_view_eq (same : left.view = right.view) :
    ∃ stack redraw tone word, right = { left with stack, redraw, tone, word } := by
  refine ⟨right.stack, right.redraw, right.tone, right.word, ?_⟩
  cases left
  cases right
  simp only [view, View.mk.injEq] at same
  obtain ⟨rfl, rfl, rfl, rfl, rfl, rfl, rfl, rfl, -⟩ := same
  rfl

/-- Views agree on the call on top of the stack, if there are pending calls. -/
theorem callSite?_of_view_eq (same : left.view = right.view) (occupied : left.sp ≠ 0) :
    left.callSite? = right.callSite? := by
  have depth : left.sp = right.sp := congrArg View.sp same
  have pending : left.backtrace = right.backtrace := congrArg View.backtrace same
  rw [callSite?_eq occupied, callSite?_eq (depth ▸ occupied), depth, pending]

theorem returnFault?_of_view_eq (same : left.view = right.view) :
    left.returnFault? = right.returnFault? := by
  have depth : left.sp = right.sp := congrArg View.sp same
  have counter : left.pc = right.pc := congrArg View.pc same
  by_cases empty : left.sp = 0
  · rw [returnFault?, returnFault?, if_pos empty, if_pos (depth ▸ empty), counter]
  · rw [returnFault?, returnFault?, if_neg empty, if_neg (depth ▸ empty),
      callSite?_of_view_eq same empty]

theorem fault?_of_view_eq (same : left.view = right.view) (instruction : Instruction) :
    left.fault? instruction = right.fault? instruction := by
  cases instruction with
  | ret => exact returnFault?_of_view_eq same
  | _ =>
    obtain ⟨stack, redraw, tone, word, rfl⟩ := exists_eq_of_view_eq same
    rfl

theorem nextCounter_of_view_eq (same : left.view = right.view) (input : Input)
    {instruction : Instruction} (harmless : left.fault? instruction = none) :
    left.nextCounter input instruction = right.nextCounter input instruction := by
  cases instruction with
  | ret =>
    obtain ⟨occupied, -⟩ := occupied_of_returnFault? harmless
    rw [nextCounter, nextCounter, callSite?_of_view_eq same occupied]
  | _ =>
    obtain ⟨stack, redraw, tone, word, rfl⟩ := exists_eq_of_view_eq same
    rfl

/-- An instruction leads from the same view to the same view. -/
theorem view_effect (same : left.view = right.view) (input : Input) {instruction : Instruction}
    {word : Word} (encodes : word.Encodes instruction)
    (harmless : left.fault? instruction = none) :
    (left.effect input instruction).view = (right.effect input instruction).view := by
  have counter := nextCounter_of_view_eq same input harmless
  have pending :
      (left.effect input instruction).backtrace = (right.effect input instruction).backtrace := by
    have before : left.backtrace = right.backtrace := congrArg View.backtrace same
    have address : left.pc = right.pc := congrArg View.pc same
    have alsoHarmless : right.fault? instruction = none :=
      fault?_of_view_eq same instruction ▸ harmless
    rw [backtrace_effect input encodes harmless, backtrace_effect input encodes alsoHarmless,
      before, address]
  obtain ⟨stack, redraw, tone, record, rfl⟩ := exists_eq_of_view_eq same
  apply View.ext
  case pc => exact counter
  case backtrace => exact pending
  all_goals cases instruction <;> rfl

/-- The end of a cycle is no more than a change of the view. -/
theorem view_conclude (machine : Machine) (word : Word) :
    (machine.conclude word).view =
      { machine.view with
        delay := lowered machine.view.delay
        sound := lowered machine.view.sound } := rfl

theorem pending_of_view_eq (same : left.view = right.view) : left.pending = right.pending := by
  obtain ⟨stack, redraw, tone, word, rfl⟩ := exists_eq_of_view_eq same
  rfl

theorem cycleFault?_of_view_eq (same : left.view = right.view) :
    left.cycleFault? = right.cycleFault? := by
  have counter : left.pc = right.pc := congrArg View.pc same
  by_cases onWord : left.OnWord
  · have alsoOnWord : right.OnWord := show right.pc.toNat + 1 < Memory.size from counter ▸ onWord
    rw [cycleFault?, cycleFault?, if_pos onWord, if_pos alsoOnWord, pending_of_view_eq same]
    simp only [fault?_of_view_eq same]
  · have alsoOffWord : ¬ right.OnWord := show ¬ right.pc.toNat + 1 < Memory.size from
      counter ▸ onWord
    rw [cycleFault?, cycleFault?, if_neg onWord, if_neg alsoOffWord, counter]

/-- A cycle that succeeds leads from the same view to the same view. -/
theorem view_cycleEffect (same : left.view = right.view) (input : Input)
    (harmless : left.cycleFault? = none) :
    (left.cycleEffect input).view = (right.cycleEffect input).view := by
  rw [cycleEffect, cycleEffect, ← pending_of_view_eq same]
  cases decoded : Instruction.ofWord? left.pending with
  | none => exact same
  | some instruction =>
    have encodes := Instruction.ofWord?_eq_some_iff.mp decoded
    have executed : left.fault? instruction = none := by
      rw [cycleFault?, decoded] at harmless
      split at harmless
      · exact harmless
      · cases harmless
    simp only [view_conclude, view_effect same input encodes executed]

end Chip8.Machine
