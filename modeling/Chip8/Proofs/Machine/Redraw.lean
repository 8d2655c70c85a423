import Chip8.Proofs.Machine.Cycle

/-!
# Cycles do not see the redraw flag

The flag that asks the host to paint the screen again is for the host alone. A
machine in which it has been raised runs the same cycles: it fails where the
machine fails, and otherwise it differs in the flag at most.
-/

namespace Chip8.Machine

/-- No instruction reads the redraw flag, and none lowers it. -/
theorem effect_raised (machine : Machine) (input : Input) (instruction : Instruction) :
    effect { machine with redraw := true } input instruction =
      { machine.effect input instruction with redraw := true } := by
  cases instruction <;> rfl

/-- A cycle with the redraw flag raised ends with the flag raised, and otherwise as before. -/
theorem cycle_raised {machine next : Machine} {input : Input}
    (ran : machine.cycle input = .ok next) :
    cycle { machine with redraw := true } input = .ok { next with redraw := true } := by
  obtain ⟨instruction, onWord, decoded, harmless, rfl⟩ := cycle_eq_ok_iff.mp ran
  refine cycle_eq_ok_iff.mpr ⟨instruction, onWord, decoded, ?_, ?_⟩
  · cases instruction <;> exact harmless
  · rw [effect_raised]
    rfl

theorem cycles_raised {machine last : Machine} {inputs : List Input}
    (ran : machine.cycles inputs = .ok last) :
    cycles { machine with redraw := true } inputs = .ok { last with redraw := true } := by
  induction inputs generalizing machine with
  | nil =>
    cases ran
    rfl
  | cons input later inductionHypothesis =>
    obtain ⟨next, first, rest⟩ := bind_eq_ok_iff.mp ran
    exact bind_eq_ok_iff.mpr ⟨_, cycle_raised first, inductionHypothesis rest⟩

/-- A cycle that leaves the flag lowered has found it lowered, and has not touched the frame. -/
theorem frame_of_cycle {machine next : Machine} {input : Input}
    (ran : machine.cycle input = .ok next) (lowered : next.redraw = false) :
    machine.redraw = false ∧ next.frame = machine.frame := by
  obtain ⟨instruction, -, -, -, rfl⟩ := cycle_eq_ok_iff.mp ran
  cases instruction with
  | clear | draw x y height => cases lowered
  | _ => exact ⟨lowered, rfl⟩

end Chip8.Machine
