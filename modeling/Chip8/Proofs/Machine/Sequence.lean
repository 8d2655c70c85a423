import Chip8.Proofs.Machine.Footprint

/-!
# Words one after another

`executeWords` executes a list of words in order, wherever in memory they may
stand: no word is fetched, and no timer runs. `executeWord_of_room` says when a
single word succeeds, and `eq_effect_of_encodes` what it has done then.
-/

namespace Chip8.Machine

variable {machine next : Machine} {word : Word} {instruction : Instruction}

/-- The machine after words that are executed one after another, all of which have to succeed.
Each of them has an input of its own. -/
def executeWords (machine : Machine) (inputs : Nat → Input) : List Word → Except Fault Machine
  | [] => .ok machine
  | word :: later => do
    let next ← machine.executeWord (inputs 0) word
    next.executeWords (fun step => inputs (step + 1)) later

/-- A word has the effect of its instruction if that raises no fault and there is room for the
counter. -/
theorem executeWord_of_room {input : Input} (encodes : word.Encodes instruction)
    (harmless : machine.fault? instruction = none)
    (room : machine.pc.toNat + (machine.stride input instruction).toNat < UInt16.size) :
    machine.executeWord input word = .ok (machine.effect input instruction) :=
  executeWord_eq_ok_iff.mpr ⟨instruction, encodes, harmless, if_pos room, rfl⟩

/-- A word that succeeds has the effect of the instruction that it stands for. -/
theorem eq_effect_of_encodes {input : Input} (encodes : word.Encodes instruction)
    (executed : machine.executeWord input word = .ok next) :
    next = machine.effect input instruction := by
  obtain ⟨found, alsoEncodes, -, -, rfl⟩ := executeWord_eq_ok_iff.mp executed
  rw [Instruction.eq_of_encodes encodes alsoEncodes]

/-- Where there is room behind the counter, the next word is two bytes on. -/
theorem toNat_counter_add_two (room : machine.pc.toNat + 2 < UInt16.size) :
    (machine.pc + 2).toNat = machine.pc.toNat + 2 :=
  Checked.toNat_add_of_overflow? (if_pos room)

theorem executeWords_cons {inputs : Nat → Input}
    (executed : machine.executeWord (inputs 0) word = .ok next) (later : List Word) :
    machine.executeWords inputs (word :: later) =
      next.executeWords (fun step => inputs (step + 1)) later := by
  rw [executeWords, executed, ok_bind]

end Chip8.Machine
