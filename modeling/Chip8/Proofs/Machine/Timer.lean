import Chip8.Proofs.Machine.Cycle
import Chip8.Proofs.Machine.Footprint

/-!
# Timers over cycles

Each timer has one word that sets it, and no other word touches it. A cycle counts
both timers down after its word has been executed, so the cycle that sets a timer
already takes one off (`timer_of_cycle`).

`TimerLaw` is the closed form for a sequence of cycles: a timer that none of them
sets has lost one for each cycle, and otherwise it has lost one for each cycle since
it was last set, that one included. Neither goes below zero. `TimerLaw.cons` is the
step by which a run keeps the law.
-/

namespace Chip8

/-- One of the two timers. -/
inductive Timer where
  | delay
  | sound
deriving DecidableEq, Repr

/-- The low byte of a word that sets a timer. -/
def Timer.byte : Timer → UInt8
  | .delay => 0x15
  | .sound => 0x18

/-- A word sets a timer, to what its register holds. -/
abbrev Word.Sets (word : Word) (timer : Timer) : Prop :=
  word.family = 0xF ∧ word.byte = timer.byte

/-- A word reads the delay timer into its register. -/
abbrev Word.ReadsDelay (word : Word) : Prop :=
  word.family = 0xF ∧ word.byte = 0x07

namespace Machine

/-- The value of a timer. -/
def timer (machine : Machine) : Timer → UInt8
  | .delay => machine.delay
  | .sound => machine.sound

/-- What the word at the counter would set a timer to. -/
def pendingValue (machine : Machine) : UInt8 :=
  machine.v.read machine.pending.x

theorem toNat_lowered (timer : UInt8) : (lowered timer).toNat = timer.toNat - 1 := by
  by_cases rest : timer = 0
  · simp [lowered, rest]
  · have positive : 0 < timer.toNat := UInt8.pos_iff_ne_zero.mpr rest
    simp only [lowered, rest, if_false, Checked.toNat_sub_one positive]

/-- A word that sets a timer leaves the value of its register there. -/
theorem timer_effect_of_sets {machine : Machine} {word : Word} {instruction : Instruction}
    (encodes : word.Encodes instruction) {timer : Timer} (sets : word.Sets timer)
    (input : Input) :
    (machine.effect input instruction).timer timer = machine.v.read word.x := by
  cases timer with
  | delay =>
    obtain rfl := Instruction.eq_of_encodes encodes
      (show word.Encodes (.setDelay word.x) from ⟨sets.1, sets.2, rfl⟩)
    rfl
  | sound =>
    obtain rfl := Instruction.eq_of_encodes encodes
      (show word.Encodes (.setSound word.x) from ⟨sets.1, sets.2, rfl⟩)
    rfl

/-- Any other word leaves the timer alone. -/
theorem timer_effect_of_not_sets {machine : Machine} {word : Word} {instruction : Instruction}
    (encodes : word.Encodes instruction) {timer : Timer} (unset : ¬ word.Sets timer)
    (input : Input) :
    (machine.effect input instruction).timer timer = machine.timer timer := by
  refine Decidable.byContradiction fun changed => unset ?_
  cases timer with
  | delay => exact byte_of_nextDelay_ne encodes changed
  | sound => exact byte_of_nextSound_ne encodes changed

/-- A cycle sets a timer if its word does, and then takes one off. -/
theorem timer_of_cycle {machine next : Machine} {input : Input}
    (ran : machine.cycle input = .ok next) (timer : Timer) :
    (next.timer timer).toNat =
      (if machine.pending.Sets timer then machine.pendingValue
        else machine.timer timer).toNat - 1 := by
  obtain ⟨instruction, -, decoded, -, rfl⟩ := cycle_eq_ok_iff.mp ran
  have encodes := Instruction.ofWord?_eq_some_iff.mp decoded
  have counted (executed : Machine) :
      ((executed.conclude machine.pending).timer timer).toNat =
        (executed.timer timer).toNat - 1 := by
    cases timer <;> exact toNat_lowered _
  rw [counted]
  split
  · next sets => rw [timer_effect_of_sets encodes sets, pendingValue]
  · next unset => rw [timer_effect_of_not_sets encodes unset]

/-- A cycle that reads the delay timer gives its register the value before the cycle. -/
theorem read_of_readsDelay {machine next : Machine} {input : Input}
    (ran : machine.cycle input = .ok next) (reads : machine.pending.ReadsDelay) :
    next.v.read machine.pending.x = machine.delay := by
  obtain ⟨instruction, -, decoded, -, rfl⟩ := cycle_eq_ok_iff.mp ran
  obtain rfl := Instruction.eq_of_encodes (Instruction.ofWord?_eq_some_iff.mp decoded)
    (show machine.pending.Encodes (.getDelay machine.pending.x) from ⟨reads.1, reads.2, rfl⟩)
  exact (Registers.read_write _ _ _ _).trans (if_pos rfl)

end Machine

/-- The value of a timer after cycles, given its value before them and the machine before each. -/
structure TimerLaw (timer : Timer) (before : UInt8) (executed : List Machine) (after : UInt8) :
    Prop where
  unset :
    (∀ machine ∈ executed, ¬ machine.pending.Sets timer) →
      after.toNat = before.toNat - executed.length
  set :
    ∀ earlier machine later, executed = earlier ++ machine :: later →
      machine.pending.Sets timer → (∀ other ∈ later, ¬ other.pending.Sets timer) →
        after.toNat = machine.pendingValue.toNat - 1 - later.length

theorem TimerLaw.nil (timer : Timer) (value : UInt8) : TimerLaw timer value [] value where
  unset _ := rfl
  set earlier machine later split := by simp at split

/-- A cycle in front counts like any other, and comes before whatever sets the timer later. -/
theorem TimerLaw.cons {timer : Timer} {before next after : UInt8} {machine : Machine}
    {later : List Machine} (law : TimerLaw timer next later after)
    (step : next.toNat =
      (if machine.pending.Sets timer then machine.pendingValue else before).toNat - 1) :
    TimerLaw timer before (machine :: later) after where
  unset never := by
    obtain ⟨unset, rest⟩ := List.forall_mem_cons.mp never
    rw [if_neg unset] at step
    rw [law.unset rest, step, List.length_cons]
    omega
  set earlier last rest split sets quiet := by
    cases earlier with
    | nil =>
      cases split
      rw [if_pos sets] at step
      rw [law.unset quiet, step]
    | cons first earlier =>
      cases split
      exact law.set earlier last rest rfl sets quiet

end Chip8
