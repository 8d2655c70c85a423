import Chip8.Machine.Cycle
import Chip8.Proofs.Machine.Effect

/-!
# What a cycle does

`cycle_eq` gives the outcome of a cycle for every machine, also for one that no
program reaches. The fault is a function of the machine alone: neither the keypad
nor the random byte has a part in it. `cycle_eq_ok_iff` says what a cycle that
succeeds has done.
-/

namespace Chip8.Machine

/-- The word at the counter, high byte first. Bytes past the end of memory count as zero. -/
def pending (machine : Machine) : Word :=
  Word.ofBytes (machine.memory[machine.pc.toNat]?.getD 0)
    (machine.memory[machine.pc.toNat + 1]?.getD 0)

/-- A timer one step further down, or at rest. -/
def lowered (timer : UInt8) : UInt8 :=
  if timer = 0 then 0 else timer - 1

/-- The machine at the end of a cycle, once its instruction has been executed: the word is
recorded and both timers have run. -/
def conclude (machine : Machine) (word : Word) : Machine :=
  { machine with
    word
    delay := lowered machine.delay
    sound := lowered machine.sound
    tone := machine.tone || machine.sound == 1 }

/-- The fault of the next cycle: of its fetch, its word or its instruction. -/
def cycleFault? (machine : Machine) : Option Fault :=
  if machine.OnWord then
    match Instruction.ofWord? machine.pending with
    | some instruction => machine.fault? instruction
    | none => some (.unknownWord machine.pending)
  else
    some (.outOfBounds (max Memory.size machine.pc.toNat))

/-- The machine after a cycle without fault. -/
def cycleEffect (machine : Machine) (input : Input) : Machine :=
  match Instruction.ofWord? machine.pending with
  | some instruction => (machine.effect input instruction).conclude machine.pending
  | none => machine

/-- Machines that agree in registers, counters, call stack and memory fail alike. -/
theorem cycleFault?_congr {machine other : Machine} (registers : other.v = machine.v)
    (index : other.i = machine.i) (counter : other.pc = machine.pc) (depth : other.sp = machine.sp)
    (stack : other.stack = machine.stack) (memory : other.memory = machine.memory) :
    other.cycleFault? = machine.cycleFault? := by
  cases machine
  cases other
  cases registers
  cases index
  cases counter
  cases depth
  cases stack
  cases memory
  rfl

/-- A fetch fails at the first byte that lies past the end of memory. -/
theorem fetch_eq (machine : Machine) :
    machine.fetch =
      outcome
        (if machine.OnWord then none
          else some (.outOfBounds (max Memory.size machine.pc.toNat)))
        machine.pending := by
  rw [fetch, Memory.byteAt_eq, Memory.byteAt_eq]
  by_cases onWord : machine.OnWord
  · have first : machine.pc.toNat < Memory.size := Nat.lt_of_succ_lt onWord
    simp only [first, onWord, if_true]
    rfl
  · have second : ¬ machine.pc.toNat + 1 < Memory.size := onWord
    by_cases first : machine.pc.toNat < Memory.size
    · have greatest : max Memory.size machine.pc.toNat = machine.pc.toNat + 1 := by omega
      simp only [first, second, greatest, if_true, if_false]
      rfl
    · have greatest : max Memory.size machine.pc.toNat = machine.pc.toNat := by omega
      simp only [first, onWord, greatest, if_false]
      rfl

theorem fetch_of_onWord {machine : Machine} (onWord : machine.OnWord) :
    machine.fetch = .ok machine.pending := by
  rw [fetch_eq, if_pos onWord, outcome_none]

theorem tick_eq (machine : Machine) (word : Word) :
    tick { machine with word } = .ok (machine.conclude word) := by
  have countDown_eq (timer : UInt8) : countDown timer = .ok (lowered timer) := by
    by_cases rest : timer = 0
    · simp [countDown, lowered, rest]
    · have positive : 0 < timer.toNat := UInt8.pos_iff_ne_zero.mpr rest
      simp [countDown, lowered, rest, Checked.previous_eq_ok positive]
  simp only [tick, countDown_eq, ok_bind]
  rfl

theorem cycle_eq (machine : Machine) (input : Input) :
    machine.cycle input = outcome machine.cycleFault? (machine.cycleEffect input) := by
  by_cases onWord : machine.OnWord
  · simp only [cycle, fetch_eq, cycleFault?, cycleEffect, executeWord, onWord, if_true,
      outcome_none, ok_bind]
    cases Instruction.ofWord? machine.pending with
    | none => rfl
    | some instruction =>
      simp only [execute_of_onWord onWord, tick_eq]
      exact outcome_bind_ok _ _ _
  · simp only [cycle, fetch_eq, cycleFault?, onWord, if_false, outcome_some, error_bind]

/-- A cycle that succeeds has executed the instruction at the counter. -/
theorem cycle_eq_ok_iff {machine next : Machine} {input : Input} :
    machine.cycle input = .ok next ↔
      ∃ instruction,
        machine.OnWord ∧ Instruction.ofWord? machine.pending = some instruction ∧
          machine.fault? instruction = none ∧
            next = (machine.effect input instruction).conclude machine.pending := by
  rw [cycle_eq, outcome_eq_ok_iff]
  by_cases onWord : machine.OnWord
  · cases decoded : Instruction.ofWord? machine.pending with
    | none => simp [cycleFault?, onWord, decoded]
    | some instruction => simp [cycleFault?, cycleEffect, onWord, decoded]
  · simp [cycleFault?, onWord]

end Chip8.Machine
