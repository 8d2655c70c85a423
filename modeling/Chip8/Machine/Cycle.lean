import Chip8.Machine.Execution

/-!
# One cycle

A cycle fetches the word at the counter, executes it, records it and counts both
timers down. A cycle that faults has no next state.
-/

namespace Chip8.Machine

/-- A timer one step further down, or at rest. -/
def countDown (timer : UInt8) : Except Fault UInt8 :=
  if timer = 0 then .ok 0 else Checked.previous timer

/-- Both timers one step further down. The tone is raised when the sound timer runs out. -/
def tick (machine : Machine) : Except Fault Machine := do
  let delay ← countDown machine.delay
  let sound ← countDown machine.sound
  return { machine with delay, sound, tone := machine.tone || machine.sound == 1 }

/-- The machine after one cycle. -/
def cycle (machine : Machine) (input : Input) : Except Fault Machine := do
  let word ← machine.fetch
  let executed ← machine.executeWord input word
  tick { executed with word }

/-- The machine after a cycle for each input, all of which have to succeed. -/
def cycles (machine : Machine) : List Input → Except Fault Machine
  | [] => .ok machine
  | input :: later => do
    let next ← machine.cycle input
    next.cycles later

end Chip8.Machine
