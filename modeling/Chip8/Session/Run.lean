import Chip8.Log
import Chip8.Session

/-!
# Running many cycles

A run tries one cycle for each random byte that it is given and ends early at the
first fault. It keeps what can be observed on the way.
-/

namespace Chip8

/-- What a run did. -/
structure Run where
  /-- The session after the last cycle that was tried. -/
  session : Session
  /-- The fault that ended the run. -/
  fault : Option Fault
  /-- The states after the cycles that succeeded, in order. -/
  reached : List Machine
  /-- The states in which a word was fetched, each with that word, in order. -/
  fetched : List (Machine × Word)

/-- The log of a run: one entry for each word that was fetched. -/
def Run.log (run : Run) : List Log.Entry :=
  run.fetched.map fun entry => Log.step entry.1 entry.2

namespace Session

/-- The word that the next cycle fetches, with the state that it is fetched in. -/
def pendingFetch (session : Session) : List (Machine × Word) :=
  match session.machine.fetch with
  | .ok word => [(session.machine, word)]
  | .error _ => []

/-- Runs a cycle for each random byte, up to the first fault. -/
def run (session : Session) : List UInt8 → Run
  | [] => ⟨session, none, [], []⟩
  | random :: rest =>
    match session.cycle random with
    | (.error fault, halted) => ⟨halted, some fault, [], session.pendingFetch⟩
    | (.ok (), next) =>
      let later := next.run rest
      { later with
        reached := next.machine :: later.reached
        fetched := session.pendingFetch ++ later.fetched }

/-- Goes back by up to `count` cycles, and tells how many there were to go back. -/
def rewind (session : Session) : Nat → Nat × Session
  | 0 => (0, session)
  | count + 1 =>
    match session.reverse with
    | (true, earlier) =>
      let (further, earliest) := earlier.rewind count
      (further + 1, earliest)
    | (false, _) => (0, session)

end Session

end Chip8
