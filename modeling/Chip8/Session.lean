import Chip8.History
import Chip8.Machine.Cycle
import Chip8.Rom.Source

/-!
# A session

A session is a machine under the hands of a host: the machine, the states to
which it can be rewound, and the keypad. Loading replaces the machine and forgets
its past; the keypad belongs to the host and survives both loading and rewinding.
-/

namespace Chip8

/-- A machine with its past and its keypad. -/
structure Session where
  machine : Machine
  history : History
  keys : Keypad
deriving DecidableEq

namespace Session

/-- A session with a fresh machine that can be rewound by up to `depth` cycles. -/
def start (depth : Nat) : Session where
  machine := Machine.fresh
  history := History.empty depth
  keys := Keypad.released

/-- The session after an attempt to load a program, and the size of the program. -/
def afterLoad (session : Session) (loading : Rom.Loading) : Except LoadError Nat × Session :=
  (Rom.reportedSize loading session.machine,
    { session with
      machine := Rom.machineAfter loading session.machine
      history := session.history.clear })

/-- Loads a program. -/
def load (session : Session) (rom : List UInt8) : Except LoadError Nat × Session :=
  session.afterLoad (Rom.install rom)

/-- Loads the program that a source gives. -/
def loadFrom (session : Session) (source : Source) : Except LoadError Nat × Session :=
  session.afterLoad (Rom.installFrom source)

/-- Saves the state of the machine. -/
def save (session : Session) : Session :=
  { session with history := session.history.save session.machine }

/-- Works out the machine after a cycle, and then saves the machine before it and moves on. -/
def attemptCycle (random : UInt8) : Attempt Fault Session Unit := do
  let session ← get
  let next ← session.machine.cycle ⟨session.keys, random⟩
  modify save
  modify fun saved => { saved with machine := next }

/-- Runs one cycle with a random byte at hand, and tells whether it has succeeded. -/
def cycle (session : Session) (random : UInt8) : Except Fault Unit × Session :=
  (attemptCycle random).run session

/-- Goes back by one cycle if a state is saved, and tells whether it did. The screen is to be
painted again afterwards. -/
def reverse (session : Session) : Bool × Session :=
  match session.history.pop? with
  | some (machine, history) =>
    (true, { session with machine := { machine with redraw := true }, history })
  | none => (false, session)

/-- Presses a key. -/
def press (session : Session) (key : UInt8) : Session :=
  { session with keys := session.keys.press key }

/-- Releases a key. -/
def release (session : Session) (key : UInt8) : Session :=
  { session with keys := session.keys.release key }

/-- Replaces the keypad. -/
def setKeys (session : Session) (keys : Keypad) : Session :=
  { session with keys }

/-- The frame, if it is to be painted again, which it then no longer is. -/
def takeFrame (session : Session) : Option Frame × Session :=
  if session.machine.redraw then
    (some session.machine.frame,
      { session with machine := { session.machine with redraw := false } })
  else
    (none, session)

/-- Whether a tone is to sound, which it then no longer is. -/
def takeTone (session : Session) : Bool × Session :=
  (session.machine.tone, { session with machine := { session.machine with tone := false } })

end Session

end Chip8
