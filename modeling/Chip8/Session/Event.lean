import Chip8.Keyboard
import Chip8.Session.Call

/-!
# Events at a host

A host hears of the keys of a keyboard, and makes calls of its own. A key of the
keyboard that goes down or up presses or releases the keypad key that it stands in
for. If it stands in for none, nothing is called.
-/

namespace Chip8

/-- What happens at a host. -/
inductive Event where
  /-- A key of the keyboard goes down. -/
  | keyDown (code : Int)
  /-- A key of the keyboard goes up. -/
  | keyUp (code : Int)
  /-- The host makes a call of its own. -/
  | called (call : Call)
deriving DecidableEq

/-- What a host calls on an event. -/
def Event.calls : Event → List Call
  | .keyDown code =>
    (Keyboard.key? code).toList.map fun key => .keys (.press (UInt8.ofNat key.val))
  | .keyUp code =>
    (Keyboard.key? code).toList.map fun key => .keys (.release (UInt8.ofNat key.val))
  | .called call => [call]

/-- The session after events in order. -/
def Session.afterEvents (session : Session) (events : List Event) : Session :=
  session.afterAll (events.flatMap Event.calls)

end Chip8
