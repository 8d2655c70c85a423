import Chip8.Session

/-!
# The calls of a host

What a host may ask of a session as data, so that a sequence of calls is a list.
Every call is answered and leaves a session behind, also one that fails.
-/

namespace Chip8

/-- A change that a host makes to the keypad. -/
inductive Keypad.Change where
  | press (key : UInt8)
  | release (key : UInt8)
  | replace (keys : Keypad)
deriving DecidableEq

/-- The keypad after a change. -/
def Keypad.change (keys : Keypad) : Keypad.Change → Keypad
  | .press key => keys.press key
  | .release key => keys.release key
  | .replace others => others

/-- A call of the host. -/
inductive Call where
  /-- Load a program. -/
  | load (rom : List UInt8)
  /-- Load the program that a source gives. -/
  | loadFrom (source : Source)
  /-- Run one cycle with a random byte at hand. -/
  | cycle (random : UInt8)
  /-- Go back by one cycle. -/
  | reverse
  /-- Change the keypad. -/
  | keys (change : Keypad.Change)
  /-- Take the frame, if it is to be painted again. -/
  | takeFrame
  /-- Take the tone, if one is to sound. -/
  | takeTone
deriving DecidableEq

/-- The answer to a call. -/
inductive Reply where
  /-- The size of the program, or why there is none. -/
  | loaded (result : Except LoadError Nat)
  /-- A cycle succeeded. -/
  | ran
  /-- A cycle failed. -/
  | faulted (fault : Fault)
  /-- Whether there was a cycle to go back by. -/
  | reversed (undone : Bool)
  /-- The frame, if it is to be painted again. -/
  | frame (taken : Option Frame)
  /-- Whether a tone is to sound. -/
  | tone (sounds : Bool)
  /-- A change to the keypad is not answered. -/
  | done

/-- The answer to a cycle. -/
def Reply.ofCycle : Except Fault Unit → Reply
  | .ok () => .ran
  | .error fault => .faulted fault

namespace Session

/-- Changes the keypad. -/
def change (session : Session) : Keypad.Change → Session
  | .press key => session.press key
  | .release key => session.release key
  | .replace keys => session.setKeys keys

/-- A change to the keypad changes the keypad and nothing else. -/
theorem change_eq (session : Session) (change : Keypad.Change) :
    session.change change = { session with keys := session.keys.change change } := by
  cases change <;> rfl

/-- The answer to a call, and the session after it. -/
def call (session : Session) : Call → Reply × Session
  | .load rom =>
    let (result, loaded) := session.load rom
    (.loaded result, loaded)
  | .loadFrom source =>
    let (result, loaded) := session.loadFrom source
    (.loaded result, loaded)
  | .cycle random =>
    let (result, next) := session.cycle random
    (.ofCycle result, next)
  | .reverse =>
    let (undone, earlier) := session.reverse
    (.reversed undone, earlier)
  | .keys change => (.done, session.change change)
  | .takeFrame =>
    let (taken, rest) := session.takeFrame
    (.frame taken, rest)
  | .takeTone =>
    let (sounds, rest) := session.takeTone
    (.tone sounds, rest)

def reply (session : Session) (call : Call) : Reply :=
  (session.call call).1

def after (session : Session) (call : Call) : Session :=
  (session.call call).2

/-- The session after calls in order. -/
def afterAll (session : Session) (calls : List Call) : Session :=
  calls.foldl after session

/-- The answers to calls in order. -/
def replies (session : Session) : List Call → List Reply
  | [] => []
  | call :: later => session.reply call :: (session.after call).replies later

theorem afterAll_append (session : Session) (calls later : List Call) :
    session.afterAll (calls ++ later) = (session.afterAll calls).afterAll later :=
  List.foldl_append

end Session

end Chip8
