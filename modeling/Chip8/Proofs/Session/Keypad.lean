import Chip8.Proofs.Keyboard
import Chip8.Proofs.Session.Call
import Chip8.Session.Event

/-!
# The keypad over events

The keypad belongs to the host. Whatever else happens, a key is as the last event has
left it that decided over this key: a change to the whole keypad, a press or release of
the key by its number, or the one keyboard key that stands in for it going down or up.

`keys_after_of_call` says that no other call touches the keypad, `get_keys_afterEvent`
what one event does to one key, and `get_keys_afterEvents` what any number of them do.
-/

namespace Chip8

/-- What a change makes of a key, if it decides over it. -/
def Keypad.Change.decision? (key : Fin 16) : Keypad.Change → Option Bool
  | .press number => if number.toNat = key.val then some true else none
  | .release number => if number.toNat = key.val then some false else none
  | .replace keys => some (keys.get key)

/-- What an event makes of a key, if it decides over it. -/
def Event.decision? (key : Fin 16) : Event → Option Bool
  | .keyDown code => if Keyboard.key? code = some key then some true else none
  | .keyUp code => if Keyboard.key? code = some key then some false else none
  | .called (.keys change) => change.decision? key
  | .called _ => none

namespace Keypad

/-- A key written by its number is as written, and every other key as before. -/
theorem get_setIfInBounds (keys : Keypad) (number : Nat) (down : Bool) (key : Fin 16) :
    (keys.setIfInBounds number down).get key = if number = key.val then down else keys.get key :=
  Vector.getElem_setIfInBounds key.isLt

theorem get_change (keys : Keypad) (change : Change) (key : Fin 16) :
    (keys.change change).get key = (change.decision? key).getD (keys.get key) := by
  cases change with
  | press number =>
    refine (keys.get_setIfInBounds number.toNat true key).trans ?_
    rw [Change.decision?]
    split <;> rfl
  | release number =>
    refine (keys.get_setIfInBounds number.toNat false key).trans ?_
    rw [Change.decision?]
    split <;> rfl
  | replace others => rfl

theorem toNat_ofNat_key (key : Fin 16) : (UInt8.ofNat key.val).toNat = key.val := by
  rw [UInt8.toNat_ofNat']
  omega

/-- A number past the last key changes nothing. -/
theorem setIfInBounds_of_beyond (keys : Keypad) {number : UInt8} (beyond : 16 ≤ number.toNat)
    (down : Bool) : keys.setIfInBounds number.toNat down = keys :=
  Vector.setIfInBounds_eq_of_size_le beyond

end Keypad

namespace Session

variable {session : Session}

/-- No call but a change to the keypad touches the keypad. -/
theorem keys_after_of_call {call : Call} (other : ∀ change, call ≠ .keys change) :
    (session.after call).keys = session.keys := by
  have reloaded := session.after_of_loads call
  cases call with
  | load rom | loadFrom source =>
    obtain ⟨memory, loaded⟩ := reloaded rfl
    rw [loaded]
  | cycle random =>
    rcases session.cycle_runs_or_fails random with ⟨next, ran⟩ | ⟨fault, failed⟩
    · rw [after_cycle_of_ok ran]
      exact (cycle_eq_ok_iff.mp ran).2.2
    · rw [after_cycle_of_fails failed]
  | reverse =>
    cases saved : session.history.saved with
    | nil => rw [after_reverse_of_nil saved]
    | cons state older => rw [after_reverse_of_cons saved]
  | keys change => exact absurd rfl (other change)
  | takeFrame => rw [after_takeFrame]
  | takeTone => rfl

/-- A keyboard key presses or releases the one key that it stands in for. -/
theorem get_keys_afterAll_mapped (code : Int) (key : Fin 16) (change : UInt8 → Keypad.Change)
    (down : Bool)
    (single : ∀ number, (change number).decision? key =
      if number.toNat = key.val then some down else none) :
    (session.afterAll ((Keyboard.key? code).toList.map fun mapped =>
        .keys (change (UInt8.ofNat mapped.val)))).keys.get key =
      (if Keyboard.key? code = some key then some down else none).getD
        (session.keys.get key) := by
  cases Keyboard.key? code with
  | none => rfl
  | some mapped =>
    show (session.after (.keys (change (UInt8.ofNat mapped.val)))).keys.get key = _
    rw [after_keys]
    simp only [Keypad.get_change, single, Keypad.toNat_ofNat_key, Option.some_inj, Fin.val_inj]

/-- An event decides over a key, or leaves it. -/
theorem get_keys_afterEvent (event : Event) (key : Fin 16) :
    (session.afterAll event.calls).keys.get key =
      (event.decision? key).getD (session.keys.get key) := by
  cases event with
  | keyDown code => exact get_keys_afterAll_mapped code key .press true fun number => rfl
  | keyUp code => exact get_keys_afterAll_mapped code key .release false fun number => rfl
  | called call =>
    show (session.after call).keys.get key = _
    cases call with
    | keys change =>
      rw [after_keys]
      exact session.keys.get_change change key
    | _ =>
      rw [keys_after_of_call (by simp)]
      rfl

/-- After events a key is as the last one has left it that decides over it, and as before if none
does. -/
theorem get_keys_afterEvents (events : List Event) (key : Fin 16) :
    (session.afterEvents events).keys.get key =
      (events.filterMap (Event.decision? key)).getLast?.getD (session.keys.get key) := by
  induction events generalizing session with
  | nil => rfl
  | cons event later inductionHypothesis =>
    have first := session.get_keys_afterEvent event key
    have rest : ((session.afterAll event.calls).afterEvents later).keys.get key = _ :=
      inductionHypothesis
    rw [afterEvents, List.flatMap_cons, afterAll_append]
    refine rest.trans ?_
    rw [first, List.filterMap_cons]
    cases event.decision? key with
    | none => rfl
    | some down => rw [List.getLast?_cons, Option.getD_some, Option.getD_some]

/-- Whatever happens at a host, a key is down exactly if the last event that decides over it has
left it down. Every keypad key has one keyboard key that stands in for it, and only one. Keyboard
keys that stand in for none, and numbers past the last key, change nothing at all, and of the other
calls none touches the keypad. -/
theorem keys_afterEvents :
    (∀ (depth : Nat) (events : List Event) (key : Fin 16),
      ((start depth).afterEvents events).keys.get key =
        (events.filterMap (Event.decision? key)).getLast?.getD false) ∧
    (∀ key : Fin 16, ∃ code, Keyboard.key? code = some key ∧
      ∀ other, Keyboard.key? other = some key → other = code) ∧
    (∀ (session : Session) (code : Int), Keyboard.key? code = none →
      session.afterEvents [.keyDown code] = session ∧
        session.afterEvents [.keyUp code] = session) ∧
    (∀ (session : Session) (number : UInt8), 16 ≤ number.toNat →
      session.after (.keys (.press number)) = session ∧
        session.after (.keys (.release number)) = session) ∧
    ∀ (session : Session) (call : Call), (∀ change, call ≠ .keys change) →
      (session.after call).keys = session.keys := by
  refine ⟨?_, ?_, ?_, ?_, ?_⟩
  · intro depth events key
    have up : (start depth).keys.get key = false := Vector.getElem_replicate key.isLt
    rw [get_keys_afterEvents, up]
  · intro key
    obtain ⟨code, mapped⟩ := Keyboard.exists_code key
    exact ⟨code, mapped, fun other also => Keyboard.code_unique also mapped⟩
  · intro session code unmapped
    simp [afterEvents, Event.calls, unmapped, afterAll]
  · intro session number beyond
    simp only [after_keys, Keypad.change, Keypad.press, Keypad.release,
      Keypad.setIfInBounds_of_beyond _ beyond, and_self]
  · intro session call other
    exact keys_after_of_call other

/-- The key for 4 goes down before a program is loaded, run and taken back, and stays down. The key
for F goes down and is released by its number. A space and the number 20 are no keys. -/
theorem keys_afterEvents_held :
    let events : List Event :=
      [.keyDown 113, .called (.load [0x00, 0xE0]), .called (.cycle 0), .keyDown 32,
        .called (.keys (.press 20)), .called .reverse, .keyDown 118,
        .called (.keys (.release 0xF)), .keyUp 32]
    ((start 4).afterEvents events).keys.get 0x4 = true ∧
      ((start 4).afterEvents events).keys.get 0xF = false ∧
      (start 4).afterEvents [.keyDown 32] = start 4 ∧
      (start 4).after (.keys (.press 20)) = start 4 ∧
      ((start 4).after .reverse).keys = Keypad.released := by
  intro events
  obtain ⟨decided, -, unmapped, beyond, other⟩ := keys_afterEvents
  refine ⟨?_, ?_, ?_, ?_, ?_⟩
  · exact (decided 4 events 0x4).trans (by decide)
  · exact (decided 4 events 0xF).trans (by decide)
  · exact (unmapped (start 4) 32 (by decide)).1
  · exact (beyond (start 4) 20 (by decide)).1
  · exact other (start 4) .reverse (by simp)

end Session

end Chip8
