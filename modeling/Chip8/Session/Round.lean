import Chip8.Session.Call

/-!
# Rounds of play

A round is what a host does between two frames of a game: it passes on what has
happened to the keys and runs a cycle. What a round means to the machine is its
input, the keypad in force and the random byte.
-/

namespace Chip8

/-- Changes to the keypad, and a cycle after them. -/
structure Round where
  /-- What happens to the keys, in order. -/
  changes : List Keypad.Change
  /-- The random byte at hand in the cycle. -/
  random : UInt8
deriving DecidableEq

namespace Round

/-- The keypad in force during a round. -/
def keys (round : Round) (before : Keypad) : Keypad :=
  round.changes.foldl Keypad.change before

/-- What the machine is given in each of some rounds. -/
def inputs (before : Keypad) : List Round → List Machine.Input
  | [] => []
  | round :: later => ⟨round.keys before, round.random⟩ :: inputs (round.keys before) later

/-- What the machine is given in the first rounds does not depend on the later ones. -/
theorem inputs_take (before : Keypad) (rounds : List Round) (count : Nat) :
    inputs before (rounds.take count) = (inputs before rounds).take count := by
  induction rounds generalizing before count with
  | nil => simp [inputs]
  | cons round later inductionHypothesis =>
    cases count with
    | zero => rfl
    | succ count => rw [List.take_succ_cons, inputs, inputs, List.take_succ_cons,
        inductionHypothesis]

end Round

namespace Session

/-- Plays a round, whose cycle has to succeed. -/
def playRound (session : Session) (round : Round) : Except Fault Session :=
  match (round.changes.foldl Session.change session).cycle round.random with
  | (.ok (), next) => .ok next
  | (.error fault, _) => .error fault

/-- Plays rounds in order, all of which have to succeed. -/
def play (session : Session) : List Round → Except Fault Session
  | [] => .ok session
  | round :: later => do
    let next ← session.playRound round
    next.play later

/-- Changes to the keypad change the keypad and nothing else. -/
theorem foldl_change (session : Session) (changes : List Keypad.Change) :
    changes.foldl Session.change session =
      { session with keys := changes.foldl Keypad.change session.keys } := by
  induction changes generalizing session with
  | nil => rfl
  | cons change later inductionHypothesis =>
    rw [List.foldl_cons, List.foldl_cons, inductionHypothesis, change_eq]

end Session

end Chip8
