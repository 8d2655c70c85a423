import Chip8.Proofs.Machine.Failure
import Chip8.Proofs.Session.Replay

/-!
# Waiting for a key

A machine whose counter is on a word that waits for a key stays there for as long as
no key is down, and only its timers, the tone and the record of the last word change.
In the first round in which a key is down its register takes the greatest such key,
and the counter goes on.

`play_of_released` follows the wait over any number of rounds: since neither the
counter nor memory changes, the word is the same in every round. `play_awaitKey` adds
the round that ends the wait.
-/

namespace Chip8

namespace Machine

variable {machine : Machine} {word : Word} {input : Input}

/-- A word that waits for a key raises no fault. -/
theorem cycle_awaitKey (points : machine.PointsAt word) (family : word.family = 0xF)
    (byte : word.byte = 0x0A) (input : Input) :
    machine.cycle input = .ok ((machine.effect input (.awaitKey word.x)).conclude word) := by
  obtain ⟨onWord, rfl⟩ := pointsAt_iff.mp points
  have encodes : machine.pending.Encodes (.awaitKey machine.pending.x) := ⟨family, byte, rfl⟩
  exact cycle_eq_ok_iff.mpr
    ⟨_, onWord, Instruction.ofWord?_eq_some_iff.mpr encodes, rfl, rfl⟩

/-- With every key up nothing happens but the end of the cycle. -/
theorem cycle_awaitKey_of_released (points : machine.PointsAt word) (family : word.family = 0xF)
    (byte : word.byte = 0x0A) (released : ∀ key, input.keys.get key = false) :
    machine.cycle input = .ok (machine.conclude word) := by
  have none : input.keys.greatestDown? = none := Keypad.greatestDown?_eq_none_iff.mpr released
  have idle : machine.effect input (.awaitKey word.x) = machine := by
    simp only [effect, nextRegisters, nextCounter, none]
    rfl
  rw [cycle_awaitKey points family byte, idle]

/-- With a key down the register takes the greatest one, and the counter goes on. -/
theorem cycle_awaitKey_of_down (points : machine.PointsAt word) (family : word.family = 0xF)
    (byte : word.byte = 0x0A) {down : Fin 16} (pressed : input.keys.get down = true) :
    ∃ key next, input.keys.get key = true ∧
      (∀ other, input.keys.get other = true → other ≤ key) ∧ machine.cycle input = .ok next ∧
      next = conclude
        { machine with v := machine.v.write word.x (UInt8.ofNat key.val), pc := machine.pc + 2 }
        word := by
  cases found : input.keys.greatestDown? with
  | none =>
    have up : input.keys.get down = false := Keypad.greatestDown?_eq_none_iff.mp found down
    rw [up] at pressed
    cases pressed
  | some key =>
    obtain ⟨held, greatest⟩ := Keypad.greatest_of_greatestDown? found
    refine ⟨key, _, held, greatest, cycle_awaitKey points family byte input, ?_⟩
    have taken : machine.effect input (.awaitKey word.x) =
        { machine with
          v := machine.v.write word.x (UInt8.ofNat key.val)
          pc := machine.pc + 2 } := by
      simp only [effect, nextRegisters, nextCounter, found]
      rfl
    rw [taken]

end Machine

namespace Session

variable {session : Session} {word : Word} {rounds : List Round}

/-- Rounds with every key up all succeed, and change nothing but what time changes. -/
theorem play_of_released (points : session.machine.PointsAt word) (family : word.family = 0xF)
    (byte : word.byte = 0x0A)
    (released : ∀ input ∈ Round.inputs session.keys rounds, ∀ key, input.keys.get key = false) :
    ∃ last, session.play rounds = .ok last ∧
      ∃ delay sound tone recorded,
        last.machine = { session.machine with delay, sound, tone, word := recorded } := by
  induction rounds generalizing session with
  | nil => exact ⟨session, rfl, _, _, _, _, rfl⟩
  | cons round later inductionHypothesis =>
    obtain ⟨first, rest⟩ := List.forall_mem_cons.mp released
    have cycled := Machine.cycle_awaitKey_of_released points family byte first
    let next : Session :=
      ⟨session.machine.conclude word, session.history.save session.machine,
        round.keys session.keys⟩
    -- The counter and memory are as before, so the same word waits again.
    obtain ⟨last, played, delay, sound, tone, recorded, reached⟩ :=
      @inductionHypothesis next points rest
    have started := play_cons_eq_ok_iff.mpr ⟨next, ⟨cycled, rfl, rfl⟩, played⟩
    exact ⟨last, started, delay, sound, tone, recorded, reached⟩

/-- The input of the round after some rounds is made from the keypad that they leave behind. -/
theorem exists_round_of_getElem?_inputs {middle : Session} {count : Nat} {input : Machine.Input}
    (played : session.play (rounds.take count) = .ok middle)
    (given : (Round.inputs session.keys rounds)[count]? = some input) :
    ∃ round, rounds[count]? = some round ∧ input = ⟨round.keys middle.keys, round.random⟩ := by
  have first : (Round.inputs middle.keys (rounds.drop count))[0]? = some input := by
    rw [← drop_inputs_of_play played, List.getElem?_drop]
    exact given
  cases left : rounds.drop count with
  | nil =>
    rw [left] at first
    cases first
  | cons round later =>
    rw [left] at first
    cases first
    refine ⟨round, ?_, rfl⟩
    have head := congrArg (·[0]?) left
    rwa [List.getElem?_drop] at head

/-- A machine on a word that waits for a key may be played any number of rounds, with any changes to
the keypad between its cycles. For as long as no key is down all rounds succeed, and change nothing
but the timers, the tone and the record of the last word, so that the machine still waits on the
same word. The first round in which a key is down succeeds as well. It gives the register the
greatest key that is down and takes the counter to the next word, and again changes nothing else but
the timers, the tone and the record. -/
theorem play_awaitKey (session : Session) (word : Word) (rounds : List Round)
    (points : session.machine.PointsAt word) (family : word.family = 0xF)
    (byte : word.byte = 0x0A) :
    let inputs := Round.inputs session.keys rounds
    ∀ count, (∀ input ∈ inputs.take count, ∀ key, input.keys.get key = false) →
      (∃ last, session.play (rounds.take count) = .ok last ∧ last.machine.PointsAt word ∧
        ∃ delay sound tone recorded,
          last.machine = { session.machine with delay, sound, tone, word := recorded }) ∧
      ∀ input down, inputs[count]? = some input → input.keys.get down = true →
        ∃ last key, session.play (rounds.take (count + 1)) = .ok last ∧
          input.keys.get key = true ∧ (∀ other, input.keys.get other = true → other ≤ key) ∧
          ∃ delay sound tone recorded,
            last.machine =
              { session.machine with
                v := session.machine.v.write word.x (UInt8.ofNat key.val)
                pc := session.machine.pc + 2
                delay, sound, tone, word := recorded } := by
  intro inputs count released
  rw [← Round.inputs_take] at released
  obtain ⟨waiting, played, delay, sound, tone, recorded, same⟩ :=
    play_of_released points family byte released
  have still : waiting.machine.PointsAt word := by
    rw [same]
    exact points
  refine ⟨⟨waiting, played, still, delay, sound, tone, recorded, same⟩, ?_⟩
  intro input down given pressed
  obtain ⟨round, next, rfl⟩ := exists_round_of_getElem?_inputs played given
  obtain ⟨key, machine, held, greatest, cycled, taken⟩ :=
    Machine.cycle_awaitKey_of_down still family byte pressed
  let last : Session :=
    ⟨machine, waiting.history.save waiting.machine, round.keys waiting.keys⟩
  have ended : waiting.play [round] = .ok last :=
    play_cons_eq_ok_iff.mpr ⟨last, ⟨cycled, rfl, rfl⟩, rfl⟩
  refine ⟨last, key, ?_, held, greatest, machine.delay, machine.sound, machine.tone, word, ?_⟩
  · rw [List.take_add_one, next]
    exact play_append_eq_ok_iff.mpr ⟨waiting, played, ended⟩
  · simp only [last, taken, same]
    rfl

/-- A program starts a tone and waits for a key. The tone ends while it waits, a key past the last
one is none, and of the two keys that go down at once it takes the greater. -/
theorem play_awaitKey_greatest :
    let session :=
      (start 4).afterAll [.load [0x60, 0x03, 0xF0, 0x18, 0xF2, 0x0A], .cycle 0, .cycle 0]
    let rounds : List Round := [⟨[], 0⟩, ⟨[.press 16], 0⟩, ⟨[.press 0xB, .press 3], 0⟩]
    session.machine.PointsAt 0xF20A ∧
      (∃ last, session.play (rounds.take 2) = .ok last ∧ last.machine.PointsAt 0xF20A) ∧
      ∃ last, session.play rounds = .ok last ∧ last.machine.v.read 2 = 0xB ∧
        last.machine.pc = session.machine.pc + 2 ∧ last.machine.frame = session.machine.frame := by
  intro session rounds
  have points : session.machine.PointsAt 0xF20A := by
    rw [Machine.pointsAt_iff]
    decide +kernel
  obtain ⟨released, given⟩ :
      (∀ input ∈ (Round.inputs session.keys rounds).take 2, ∀ key, input.keys.get key = false) ∧
        (Round.inputs session.keys rounds)[2]? =
          some ⟨(Keypad.released.press 0xB).press 3, 0⟩ := by
    decide +kernel
  obtain ⟨⟨waiting, waited, still, -⟩, ends⟩ :=
    play_awaitKey session 0xF20A rounds points (by decide) (by decide) 2 released
  obtain ⟨last, key, played, held, greatest, delay, sound, tone, recorded, reached⟩ :=
    ends _ 3 given (by decide)
  have other : ∀ key : Fin 16, ((Keypad.released.press 0xB).press 3).get key = true → key ≤ 0xB := by
    decide
  obtain rfl : key = 0xB := Fin.le_antisymm (other key held) (greatest 0xB (by decide))
  refine ⟨points, ⟨waiting, waited, still⟩, last, played, ?_, ?_, ?_⟩
  all_goals rw [reached]
  exact (Registers.read_write _ _ _ _).trans (if_pos rfl)

end Session

end Chip8
