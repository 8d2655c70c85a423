import Chip8.Proofs.Machine.Redraw
import Chip8.Proofs.Session.Call
import Chip8.Session.Round
import Chip8.Session.Run

/-!
# Rewinding and playing again

Two facts about rounds of play are put together here. A state saved before a
round recedes in the history with every round after it, so that going back as
often finds it again, for as long as the depth allows. And playing again from
there under the same inputs runs the same cycles, for no cycle sees the redraw
flag, which is all that going back changes.
-/

namespace Chip8

namespace History

/-- The newest state of a history with room is the one that was saved last. -/
theorem getElem?_zero_save {history : History} (machine : Machine) (room : 0 < history.depth) :
    (history.save machine).saved[0]? = some machine := by
  unfold save
  rw [if_neg (Nat.ne_of_gt room)]
  split <;> rfl

/-- Saving another state moves a state one place back, unless it was the oldest that fits. -/
theorem getElem?_succ_save {history : History} {machine state : Machine} {position : Nat}
    (found : history.saved[position]? = some state) (room : position + 1 < history.depth) :
    (history.save machine).saved[position + 1]? = some state := by
  unfold save
  rw [if_neg (Nat.ne_of_gt (Nat.zero_lt_of_lt room))]
  split
  · next full =>
    have kept : position < history.saved.length - 1 := by omega
    rw [List.getElem?_cons_succ, List.getElem?_dropLast, if_pos kept]
    exact found
  · rw [List.getElem?_cons_succ]
    exact found

end History

namespace Session

/-! ## What a round does -/

/-- A round that succeeds runs a cycle under the changed keypad, and saves the state before. -/
theorem playRound_eq_ok_iff {session next : Session} {round : Round} :
    session.playRound round = .ok next ↔
      session.machine.cycle ⟨round.keys session.keys, round.random⟩ = .ok next.machine ∧
        next.history = session.history.save session.machine ∧
          next.keys = round.keys session.keys := by
  have ends : session.playRound round = .ok next ↔
      (round.changes.foldl Session.change session).cycle round.random = (.ok (), next) := by
    rw [playRound]
    rcases (round.changes.foldl Session.change session).cycle round.random with
      ⟨fault | -, reached⟩
    · simp
    · simp
  rw [ends, foldl_change, cycle_eq_ok_iff]
  rfl

theorem play_cons_eq_ok_iff {session last : Session} {round : Round} {later : List Round} :
    session.play (round :: later) = .ok last ↔
      ∃ next : Session,
        (session.machine.cycle ⟨round.keys session.keys, round.random⟩ = .ok next.machine ∧
          next.history = session.history.save session.machine ∧
            next.keys = round.keys session.keys) ∧
          next.play later = .ok last := by
  rw [play, bind_eq_ok_iff]
  simp only [playRound_eq_ok_iff]

theorem play_append_eq_ok_iff {session last : Session} {first later : List Round} :
    session.play (first ++ later) = .ok last ↔
      ∃ middle, session.play first = .ok middle ∧ middle.play later = .ok last := by
  induction first generalizing session with
  | nil => simp [play]
  | cons round rest inductionHypothesis =>
    rw [List.cons_append, play_cons_eq_ok_iff]
    constructor
    · rintro ⟨next, ran, played⟩
      obtain ⟨middle, before, after⟩ := inductionHypothesis.mp played
      exact ⟨middle, play_cons_eq_ok_iff.mpr ⟨next, ran, before⟩, after⟩
    · rintro ⟨middle, before, after⟩
      obtain ⟨next, ran, rest⟩ := play_cons_eq_ok_iff.mp before
      exact ⟨next, ran, inductionHypothesis.mpr ⟨middle, rest, after⟩⟩

/-- To the machine, rounds are cycles with their inputs. -/
theorem cycles_of_play {session last : Session} {rounds : List Round}
    (played : session.play rounds = .ok last) :
    session.machine.cycles (Round.inputs session.keys rounds) = .ok last.machine := by
  induction rounds generalizing session with
  | nil =>
    cases played
    rfl
  | cons round later inductionHypothesis =>
    obtain ⟨next, ⟨cycled, -, keypad⟩, rest⟩ := play_cons_eq_ok_iff.mp played
    refine bind_eq_ok_iff.mpr ⟨next.machine, cycled, ?_⟩
    rw [← keypad]
    exact inductionHypothesis rest

/-- Rounds succeed as soon as the cycles with their inputs do. -/
theorem play_of_cycles {session : Session} {machine : Machine} {rounds : List Round}
    (ran : session.machine.cycles (Round.inputs session.keys rounds) = .ok machine) :
    ∃ last, session.play rounds = .ok last ∧ last.machine = machine := by
  induction rounds generalizing session with
  | nil =>
    cases ran
    exact ⟨session, rfl, rfl⟩
  | cons round later inductionHypothesis =>
    obtain ⟨next, cycled, rest⟩ := bind_eq_ok_iff.mp ran
    let following : Session :=
      ⟨next, session.history.save session.machine, round.keys session.keys⟩
    obtain ⟨last, played, reached⟩ := @inductionHypothesis following rest
    have first := play_cons_eq_ok_iff.mpr ⟨following, ⟨cycled, rfl, rfl⟩, played⟩
    exact ⟨last, first, reached⟩

/-- The inputs of later rounds are those from the keypad that earlier rounds leave behind. -/
theorem drop_inputs_of_play {session middle : Session} {rounds : List Round} {count : Nat}
    (played : session.play (rounds.take count) = .ok middle) :
    (Round.inputs session.keys rounds).drop count =
      Round.inputs middle.keys (rounds.drop count) := by
  induction count generalizing session rounds with
  | zero =>
    cases played
    rfl
  | succ count inductionHypothesis =>
    cases rounds with
    | nil => rfl
    | cons round later =>
      rw [List.take_succ_cons] at played
      obtain ⟨next, ⟨-, -, keypad⟩, rest⟩ := play_cons_eq_ok_iff.mp played
      rw [Round.inputs, List.drop_succ_cons, List.drop_succ_cons, ← keypad]
      exact inductionHypothesis rest

/-! ## Going back -/

theorem depth_of_play {session last : Session} {rounds : List Round}
    (played : session.play rounds = .ok last) : last.history.depth = session.history.depth := by
  induction rounds generalizing session with
  | nil =>
    cases played
    rfl
  | cons round later inductionHypothesis =>
    obtain ⟨next, ⟨-, past, -⟩, rest⟩ := play_cons_eq_ok_iff.mp played
    rw [inductionHypothesis rest, past, History.depth_save]

/-- A saved state recedes by one place with each round, as far as the depth allows. -/
theorem getElem?_saved_of_play {session last : Session} {rounds : List Round} {state : Machine}
    {position : Nat} (played : session.play rounds = .ok last)
    (found : session.history.saved[position]? = some state)
    (room : position + rounds.length < session.history.depth) :
    last.history.saved[position + rounds.length]? = some state := by
  induction rounds generalizing session position with
  | nil =>
    cases played
    exact found
  | cons round later inductionHypothesis =>
    obtain ⟨next, ⟨-, past, -⟩, rest⟩ := play_cons_eq_ok_iff.mp played
    rw [List.length_cons] at room ⊢
    have near : position + 1 < session.history.depth := by omega
    have receded : next.history.saved[position + 1]? = some state := by
      rw [past]
      exact History.getElem?_succ_save found near
    have further : position + 1 + later.length < next.history.depth := by
      rw [past, History.depth_save]
      omega
    rw [show position + (later.length + 1) = position + 1 + later.length by omega]
    exact inductionHypothesis rest receded further

/-- The state before a round is as far back as there are rounds after it. -/
theorem getElem?_saved_of_play_cons {session last : Session} {round : Round} {later : List Round}
    (played : session.play (round :: later) = .ok last)
    (room : later.length < session.history.depth) :
    last.history.saved[later.length]? = some session.machine := by
  obtain ⟨next, ⟨-, past, -⟩, rest⟩ := play_cons_eq_ok_iff.mp played
  have newest : next.history.saved[0]? = some session.machine := by
    rw [past]
    exact History.getElem?_zero_save _ (Nat.zero_lt_of_lt room)
  have fits : 0 + later.length < next.history.depth := by
    rw [past, History.depth_save]
    omega
  have receded := getElem?_saved_of_play rest newest fits
  rwa [Nat.zero_add] at receded

/-- Going back to a saved state restores it, to be painted again, and forgets it and all that
came after. The keypad stays. -/
theorem rewind_of_getElem? {session : Session} {state : Machine} {position : Nat}
    (found : session.history.saved[position]? = some state) :
    session.rewind (position + 1) =
      (position + 1,
        { session with
          machine := { state with redraw := true }
          history :=
            { session.history with saved := session.history.saved.drop (position + 1) } }) := by
  induction position generalizing session with
  | zero =>
    cases saved : session.history.saved with
    | nil => simp [saved] at found
    | cons newest older =>
      rw [saved] at found
      cases found
      simp [rewind, reverse_of_cons saved]
  | succ position inductionHypothesis =>
    -- The flag that the first step back raises is lost again in the second one.
    cases saved : session.history.saved with
    | nil => simp [saved] at found
    | cons newest older =>
      rw [saved, List.getElem?_cons_succ] at found
      let earlier : Session :=
        { session with
          machine := { newest with redraw := true }
          history := { session.history with saved := older } }
      have further := @inductionHypothesis earlier found
      rw [rewind, reverse_of_cons saved]
      simp only [earlier] at further
      simp only [further, List.drop_succ_cons]

/-! ## Playing again -/

/-- After rounds that all succeeded, a host can go back over as many of them as the depth allows.
That restores the machine from before these rounds, to be painted again. Playing again under the
same inputs then succeeds, and reaches the machine after all rounds, to be painted again. -/
theorem rewind_replay (session last : Session) (rounds : List Round)
    (played : session.play rounds = .ok last) (count : Nat) (positive : 1 ≤ count)
    (within : count ≤ min rounds.length session.history.depth) :
    ∃ before rewound,
      session.play (rounds.take (rounds.length - count)) = .ok before ∧
        last.rewind count = (count, rewound) ∧
        rewound.machine = { before.machine with redraw := true } ∧
        ∀ again,
          Round.inputs rewound.keys again =
              (Round.inputs session.keys rounds).drop (rounds.length - count) →
            ∃ final, rewound.play again = .ok final ∧
              final.machine = { last.machine with redraw := true } := by
  obtain ⟨enough, deep⟩ := Nat.le_min.mp within
  have size : (rounds.drop (rounds.length - count)).length = count := by
    rw [List.length_drop]
    omega
  -- The cut before the last `count` rounds is where going back will end.
  rw [← List.take_append_drop (rounds.length - count) rounds] at played
  obtain ⟨before, early, late⟩ := play_append_eq_ok_iff.mp played
  rw [drop_inputs_of_play early]
  cases tail : rounds.drop (rounds.length - count) with
  | nil =>
    rw [tail] at size
    cases size
    contradiction
  | cons round later =>
    rw [tail] at size late
    subst size
    have room : later.length < before.history.depth := by
      rw [depth_of_play early]
      exact deep
    have found := getElem?_saved_of_play_cons late room
    refine ⟨before, _, early, rewind_of_getElem? found, rfl, fun again same => ?_⟩
    apply play_of_cycles
    rw [same]
    exact Machine.cycles_raised (cycles_of_play late)

/-- A program waits for a key, takes it once it is down, and then draws a random byte. With room for
two states, its last two rounds can be taken back and played again. -/
theorem rewind_replay_awaited_key :
    let session := (start 2).after (.load [0xF0, 0x0A, 0xC1, 0xFF])
    let rounds : List Round := [⟨[], 0⟩, ⟨[.press 5], 0⟩, ⟨[.release 5], 7⟩]
    let again : List Round :=
      [⟨[.replace (Keypad.released.press 5)], 0⟩, ⟨[.replace Keypad.released], 7⟩]
    ∃ last before rewound final, session.play rounds = .ok last ∧
      session.play (rounds.take 1) = .ok before ∧ last.rewind 2 = (2, rewound) ∧
      rewound.machine = { before.machine with redraw := true } ∧
      rewound.play again = .ok final ∧ final.machine = { last.machine with redraw := true } := by
  intro session rounds again
  have succeeds : (session.play rounds).toBool = true := by decide +kernel
  cases played : session.play rounds with
  | error fault =>
    rw [played] at succeeds
    cases succeeds
  | ok last =>
    obtain ⟨before, rewound, early, back, restored, replayed⟩ :=
      rewind_replay session last rounds played 2 (by decide) (by decide)
    have given : (Round.inputs session.keys rounds).drop 1 =
        [⟨Keypad.released.press 5, 0⟩, ⟨Keypad.released, 7⟩] := by decide
    have same : Round.inputs rewound.keys again = (Round.inputs session.keys rounds).drop 1 := by
      rw [given]
      rfl
    obtain ⟨final, ran, reached⟩ := replayed again same
    exact ⟨last, before, rewound, final, rfl, early, back, restored, ran, reached⟩

end Session

end Chip8
