import Chip8.Proofs.Machine.Failure
import Chip8.Proofs.Machine.Footprint

/-!
# The tone of a host

The tone is a flag that a cycle raises when the sound timer runs out, and that stays
up until the host takes it or loads a program. Going back restores the flag of a
saved state along with everything else. A host that runs cycles without asking may
therefore hear one tone for several run-outs, or one that it has heard before.

A host that `Listens` takes the tone between any two moves of the machine, as one that
goes on in turns does (`listens_turns`). `Attended` is the invariant of such a host: no
saved state has its tone raised, and while the tone is raised the machine does not move.
From it follows what each call does to the tone (`Attended.tone_after`), when the tone
is up after a run of calls (`Attended.tone_afterAll_iff`), and how often it sounds
(`Attended.countP_sounds`).
-/

namespace Chip8

/-- Whether a call takes the machine one cycle on, or one back. -/
def Call.moves : Call → Bool
  | .cycle _ | .reverse => true
  | .load _ | .loadFrom _ | .keys _ | .takeFrame | .takeTone => false

/-- Whether a call lowers the tone: it takes the tone, or it loads a program. -/
def Call.silences : Call → Bool
  | .takeTone | .load _ | .loadFrom _ => true
  | .cycle _ | .reverse | .keys _ | .takeFrame => false

/-- Whether an answer tells that a tone is to sound. -/
def Reply.sounds : Reply → Bool
  | .tone sounds => sounds
  | _ => false

/-! ## The discipline of the host -/

/-- The tone is taken before the machine moves. -/
def ListensFirst (calls : List Call) : Prop :=
  ∀ between next later, calls = between ++ next :: later → next.moves = true →
    .takeTone ∈ between

/-- Between any two moves of the machine the tone is taken. -/
def Listens (calls : List Call) : Prop :=
  ∀ earlier move later, calls = earlier ++ move :: later → move.moves = true → ListensFirst later

/-- Whether the tone is taken before a program is loaded. -/
def heard : List Call → Bool
  | [] => false
  | call :: later => call == .takeTone || !call.silences && heard later

theorem listensFirst_cons_iff {call : Call} {later : List Call} :
    ListensFirst (call :: later) ↔
      call.moves = false ∧ (call = .takeTone ∨ ListensFirst later) := by
  constructor
  · intro listens
    constructor
    · rw [Bool.eq_false_iff]
      intro moves
      cases listens [] call later rfl moves
    · by_cases taken : call = .takeTone
      · exact .inl taken
      · refine .inr ?_
        rintro between next rest rfl moves
        have member := listens (call :: between) next rest rfl moves
        exact (List.mem_cons.mp member).resolve_left (Ne.symm taken)
  · rintro ⟨still, taken⟩ between next rest split moves
    cases between with
    | nil =>
      cases split
      rw [still] at moves
      cases moves
    | cons call between =>
      cases split
      rcases taken with rfl | listens
      · exact List.mem_cons_self
      · exact List.mem_cons_of_mem call (listens between next rest rfl moves)

theorem listens_cons_iff {call : Call} {later : List Call} :
    Listens (call :: later) ↔ (call.moves = true → ListensFirst later) ∧ Listens later := by
  constructor
  · intro listens
    constructor
    · exact listens [] call later rfl
    · rintro earlier move rest rfl moves
      exact listens (call :: earlier) move rest rfl moves
  · rintro ⟨first, listens⟩ earlier move rest split moves
    cases earlier with
    | nil =>
      cases split
      exact first moves
    | cons call earlier =>
      cases split
      exact listens earlier move rest rfl moves

/-- One turn of a host: it takes the frame and the tone, passes on what has happened to the keys,
and moves the machine. -/
def Call.turn (changes : List Keypad.Change) (move : Call) : List Call :=
  [.takeFrame, .takeTone] ++ changes.map .keys ++ [move]

/-- A host that goes on in turns listens. -/
theorem listens_turns (turns : List (List Keypad.Change × Call)) :
    Listens (turns.flatMap fun turn => Call.turn turn.1 turn.2) := by
  induction turns with
  | nil =>
    intro earlier move later split
    simp at split
  | cons turn later inductionHypothesis =>
    obtain ⟨changes, move⟩ := turn
    have first : ListensFirst (later.flatMap fun turn => Call.turn turn.1 turn.2) := by
      cases later with
      | nil =>
        intro between next rest split
        simp at split
      | cons turn later =>
        refine listensFirst_cons_iff.mpr ⟨rfl, .inr ?_⟩
        exact listensFirst_cons_iff.mpr ⟨rfl, .inl rfl⟩
    simp only [List.flatMap_cons, Call.turn, List.append_assoc, List.cons_append, List.nil_append]
    refine listens_cons_iff.mpr ⟨nofun, listens_cons_iff.mpr ⟨nofun, ?_⟩⟩
    induction changes with
    | nil => exact listens_cons_iff.mpr ⟨fun _ => first, inductionHypothesis⟩
    | cons change changes listens => exact listens_cons_iff.mpr ⟨nofun, listens⟩

/-! ## Running out -/

namespace Machine

/-- Whether the next cycle runs the sound timer out: its instruction succeeds and leaves the
timer at one. -/
def runsOut (machine : Machine) (input : Input) : Bool :=
  match machine.fetch with
  | .ok word =>
    match machine.executeWord input word with
    | .ok executed => executed.sound == 1
    | .error _ => false
  | .error _ => false

theorem runsOut_eq_true_iff {machine : Machine} {input : Input} :
    machine.runsOut input = true ↔
      ∃ word executed, machine.fetch = .ok word ∧
        machine.executeWord input word = .ok executed ∧ executed.sound = 1 := by
  unfold runsOut
  split
  · next word fetched =>
    split
    · next executed ran => simp [fetched, ran]
    · next fault failed => simp [fetched, failed]
  · next fault failed => simp [failed]

/-- A cycle raises the tone exactly if it runs the sound timer out. -/
theorem tone_of_cycle {machine next : Machine} {input : Input}
    (ran : machine.cycle input = .ok next) :
    next.tone = (machine.tone || machine.runsOut input) := by
  obtain ⟨word, fetched, rest⟩ := bind_eq_ok_iff.mp ran
  obtain ⟨executed, effective, ticked⟩ := bind_eq_ok_iff.mp rest
  rw [tick_eq] at ticked
  cases ticked
  simp only [conclude, runsOut, fetched, effective, (footprint_of_executeWord effective).tone]

theorem runsOut_of_cycle_error {machine : Machine} {input : Input} {fault : Fault}
    (failed : machine.cycle input = .error fault) : machine.runsOut input = false := by
  rw [Bool.eq_false_iff, Ne, runsOut_eq_true_iff]
  rintro ⟨word, executed, fetched, effective, -⟩
  simp [cycle, fetched, effective, tick_eq] at failed

/-- Setting the sound timer to one runs it out in the same cycle. -/
theorem runsOut_of_setSound {machine : Machine} (input : Input) {word : Word}
    (points : machine.PointsAt word) (family : word.family = 0xF) (byte : word.byte = 0x18)
    (one : machine.v.read word.x = 1) : machine.runsOut input = true := by
  obtain ⟨onWord, rfl⟩ := pointsAt_iff.mp points
  have encodes : machine.pending.Encodes (.setSound machine.pending.x) := ⟨family, byte, rfl⟩
  have executed := executeWord_of_encodes machine input encodes
  rw [execute_of_onWord onWord] at executed
  exact runsOut_eq_true_iff.mpr ⟨machine.pending, _, fetch_of_onWord onWord, executed, one⟩

end Machine

namespace Session

/-- Whether a call is a cycle that runs the sound timer out. -/
def runsOut (session : Session) : Call → Bool
  | .cycle random => session.machine.runsOut ⟨session.keys, random⟩
  | _ => false

/-- A cycle among the calls has run the sound timer out, and since then the tone has not been taken
and no program has been loaded. -/
def Due (session : Session) (calls : List Call) : Prop :=
  ∃ earlier call later, calls = earlier ++ call :: later ∧
    (session.afterAll earlier).runsOut call = true ∧ ∀ other ∈ later, other.silences = false

/-- The number of cycles that run the sound timer out, of those that are heard. -/
def runOuts (session : Session) : List Call → Nat
  | [] => 0
  | call :: later =>
    (session.runsOut call && heard later).toNat + (session.after call).runOuts later

/-- What keeps the tone in step with the timer. No saved state has its tone raised, and while the
tone is raised the machine does not move. -/
structure Attended (session : Session) (calls : List Call) : Prop where
  saved : ∀ state ∈ session.history.saved, state.tone = false
  listens : Listens calls
  listensFirst : session.machine.tone = true → ListensFirst calls

theorem attended_start (depth : Nat) {calls : List Call} (listens : Listens calls) :
    (start depth).Attended calls where
  saved := by simp [start, History.empty]
  listens := listens
  listensFirst := nofun

variable {session : Session} {call : Call} {calls later : List Call}

/-- The machine moves with its tone lowered. -/
theorem Attended.tone_eq_false (attended : session.Attended (call :: later))
    (moves : call.moves = true) : session.machine.tone = false := by
  rw [Bool.eq_false_iff]
  intro raised
  have still := (listensFirst_cons_iff.mp (attended.listensFirst raised)).1
  rw [moves] at still
  cases still

/-- A call raises the tone exactly if it runs the sound timer out. -/
theorem Attended.tone_after (attended : session.Attended (call :: later)) :
    (session.after call).machine.tone =
      (session.machine.tone && !call.silences || session.runsOut call) := by
  have reloaded := session.after_of_loads call
  cases call with
  | load rom | loadFrom source =>
    obtain ⟨memory, loaded⟩ := reloaded rfl
    simp [loaded, Machine.fresh, Machine.blank, Call.silences, runsOut]
  | cycle random =>
    rcases session.cycle_runs_or_fails random with ⟨next, ran⟩ | ⟨fault, failed⟩
    · rw [after_cycle_of_ok ran, Machine.tone_of_cycle (cycle_eq_ok_iff.mp ran).1]
      simp [Call.silences, runsOut]
    · rw [after_cycle_of_fails failed]
      simp [Call.silences, runsOut,
        Machine.runsOut_of_cycle_error (machine_cycle_of_fails failed)]
  | reverse =>
    have lowered := attended.tone_eq_false rfl
    cases saved : session.history.saved with
    | nil =>
      rw [after_reverse_of_nil saved]
      simp [lowered, runsOut]
    | cons state older =>
      have past : state.tone = false := attended.saved state (by simp [saved])
      rw [after_reverse_of_cons saved]
      simp [lowered, past, runsOut]
  | keys change => simp [after_keys, Call.silences, runsOut]
  | takeFrame => simp [after_takeFrame, Call.silences, runsOut]
  | takeTone => simp [after_takeTone, Call.silences, runsOut]

theorem moves_of_runsOut (out : session.runsOut call = true) : call.moves = true := by
  cases call with
  | cycle random => rfl
  | _ => cases out

theorem Attended.after (attended : session.Attended (call :: later)) :
    (session.after call).Attended later where
  saved := by
    intro state member
    rcases mem_saved_after member with ⟨⟨random, rfl⟩, rfl⟩ | kept
    · exact attended.tone_eq_false rfl
    · exact attended.saved state kept
  listens := (listens_cons_iff.mp attended.listens).2
  listensFirst := by
    rw [attended.tone_after, Bool.or_eq_true, Bool.and_eq_true]
    rintro (⟨raised, quiet⟩ | out)
    · refine (listensFirst_cons_iff.mp (attended.listensFirst raised)).2.resolve_left ?_
      rintro rfl
      cases quiet
    · exact (listens_cons_iff.mp attended.listens).1 (moves_of_runsOut out)

theorem Attended.afterAll (attended : session.Attended (calls ++ later)) :
    (session.afterAll calls).Attended later := by
  induction calls generalizing session with
  | nil => exact attended
  | cons call rest inductionHypothesis => exact inductionHypothesis attended.after

theorem due_cons_iff :
    session.Due (call :: later) ↔
      session.runsOut call = true ∧ (∀ other ∈ later, other.silences = false) ∨
        (session.after call).Due later := by
  constructor
  · rintro ⟨earlier, last, rest, split, out, quiet⟩
    cases earlier with
    | nil =>
      cases split
      exact .inl ⟨out, quiet⟩
    | cons first earlier =>
      cases split
      exact .inr ⟨earlier, last, rest, rfl, out, quiet⟩
  · rintro (⟨out, quiet⟩ | ⟨earlier, last, rest, rfl, out, quiet⟩)
    · exact ⟨[], call, later, rfl, out, quiet⟩
    · exact ⟨call :: earlier, last, rest, rfl, out, quiet⟩

/-- After some calls the tone is raised if it was raised and no call has lowered it, or if it is
due. -/
theorem Attended.tone_afterAll_iff (attended : session.Attended (calls ++ later)) :
    (session.afterAll calls).machine.tone = true ↔
      session.machine.tone = true ∧ (∀ call ∈ calls, call.silences = false) ∨
        session.Due calls := by
  induction calls generalizing session with
  | nil => simp [Session.afterAll, Due]
  | cons call rest inductionHypothesis =>
    rw [due_cons_iff]
    refine (inductionHypothesis attended.after).trans ?_
    rw [attended.tone_after, Bool.or_eq_true, Bool.and_eq_true, Bool.not_eq_true',
      List.forall_mem_cons, or_and_right, and_assoc, or_assoc]

/-- Only a host that asks for the tone is told that it sounds. -/
theorem sounds_reply (session : Session) (call : Call) :
    (session.reply call).sounds = (session.machine.tone && call == .takeTone) := by
  cases call with
  | cycle random =>
    rcases session.cycle_runs_or_fails random with ⟨next, ran⟩ | ⟨fault, failed⟩
    · rw [reply_cycle_of_ok ran]
      exact (Bool.and_false _).symm
    · rw [reply_cycle_of_fails failed]
      exact (Bool.and_false _).symm
  | takeTone => exact (Bool.and_true _).symm
  | load rom | loadFrom source | reverse | keys change | takeFrame => exact (Bool.and_false _).symm

/-- The tone sounds once for each run-out that is heard. -/
theorem Attended.countP_sounds (attended : session.Attended calls) :
    (session.replies calls).countP Reply.sounds =
      (session.machine.tone && heard calls).toNat + session.runOuts calls := by
  induction calls generalizing session with
  | nil => simp [replies, heard, runOuts]
  | cons call later inductionHypothesis =>
    rw [replies, List.countP_cons, inductionHypothesis attended.after, runOuts, heard,
      sounds_reply, attended.tone_after]
    cases out : session.runsOut call with
    | true =>
      have lowered := attended.tone_eq_false (moves_of_runsOut out)
      simp [lowered]
    | false =>
      by_cases taken : call = .takeTone
      · subst taken
        cases session.machine.tone <;> simp [Call.silences, Nat.add_comm]
      · have other : (call == .takeTone) = false := beq_false_of_ne taken
        simp [other, Bool.and_assoc]

theorem reply_takeTone_iff :
    session.reply .takeTone = .tone true ↔ session.machine.tone = true := by
  rw [reply, Session.call, takeTone, Reply.tone.injEq]

/-- Whoever takes the tone between any two moves of the machine is told of every run-out once, and
of nothing else. The tone sounds if and only if a cycle has run the sound timer out since it was
last taken, and no program has been loaded after that. Right after a move it sounds if and only if
that move is such a cycle, so neither a cycle that fails nor going back is heard. Of the run-outs
whose tone is taken before a program is loaded each sounds once, and setting the timer to one is a
run-out at once. -/
theorem afterAll_start_tone (depth : Nat) (calls : List Call) (listens : Listens calls) :
    (∀ earlier later, calls = earlier ++ .takeTone :: later →
      (((start depth).afterAll earlier).reply .takeTone = .tone true ↔
        (start depth).Due earlier)) ∧
    (∀ earlier move later, calls = earlier ++ move :: later → move.moves = true →
      (((start depth).afterAll (earlier ++ [move])).reply .takeTone = .tone true ↔
        ((start depth).afterAll earlier).runsOut move = true)) ∧
    ((start depth).replies calls).countP Reply.sounds = (start depth).runOuts calls ∧
    ∀ (session : Session) (random : UInt8) (word : Word),
      session.machine.PointsAt word → word.family = 0xF → word.byte = 0x18 →
        session.machine.v.read word.x = 1 → session.runsOut (.cycle random) = true := by
  refine ⟨?_, ?_, ?_, ?_⟩
  · rintro earlier later rfl
    rw [reply_takeTone_iff, (attended_start depth listens).tone_afterAll_iff]
    simp [start, Machine.fresh, Machine.blank]
  · rintro earlier move later rfl moves
    have attended := (attended_start depth listens).afterAll
    rw [reply_takeTone_iff, afterAll_append]
    refine (congrArg (· = true) attended.tone_after).to_iff.trans ?_
    rw [attended.tone_eq_false moves, Bool.false_and, Bool.false_or]
  · rw [(attended_start depth listens).countP_sounds]
    simp [start, Machine.fresh, Machine.blank]
  · intro session random word points family byte one
    exact Machine.runsOut_of_setSound ⟨session.keys, random⟩ points family byte one

/-- A program sets the sound timer to one, and the host goes back to before that and on again. The
tone is due after the cycle that sets the timer, and not once the host has gone back. It sounds
twice, for the cycle is run twice. -/
theorem afterAll_start_tone_again :
    let moves : List Call := [.cycle 0, .cycle 0, .reverse, .cycle 0, .reverse]
    let calls := Call.load [0x60, 0x01, 0xF0, 0x18] :: moves.flatMap (Call.turn [])
    Listens calls ∧ (start 4).Due (calls.take 8) ∧ ¬ (start 4).Due (calls.take 11) ∧
      ((start 4).afterAll (calls.take 12)).runsOut (.cycle 0) = true ∧
        ((start 4).replies calls).countP Reply.sounds = 2 := by
  intro moves calls
  have listens : Listens calls :=
    listens_cons_iff.mpr ⟨nofun, listens_turns (moves.map fun move => ([], move))⟩
  obtain ⟨raised, lowered, points, one, twice⟩ :
      ((start 4).afterAll (calls.take 8)).machine.tone = true ∧
        ((start 4).afterAll (calls.take 11)).machine.tone = false ∧
        (((start 4).afterAll (calls.take 12)).machine.OnWord ∧
          ((start 4).afterAll (calls.take 12)).machine.pending = 0xF018) ∧
        ((start 4).afterAll (calls.take 12)).machine.v.read (Word.x 0xF018) = 1 ∧
        (start 4).runOuts calls = 2 := by
    decide +kernel
  obtain ⟨reports, -, once, immediate⟩ := afterAll_start_tone 4 calls listens
  refine ⟨listens, ?_, ?_, ?_, once.trans twice⟩
  · exact (reports (calls.take 8) (calls.drop 9) rfl).mp (reply_takeTone_iff.mpr raised)
  · intro due
    have sounds := (reports (calls.take 11) (calls.drop 12) rfl).mpr due
    rw [reply_takeTone_iff, lowered] at sounds
    cases sounds
  · exact immediate _ 0 0xF018 (Machine.pointsAt_iff.mpr points) (by decide) (by decide) one

end Session

end Chip8
