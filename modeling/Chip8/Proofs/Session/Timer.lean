import Chip8.Proofs.Machine.Counter
import Chip8.Proofs.Machine.Failure
import Chip8.Proofs.Machine.Timer

/-!
# Timers over runs

A run is what a host does without loading a program or going back. Of its calls only
the cycles that succeed count for the timers: a cycle that waits for a key counts like
any other, and a cycle that fails does not count.

`Session.executed` lists the machines in which the cycles of a run have succeeded.
`timers_afterAll` says that over every run both timers keep the law for that list, and
that a word that reads the delay timer finds the value of the law for the cycles
before it.
-/

namespace Chip8

namespace Session

/-- The machines in which cycles have succeeded, in order, each as it was before its cycle. -/
def executed (session : Session) : List Call → List Machine
  | [] => []
  | call :: later =>
    match session.reply call with
    | .ran => session.machine :: (session.after call).executed later
    | _ => (session.after call).executed later

variable {session next : Session} {call : Call} {calls later : List Call} {random : UInt8}
  {fault : Fault}

theorem executed_cons_of_ran (ran : session.reply call = .ran) :
    session.executed (call :: later) = session.machine :: (session.after call).executed later := by
  rw [executed, ran]

theorem executed_cons_of_ne_ran (idle : session.reply call ≠ .ran) :
    session.executed (call :: later) = (session.after call).executed later := by
  rw [executed]
  split
  · next ran => exact absurd ran idle
  · rfl

theorem executed_append :
    session.executed (calls ++ later) =
      session.executed calls ++ (session.afterAll calls).executed later := by
  induction calls generalizing session with
  | nil => rfl
  | cons call rest inductionHypothesis =>
    rw [List.cons_append]
    by_cases ran : session.reply call = .ran
    · rw [executed_cons_of_ran ran, executed_cons_of_ran ran, inductionHypothesis]
      rfl
    · rw [executed_cons_of_ne_ran ran, executed_cons_of_ne_ran ran, inductionHypothesis]
      rfl

/-- A call of a run is a cycle that succeeds, or it does not touch the timers. -/
theorem ran_or_idle_of_continues (continues : call.continues = true) :
    (session.reply call = .ran ∧
      ∃ input, session.machine.cycle input = .ok (session.after call).machine) ∨
    (session.reply call ≠ .ran ∧
      ∀ timer, (session.after call).machine.timer timer = session.machine.timer timer) := by
  cases call with
  | load rom | loadFrom source | reverse => cases continues
  | cycle random =>
    rcases session.cycle_runs_or_fails random with ⟨next, ran⟩ | ⟨fault, failed⟩
    · refine .inl ⟨reply_cycle_of_ok ran, ⟨session.keys, random⟩, ?_⟩
      rw [after_cycle_of_ok ran]
      exact (cycle_eq_ok_iff.mp ran).1
    · refine .inr ⟨?_, fun timer => by rw [after_cycle_of_fails failed]⟩
      rw [reply_cycle_of_fails failed]
      exact Reply.noConfusion
  | keys change => exact .inr ⟨Reply.noConfusion, fun timer => by rw [after_keys]⟩
  | takeFrame =>
    refine .inr ⟨?_, fun timer => by rw [after_takeFrame]; cases timer <;> rfl⟩
    exact Reply.noConfusion
  | takeTone => exact .inr ⟨Reply.noConfusion, fun timer => by cases timer <;> rfl⟩

/-- Over every run a timer keeps the law for the cycles that have succeeded. -/
theorem timerLaw_afterAll (continues : ∀ call ∈ calls, call.continues = true) (timer : Timer) :
    TimerLaw timer (session.machine.timer timer) (session.executed calls)
      ((session.afterAll calls).machine.timer timer) := by
  induction calls generalizing session with
  | nil => exact .nil timer _
  | cons call later inductionHypothesis =>
    have rest : TimerLaw timer ((session.after call).machine.timer timer)
        ((session.after call).executed later)
        (((session.after call).afterAll later).machine.timer timer) :=
      inductionHypothesis fun next member => continues next (List.mem_cons_of_mem call member)
    rcases session.ran_or_idle_of_continues (continues call List.mem_cons_self) with
      ⟨ran, input, cycled⟩ | ⟨idle, same⟩
    · rw [executed_cons_of_ran ran]
      exact rest.cons (Machine.timer_of_cycle cycled timer)
    · rw [executed_cons_of_ne_ran idle, ← same timer]
      exact rest

/-- A cycle that waits for a key succeeds. -/
theorem exists_cycle_of_waits {word : Word} (points : session.machine.PointsAt word)
    (waits : word.Waits session.keys) (random : UInt8) :
    ∃ next, session.cycle random = (.ok (), next) := by
  have harmless : session.machine.cycleFault? = none :=
    Machine.cycleFault?_of_encodes (.awaitKey word.x) points ⟨waits.1, waits.2.1, rfl⟩
  exact ⟨_, cycle_of_harmless harmless random⟩

/-- Over every run without a load or a step back a timer ends one lower for each cycle that has
succeeded, or for each since it was last set if one of them has set it, that one included. Neither
timer goes below zero. A word that reads the delay timer finds the value that this law gives for
the cycles before it. Cycles that wait for a key succeed and count, and cycles that fail do not. -/
theorem timers_afterAll (session : Session) (calls : List Call)
    (continues : ∀ call ∈ calls, call.continues = true) :
    let reached := session.afterAll calls
    (∀ timer, TimerLaw timer (session.machine.timer timer) (session.executed calls)
      (reached.machine.timer timer)) ∧
    (∀ random next, reached.cycle random = (.ok (), next) → reached.machine.pending.ReadsDelay →
      TimerLaw .delay session.machine.delay (session.executed calls)
        (next.machine.v.read reached.machine.pending.x)) ∧
    (∀ word random, reached.machine.PointsAt word → word.Waits reached.keys →
      ∃ next, reached.cycle random = (.ok (), next)) ∧
    (∀ random next, reached.cycle random = (.ok (), next) →
      session.executed (calls ++ [.cycle random]) =
        session.executed calls ++ [reached.machine]) ∧
    ∀ random fault, (reached.cycle random).1 = .error fault →
      session.executed (calls ++ [.cycle random]) = session.executed calls := by
  intro reached
  have law (timer : Timer) : TimerLaw timer (session.machine.timer timer)
      (session.executed calls) (reached.machine.timer timer) :=
    timerLaw_afterAll continues timer
  refine ⟨law, ?_, ?_, ?_, ?_⟩
  · intro random next ran reads
    rw [Machine.read_of_readsDelay (cycle_eq_ok_iff.mp ran).1 reads]
    exact law .delay
  · intro word random points waits
    exact exists_cycle_of_waits points waits random
  · intro random next ran
    rw [executed_append, executed_cons_of_ran (reply_cycle_of_ok ran)]
    rfl
  · intro random fault failed
    have idle : reached.reply (.cycle random) ≠ .ran := by
      rw [reply_cycle_of_fails failed]
      exact Reply.noConfusion
    rw [executed_append, executed_cons_of_ne_ran idle]
    exact List.append_nil _

/-- A program sets the delay timer to five, waits for a key over two cycles, and reads the timer.
It finds what is left after the cycle that has set it and the two that have waited. -/
theorem timers_afterAll_awaited_key :
    let session := (start 4).after
      (.load [0x60, 0x05, 0xF0, 0x15, 0xF1, 0x0A, 0xF2, 0x07])
    let calls : List Call :=
      [.cycle 0, .cycle 0, .takeFrame, .cycle 0, .keys (.press 3), .cycle 0]
    (∀ call ∈ calls, call.continues = true) ∧
      ((session.afterAll calls).machine.timer .delay).toNat = 5 - 1 - 2 ∧
      ∃ next, (session.afterAll calls).cycle 0 = (.ok (), next) ∧
        (next.machine.v.read 2).toNat = 5 - 1 - 2 := by
  intro session calls
  have continues : ∀ call ∈ calls, call.continues = true := by decide
  obtain ⟨words, value, succeeds, reads, register⟩ :
      (session.executed calls).map Machine.pending = [0x6005, 0xF015, 0xF10A, 0xF10A] ∧
        (session.executed calls)[1]?.map Machine.pendingValue = some 5 ∧
        (session.afterAll calls).machine.cycleFault? = none ∧
        (session.afterAll calls).machine.pending.ReadsDelay ∧
        (session.afterAll calls).machine.pending.x = 2 := by
    decide +kernel
  have ran := cycle_of_harmless succeeds 0
  obtain ⟨law, read, -⟩ := timers_afterAll session calls continues
  -- Whatever keeps the law for these cycles is two, for the second of them has set the timer.
  have two {after : UInt8}
      (kept : TimerLaw .delay session.machine.delay (session.executed calls) after) :
      after.toNat = 5 - 1 - 2 := by
    rcases executed : session.executed calls with
      _ | ⟨first, _ | ⟨setting, _ | ⟨waiting, _ | ⟨taking, _ | _⟩⟩⟩⟩
    all_goals simp only [executed, List.map_nil, List.map_cons, List.cons.injEq, reduceCtorEq,
      and_true, and_false] at words
    obtain ⟨-, sets, waits, takes⟩ := words
    rw [executed] at value
    have five : setting.pendingValue = 5 := Option.some_inj.mp value
    have quiet : ∀ other ∈ [waiting, taking], ¬ other.pending.Sets .delay := by
      simp only [List.forall_mem_cons, List.not_mem_nil, false_implies, implies_true, and_true,
        waits, takes]
      decide
    have reached := kept.set [first] setting [waiting, taking] executed (sets ▸ by decide) quiet
    rw [reached, five]
    rfl
  have found := two (read 0 _ ran reads)
  rw [register] at found
  exact ⟨continues, two (law .delay), _, ran, found⟩

end Session

end Chip8
