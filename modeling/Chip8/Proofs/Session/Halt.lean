import Chip8.Machine.Report
import Chip8.Proofs.Machine.Failure
import Chip8.Proofs.Text.Hexadecimal

/-!
# Halted sessions

A cycle that fails has changed nothing, and what made it fail is still there
afterwards: neither the keypad nor the flags for the host have a part in it. So
a host that goes on without a load or a step back meets the same fault in every
cycle (`afterAll_of_cycle_fails`, `cycle_repolled_fails`).

`haltText` fetches the word anew to describe the place. `haltText_of_fetch_error`
and `haltText_of_fetch_ok` say what it writes, digit by digit, and
`place_of_fault?` that this is the place the fault speaks of.
-/

namespace Chip8

open Text

namespace Machine

/-- A fault of an instruction speaks of no word, and of no place but the counter. -/
theorem place_of_fault? {machine : Machine} {instruction : Instruction} {fault : Fault}
    (raised : machine.fault? instruction = some fault) :
    (∀ word, fault ≠ .unknownWord word) ∧
      ∀ pc, fault = .stackOverflow pc ∨ fault = .stackUnderflow pc → pc = machine.pc := by
  cases instruction with
  | ret =>
    rw [fault?, returnFault?] at raised
    split at raised
    · cases raised
      simp [eq_comm]
    · split at raised
      · split at raised <;> cases raised
        simp
      · cases raised
        simp
  | call target =>
    rw [fault?] at raised
    split at raised <;> cases raised
    simp [eq_comm]
  | skipIfKey x | skipUnlessKey x =>
    obtain ⟨-, rfl⟩ := Keypad.beyond?_eq_some_iff.mp raised
    simp
  | draw x y height =>
    obtain ⟨-, rfl⟩ := Memory.excess?_eq_some_iff.mp raised
    simp
  | decimal x | store x | restore x =>
    obtain ⟨-, rfl⟩ := Memory.excess?_eq_some_iff.mp raised
    simp
  -- No other instruction has a fault.
  | _ => cases raised

/-- A cycle whose fetch succeeds fails at the word that it has fetched. -/
theorem place_of_cycleFault? {machine : Machine} {fault : Fault} (onWord : machine.OnWord)
    (raised : machine.cycleFault? = some fault) :
    (∀ word, fault = .unknownWord word → word = machine.pending) ∧
      ∀ pc, fault = .stackOverflow pc ∨ fault = .stackUnderflow pc → pc = machine.pc := by
  rw [cycleFault?, if_pos onWord] at raised
  split at raised
  · obtain ⟨known, place⟩ := place_of_fault? raised
    exact ⟨fun word unknown => absurd unknown (known word), place⟩
  · cases raised
    simp [eq_comm]

theorem haltText_of_fetch_error {machine : Machine} {fault : Fault}
    (failed : machine.fetch = .error fault) :
    machine.haltText = "halted at pc " ++ Hexadecimal.fourDigits machine.pc := by
  simp only [haltText, failed, Hexadecimal.wordText_eq_fourDigits]

theorem haltText_of_fetch_ok {machine : Machine} {word : Word}
    (fetched : machine.fetch = .ok word) :
    machine.haltText =
      "halted at pc " ++ Hexadecimal.fourDigits machine.pc ++ " on opcode "
        ++ Hexadecimal.fourDigits word := by
  simp only [haltText, fetched, Hexadecimal.wordText_eq_fourDigits]

/-- A text that goes on is not the text alone. -/
theorem append_append_ne (place more word : String) (positive : 0 < more.length) :
    place ++ more ++ word ≠ place := by
  intro equal
  have lengths := congrArg String.length equal
  rw [String.length_append, String.length_append] at lengths
  omega

end Machine

namespace Session

/-- Neither the keypad nor the flags for the host have a part in the fault of a cycle. -/
theorem cycle_repolled_fails {session : Session} {random : UInt8} {fault : Fault}
    (failed : (session.cycle random).1 = .error fault) (redraw tone : Bool) (keys : Keypad)
    (again : UInt8) : ((session.repolled redraw tone keys).cycle again).1 = .error fault := by
  rw [cycle_fails_iff] at failed ⊢
  rw [← failed]
  exact Machine.cycleFault?_congr rfl rfl rfl rfl rfl rfl

/-- Calls that continue a halted run change at most the keypad and the flags for the host. -/
theorem afterAll_of_cycle_fails {session : Session} {random : UInt8} {fault : Fault}
    (failed : (session.cycle random).1 = .error fault) {calls : List Call}
    (continues : ∀ call ∈ calls, call.continues = true) :
    ∃ redraw tone keys, session.afterAll calls = session.repolled redraw tone keys := by
  induction calls generalizing session with
  | nil => exact ⟨_, _, _, rfl⟩
  | cons call later inductionHypothesis =>
    have rest := fun next member => continues next (List.mem_cons_of_mem call member)
    rcases session.after_of_continues (continues call List.mem_cons_self) with
      ⟨again, next, -, ran, -⟩ | ⟨redraw, tone, keys, polled⟩
    · have fails : (session.cycle again).1 = .error fault :=
        cycle_repolled_fails failed session.machine.redraw session.machine.tone session.keys again
      rw [ran] at fails
      cases fails
    · obtain ⟨redraw, tone, keys, reached⟩ :=
        inductionHypothesis (cycle_repolled_fails failed redraw tone keys random) rest
      refine ⟨redraw, tone, keys, ?_⟩
      rw [afterAll, List.foldl_cons, polled]
      exact reached

/-- A cycle that fails leaves the session as it is. Calls that neither load nor go back then change
at most the keypad and the flags for the host, and every further cycle fails in the same way.

The text for the host gives the place alone exactly if the fetch has failed. Otherwise it adds the
word at the counter, which is the word of the fault if that names one; and the place is the one of
the fault if that names one. Both are written with the digits of their four nibbles. -/
theorem halted_of_cycle_eq_error (session : Session) (random : UInt8) (fault : Fault)
    (failed : (session.cycle random).1 = .error fault) :
    (session.cycle random).2 = session ∧
    (∀ calls : List Call, (∀ call ∈ calls, call.continues = true) →
      (∃ redraw tone keys, session.afterAll calls =
        ⟨{ session.machine with redraw, tone }, session.history, keys⟩) ∧
      ∀ again, ((session.afterAll calls).cycle again).1 = .error fault) ∧
    (session.machine.haltText = "halted at pc " ++ Hexadecimal.fourDigits session.machine.pc ↔
      session.machine.fetch = .error fault) ∧
    (session.machine.fetch ≠ .error fault →
      ∃ word, session.machine.PointsAt word ∧
        session.machine.haltText =
          "halted at pc " ++ Hexadecimal.fourDigits session.machine.pc ++ " on opcode "
            ++ Hexadecimal.fourDigits word ∧
        (∀ pc, fault = .stackOverflow pc ∨ fault = .stackUnderflow pc →
          pc = session.machine.pc) ∧
        ∀ unknown, fault = .unknownWord unknown → unknown = word) := by
  refine ⟨?_, fun calls continues => ?_, ?_⟩
  · rw [cycle_of_fails failed]
  · obtain ⟨redraw, tone, keys, reached⟩ := afterAll_of_cycle_fails failed continues
    refine ⟨⟨redraw, tone, keys, reached⟩, fun again => ?_⟩
    rw [reached]
    exact cycle_repolled_fails failed redraw tone keys again
  · rw [cycle_fails_iff] at failed
    by_cases onWord : session.machine.OnWord
    · have fetched := Machine.fetch_of_onWord onWord
      have text := Machine.haltText_of_fetch_ok fetched
      obtain ⟨word, place⟩ := Machine.place_of_cycleFault? onWord failed
      have longer := Machine.append_append_ne
        ("halted at pc " ++ Hexadecimal.fourDigits session.machine.pc) " on opcode "
        (Hexadecimal.fourDigits session.machine.pending) (by decide)
      have points : session.machine.PointsAt session.machine.pending :=
        Machine.pointsAt_iff.mpr ⟨onWord, rfl⟩
      refine ⟨?_, fun _ => ⟨_, points, text, place, word⟩⟩
      simp [fetched, text, longer]
    · have missed : session.machine.fetch = .error fault := by
        rw [Machine.fetch_eq, if_neg onWord]
        rw [Machine.cycleFault?, if_neg onWord] at failed
        cases failed
        rfl
      simp [missed, Machine.haltText_of_fetch_error missed]

/-- A program that begins with a return halts there, also with a key down and the frame taken. -/
theorem halted_of_cycle_eq_error_return :
    let session := (start 4).after (.load [0x00, 0xEE])
    let calls : List Call := [.keys (.press 5), .takeFrame, .cycle 9, .takeTone]
    session.cycle 3 = (.error (.stackUnderflow 0x200), session) ∧
      ((session.afterAll calls).cycle 7).1 = .error (.stackUnderflow 0x200) ∧
      session.machine.haltText = "halted at pc 0200 on opcode 00EE" := by
  intro session calls
  have failed : (session.cycle 3).1 = .error (.stackUnderflow 0x200) := by
    rw [cycle_fails_iff]
    decide +kernel
  have fetches : session.machine.fetch ≠ .error (.stackUnderflow 0x200) := by
    rw [Machine.fetch_eq, Ne, outcome_eq_error_iff]
    decide +kernel
  obtain ⟨atomic, stays, -, text⟩ := halted_of_cycle_eq_error session 3 _ failed
  obtain ⟨-, again⟩ := stays calls (by decide)
  obtain ⟨word, points, written, place, -⟩ := text fetches
  have counter : 0x200 = session.machine.pc := place 0x200 (.inr rfl)
  have named : session.machine.pending = 0x00EE := by decide +kernel
  rw [← counter, ← (Machine.pointsAt_iff.mp points).2, named] at written
  exact ⟨Prod.ext failed atomic, again 7, written.trans (by decide)⟩

end Session

end Chip8
