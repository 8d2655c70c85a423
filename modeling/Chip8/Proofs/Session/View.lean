import Chip8.Proofs.Machine.View
import Chip8.Proofs.Session.Call

/-!
# Polling goes unnoticed

A host may take the frame and the tone as often as it likes: no program can tell.
Two sessions are alike if their views are equal, that is if they have the same
keypad and depth and if their machines and saved states have the same views, pair
by pair.

`call_of_view_eq` says that sessions with the same view answer a call that does
not poll in the same way and keep the same view, and `view_after_of_polls` that a
call that polls leaves the view alone. `answers_eq_of_view_eq` draws the
conclusion for two runs that differ at most in their polling.
-/

namespace Chip8

/-- Whether a call takes what is there for the host to show. -/
def Call.polls : Call → Bool
  | .takeFrame | .takeTone => true
  | .load _ | .loadFrom _ | .cycle _ | .reverse | .keys _ => false

/-- A saved state takes its place in both histories, and the oldest one goes from both. -/
theorem History.map_view_save {left right : History} {present other : Machine}
    (depth : left.depth = right.depth)
    (past : left.saved.map Machine.view = right.saved.map Machine.view)
    (same : present.view = other.view) :
    (left.save present).saved.map Machine.view = (right.save other).saved.map Machine.view := by
  have count : left.saved.length = right.saved.length := by
    simpa using congrArg List.length past
  unfold save
  rw [depth, count]
  split
  · exact past
  · split
    · rw [List.map_cons, List.map_cons, List.map_dropLast, List.map_dropLast, same, past]
    · rw [List.map_cons, List.map_cons, same, past]

namespace Session

/-- All of a session that its program can come to see. -/
@[ext] structure View where
  machine : Machine.View
  saved : List Machine.View
  depth : Nat
  keys : Keypad
deriving DecidableEq

def view (session : Session) : View :=
  { machine := session.machine.view, saved := session.history.saved.map Machine.view,
    depth := session.history.depth, keys := session.keys }

/-- The answers to the calls that do not poll, in order. -/
def answers (session : Session) : List Call → List Reply
  | [] => []
  | call :: later =>
    if call.polls then
      (session.after call).answers later
    else
      session.reply call :: (session.after call).answers later

theorem view_after_of_polls (session : Session) {call : Call} (polls : call.polls = true) :
    (session.after call).view = session.view := by
  cases call with
  | takeFrame =>
    rw [after_takeFrame]
    rfl
  | takeTone =>
    rw [after_takeTone]
    rfl
  | load rom | loadFrom source | cycle random | reverse | keys change => cases polls

variable {left right : Session}

theorem view_eq_iff :
    left.view = right.view ↔
      left.machine.view = right.machine.view ∧
        left.history.saved.map Machine.view = right.history.saved.map Machine.view ∧
        left.history.depth = right.history.depth ∧ left.keys = right.keys :=
  View.ext_iff

/-- The same cycle fails in both sessions with the same fault, or succeeds in both. -/
theorem cycle_of_view_eq (same : left.view = right.view) (random : UInt8) :
    left.reply (.cycle random) = right.reply (.cycle random) ∧
      (left.after (.cycle random)).view = (right.after (.cycle random)).view := by
  obtain ⟨present, past, depth, keypad⟩ := view_eq_iff.mp same
  have faults := Machine.cycleFault?_of_view_eq present
  cases raised : left.machine.cycleFault? with
  | some fault =>
    have leftFails : (left.cycle random).1 = .error fault := cycle_fails_iff.mpr raised
    have rightFails : (right.cycle random).1 = .error fault :=
      cycle_fails_iff.mpr (faults ▸ raised)
    rw [reply_cycle_of_fails leftFails, reply_cycle_of_fails rightFails,
      after_cycle_of_fails leftFails, after_cycle_of_fails rightFails]
    exact ⟨rfl, same⟩
  | none =>
    have leftRuns := cycle_of_harmless raised random
    have rightRuns := cycle_of_harmless (faults ▸ raised) random
    rw [reply_cycle_of_ok leftRuns, reply_cycle_of_ok rightRuns, after_cycle_of_ok leftRuns,
      after_cycle_of_ok rightRuns]
    have next := Machine.view_cycleEffect present ⟨left.keys, random⟩ raised
    rw [keypad] at next
    refine ⟨rfl, view_eq_iff.mpr ⟨?_, ?_, ?_, keypad⟩⟩
    · rw [keypad]
      exact next
    · exact History.map_view_save depth past present
    · rw [History.depth_save, History.depth_save, depth]

/-- Both sessions can go back, or neither can. -/
theorem reverse_of_view_eq (same : left.view = right.view) :
    left.reply .reverse = right.reply .reverse ∧
      (left.after .reverse).view = (right.after .reverse).view := by
  obtain ⟨-, past, depth, keypad⟩ := view_eq_iff.mp same
  cases leftSaved : left.history.saved with
  | nil =>
    rw [leftSaved, List.map_nil, eq_comm, List.map_eq_nil_iff] at past
    rw [after_reverse_of_nil leftSaved, after_reverse_of_nil past]
    exact ⟨by simp only [reply, call, reverse_of_nil leftSaved, reverse_of_nil past], same⟩
  | cons state older =>
    rw [leftSaved, List.map_cons, eq_comm, List.map_eq_cons_iff] at past
    obtain ⟨other, otherOlder, rightSaved, newest, rest⟩ := past
    rw [after_reverse_of_cons leftSaved, after_reverse_of_cons rightSaved]
    exact ⟨by simp only [reply, call, reverse_of_cons leftSaved, reverse_of_cons rightSaved],
      view_eq_iff.mpr ⟨newest.symm, rest.symm, depth, keypad⟩⟩

/-- A call that does not poll is answered alike and leads from the same view to the same view. -/
theorem call_of_view_eq (same : left.view = right.view) {call : Call}
    (heard : call.polls = false) :
    left.reply call = right.reply call ∧ (left.after call).view = (right.after call).view := by
  obtain ⟨present, past, depth, keypad⟩ := view_eq_iff.mp same
  cases call with
  | load rom => exact ⟨rfl, view_eq_iff.mpr ⟨rfl, rfl, depth, keypad⟩⟩
  | loadFrom source => exact ⟨rfl, view_eq_iff.mpr ⟨rfl, rfl, depth, keypad⟩⟩
  | cycle random => exact cycle_of_view_eq same random
  | reverse => exact reverse_of_view_eq same
  | keys change =>
    rw [after_keys, after_keys]
    exact ⟨rfl, view_eq_iff.mpr
      ⟨present, past, depth, congrArg (Keypad.change · change) keypad⟩⟩
  | takeFrame | takeTone => cases heard

/-- A run and the same run without its polling have the same answers and end in the same view. -/
theorem answers_filter_of_view_eq (same : left.view = right.view) (calls : List Call) :
    left.answers calls = right.answers (calls.filter fun call => !call.polls) ∧
      (left.afterAll calls).view =
        (right.afterAll (calls.filter fun call => !call.polls)).view := by
  induction calls generalizing left right with
  | nil => exact ⟨rfl, same⟩
  | cons call later inductionHypothesis =>
    cases polls : call.polls with
    | true =>
      -- The call is gone on the right, where nothing happens for it.
      obtain ⟨answered, reached⟩ :=
        inductionHypothesis ((left.view_after_of_polls polls).trans same)
      rw [List.filter_cons_of_neg (by simp [polls]), answers, if_pos polls]
      exact ⟨answered, reached⟩
    | false =>
      obtain ⟨alike, view⟩ := call_of_view_eq same polls
      obtain ⟨answered, reached⟩ := inductionHypothesis view
      have unpolled : ¬ call.polls = true := by simp [polls]
      rw [List.filter_cons_of_pos (by simp [polls]), answers, answers, if_neg unpolled,
        if_neg unpolled, alike, answered]
      exact ⟨rfl, reached⟩

/-- Two sessions with the same view that get the same calls, apart from calls that poll, which
either of them may get anywhere, answer all others alike and end in the same view. This holds
whether or not the sessions are in bounds. -/
theorem answers_eq_of_view_eq (left right : Session) (same : left.view = right.view)
    (leftCalls rightCalls : List Call)
    (unpolled : leftCalls.filter (fun call => !call.polls) =
      rightCalls.filter (fun call => !call.polls)) :
    left.answers leftCalls = right.answers rightCalls ∧
      (left.afterAll leftCalls).view = (right.afterAll rightCalls).view := by
  obtain ⟨leftAnswers, leftView⟩ := answers_filter_of_view_eq same leftCalls
  obtain ⟨rightAnswers, rightView⟩ :=
    answers_filter_of_view_eq (rfl : right.view = right.view) rightCalls
  rw [leftAnswers, leftView, unpolled, rightAnswers, rightView]
  exact ⟨rfl, rfl⟩

/-- A program calls a routine that returns at once. In one of two sessions a flag for the host, the
record of the last word and a slot that no pending call occupies are not as in the other, and the
hosts poll at different times. -/
theorem answers_eq_of_view_eq_routine :
    let left := (start 2).after (.load [0x22, 0x04, 0x12, 0x02, 0x00, 0xEE])
    let right : Session :=
      { left with
        machine :=
          { left.machine with
            stack := left.machine.stack.setIfInBounds 3 0x456
            redraw := false
            tone := true
            word := 0x1234 } }
    let leftCalls : List Call := [.takeFrame, .cycle 1, .cycle 2, .takeTone, .reverse, .cycle 3]
    let rightCalls : List Call := [.cycle 1, .takeTone, .takeFrame, .cycle 2, .reverse, .cycle 3]
    left ≠ right ∧ left.view = right.view ∧
      left.answers leftCalls = right.answers rightCalls ∧
      (left.afterAll leftCalls).view = (right.afterAll rightCalls).view := by
  intro left right leftCalls rightCalls
  have differ : left ≠ right := by decide +kernel
  have shallow : left.machine.sp.toNat ≤ 3 := by decide +kernel
  have present : left.machine.view = right.machine.view :=
    (Machine.view_unseen left.machine shallow 0x456 false true 0x1234).symm
  have same : left.view = right.view := view_eq_iff.mpr ⟨present, rfl, rfl, rfl⟩
  have unpolled : leftCalls.filter (fun call => !call.polls) =
      rightCalls.filter (fun call => !call.polls) := by decide
  exact ⟨differ, same, answers_eq_of_view_eq left right same leftCalls rightCalls unpolled⟩

end Session

end Chip8
