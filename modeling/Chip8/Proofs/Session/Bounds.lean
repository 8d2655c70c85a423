import Chip8.Proofs.Machine.Bounds
import Chip8.Proofs.Session.Call

/-!
# Bounds of a session

A session is in bounds if its machine is, and so is every state to which it can
be rewound. `InBounds.after` says that every call of a host keeps a session in
bounds, and `afterAll_start_inBounds` draws the conclusion: in no sequence of
calls does a checked operation of the interpreter go wrong.
-/

namespace Chip8.Session

/-- The machine and every saved state are in bounds. -/
structure InBounds (session : Session) : Prop where
  machine : session.machine.InBounds
  saved : ∀ state ∈ session.history.saved, state.InBounds

theorem start_inBounds (depth : Nat) : (start depth).InBounds where
  machine := Machine.fresh_inBounds _
  saved := by simp [start, History.empty]

/-- A session that has just been loaded is in bounds, whatever came before. -/
theorem loaded_inBounds (memory : Memory) (depth : Nat) (keys : Keypad) :
    InBounds ⟨{ Machine.fresh with memory }, History.empty depth, keys⟩ where
  machine := Machine.fresh_inBounds memory
  saved := by simp [History.empty]

theorem InBounds.cycle {session next : Session} (bounded : session.InBounds) {random : UInt8}
    (ran : session.cycle random = (.ok (), next)) : next.InBounds := by
  obtain ⟨executed, past, -⟩ := cycle_eq_ok_iff.mp ran
  refine ⟨bounded.machine.cycle executed, fun state member => ?_⟩
  rw [past] at member
  rcases History.eq_or_mem_of_mem_save member with rfl | older
  · exact bounded.machine
  · exact bounded.saved state older

theorem InBounds.reverse {session : Session} (bounded : session.InBounds) :
    session.reverse.2.InBounds := by
  cases saved : session.history.saved with
  | nil =>
    rw [reverse_of_nil saved]
    exact bounded
  | cons state older =>
    rw [reverse_of_cons saved]
    have savedBounds : ∀ earlier ∈ state :: older, earlier.InBounds := saved ▸ bounded.saved
    exact
      { machine := (savedBounds state List.mem_cons_self).withFlags true state.tone
        saved := fun earlier member => savedBounds earlier (List.mem_cons_of_mem state member) }

/-- Every call keeps a session in bounds. -/
theorem InBounds.after {session : Session} (bounded : session.InBounds) (call : Call) :
    (session.after call).InBounds := by
  have reloaded := session.after_of_loads call
  cases call with
  | load rom | loadFrom source =>
    obtain ⟨memory, loaded⟩ := reloaded rfl
    rw [loaded]
    exact loaded_inBounds memory _ _
  | cycle random =>
    rcases session.cycle_runs_or_fails random with ⟨next, ran⟩ | ⟨fault, failed⟩
    · rw [after_cycle_of_ok ran]
      exact bounded.cycle ran
    · rw [after_cycle_of_fails failed]
      exact bounded
  | reverse => exact bounded.reverse
  | keys change =>
    rw [after_keys]
    exact ⟨bounded.machine, bounded.saved⟩
  | takeFrame =>
    rw [after_takeFrame]
    exact ⟨bounded.machine.withFlags false _, bounded.saved⟩
  | takeTone =>
    rw [after_takeTone]
    exact ⟨bounded.machine.withFlags _ false, bounded.saved⟩

/-- Calls in any order and number keep a session in bounds. -/
theorem InBounds.afterAll {session : Session} (bounded : session.InBounds) (calls : List Call) :
    (session.afterAll calls).InBounds := by
  induction calls generalizing session with
  | nil => exact bounded
  | cons call later inductionHypothesis => exact inductionHypothesis (bounded.after call)

/-- Whatever calls a host makes, the machine and its saved states stay in bounds, and no cycle
ever meets an overflow, an underflow or a position outside its table. -/
theorem afterAll_start_inBounds (depth : Nat) (calls : List Call) :
    let session := (start depth).afterAll calls
    session.machine.InBounds ∧ (∀ state ∈ session.history.saved, state.InBounds) ∧
      ∀ random kind, (session.cycle random).1 ≠ .error (.defect kind) := by
  intro session
  have bounded : session.InBounds := (start_inBounds depth).afterAll calls
  refine ⟨bounded.machine, bounded.saved, fun random kind failed => ?_⟩
  exact bounded.machine.cycle_ne_defect _ kind (machine_cycle_of_fails failed)

end Chip8.Session
