import Chip8.Proofs.Machine.Backtrace
import Chip8.Proofs.Machine.Failure
import Chip8.Proofs.Session.Bounds
import Chip8.Proofs.Session.Undo

/-!
# The call stack over calls of a host

A host can keep account of the pending calls without a look at the call stack: it
is enough to know which words the cycles have executed and where. A `Ledger` is
such an account. It follows loads and steps back as well.

`ledgerAfterAll_eq` says that the ledger holds what the call stack holds, and
`afterAll_start_backtrace` what this means for calls and returns: when they fail,
where a return goes, and that a routine ends right behind its call.
-/

namespace Chip8

/-- An account of the pending calls, at present and before each cycle that can be undone. -/
structure Ledger where
  present : Backtrace
  /-- Newest first. -/
  past : List Backtrace
deriving DecidableEq, Repr

namespace Ledger

def empty : Ledger := ⟨[], []⟩

/-- The ledger once a call has been answered. The visit is that of the machine before the call. -/
def edit (ledger : Ledger) (visit : Visit) : History.Edit → Ledger
  | .forget => empty
  | .record => ⟨ledger.present.step visit, ledger.present :: ledger.past⟩
  | .restore => ⟨ledger.past.headD [], ledger.past.tail⟩
  | .keep => ledger

end Ledger

namespace Machine

/-- The pending calls are on the call stack, outermost first, and nothing else is below its
pointer. -/
structure Holds (machine : Machine) (backtrace : Backtrace) : Prop where
  depth_eq : machine.sp.toNat = backtrace.length
  length_le : backtrace.length ≤ stackDepth
  callSite_eq : ∀ (slot : Nat) (pending : slot < backtrace.length),
    machine.stack[slot]? = some backtrace[slot]

theorem InBounds.holds {machine : Machine} (bounded : machine.InBounds) :
    machine.Holds machine.backtrace := by
  have length := length_backtrace bounded.depth_le
  refine ⟨length.symm, length ▸ bounded.depth_le, fun slot pending => ?_⟩
  rw [← getElem?_backtrace (length ▸ pending)]
  exact List.getElem?_eq_getElem pending

/-- A call fails exactly if sixteen calls are pending. -/
theorem InBounds.cycleFault?_of_calls {machine : Machine} (bounded : machine.InBounds) {word : Word}
    (points : machine.PointsAt word) (calls : word.Calls) :
    machine.cycleFault? =
      if machine.backtrace.length = stackDepth then some (.stackOverflow machine.pc)
      else none := by
  have full : stackDepth ≤ machine.sp.toNat ↔ machine.sp.toNat = stackDepth :=
    ⟨Nat.le_antisymm bounded.depth_le, Nat.le_of_eq ∘ Eq.symm⟩
  rw [cycleFault?_of_encodes (.call word.address) points ⟨calls, rfl⟩, fault?,
    length_backtrace bounded.depth_le]
  simp only [full]

/-- A return fails exactly if no call is pending. -/
theorem InBounds.cycleFault?_of_returns {machine : Machine} (bounded : machine.InBounds)
    {word : Word} (points : machine.PointsAt word) (returns : word.Returns) :
    machine.cycleFault? =
      if machine.backtrace = [] then some (.stackUnderflow machine.pc) else none := by
  have empty : machine.backtrace = [] ↔ machine.sp = 0 := by
    rw [← List.length_eq_zero_iff, length_backtrace bounded.depth_le]
    exact UInt8.toNat_inj (b := 0)
  rw [cycleFault?_of_encodes .ret points returns, fault?, bounded.returnFault?_eq]
  simp only [empty]

end Machine

namespace Session

/-- The ledger after calls in order. -/
def ledgerAfterAll (session : Session) (ledger : Ledger) : List Call → Ledger
  | [] => ledger
  | call :: later =>
    (session.after call).ledgerAfterAll
      (ledger.edit session.machine.visit (session.edit call)) later

/-- The words that cycles have executed, in order. -/
def visits (session : Session) : List Call → List Visit
  | [] => []
  | call :: later =>
    if session.edit call = .record then
      session.machine.visit :: (session.after call).visits later
    else
      (session.after call).visits later

/-- The ledger that the call stack and an undo list amount to. -/
def ledger (session : Session) (ideal : List Machine) : Ledger :=
  ⟨session.machine.backtrace, ideal.map Machine.backtrace⟩

/-- A call edits the ledger. -/
theorem ledger_after {session : Session} {depth : Nat} {ideal : List Machine}
    (follows : session.Follows depth ideal) (call : Call) :
    (session.after call).ledger ((session.edit call).undo session.machine ideal) =
      (session.ledger ideal).edit session.machine.visit (session.edit call) := by
  have moved := session.moves_after call
  cases edited : session.edit call with
  | forget =>
    rw [edited] at moved
    obtain ⟨memory, machine⟩ := moved
    rw [ledger, machine]
    rfl
  | record =>
    rw [edited] at moved
    obtain ⟨input, ran⟩ := moved
    rw [ledger, Machine.backtrace_of_cycle ran]
    rfl
  | restore =>
    rw [edited] at moved
    -- The state that comes back is also the newest one of the undo list.
    obtain ⟨state, older, saved, machine⟩ := moved
    obtain ⟨rest, rfl⟩ := follows.saved_prefix
    rw [ledger, machine, saved]
    rfl
  | keep =>
    rw [edited] at moved
    obtain ⟨redraw, tone, machine⟩ := moved
    rw [ledger, machine]
    rfl

/-- The ledger of a host is the one that the call stack and the undo list amount to. -/
theorem ledgerAfterAll_eq {session : Session} {depth : Nat} {ideal : List Machine}
    (follows : session.Follows depth ideal) (calls : List Call) :
    session.ledgerAfterAll (session.ledger ideal) calls =
      (session.afterAll calls).ledger (session.undoAfterAll ideal calls) := by
  induction calls generalizing session ideal with
  | nil => rfl
  | cons call later inductionHypothesis =>
    rw [ledgerAfterAll, ← ledger_after follows call]
    exact inductionHypothesis (follows.after call)

/-- Without a load or a step back the executed words alone say what becomes of the backtrace. -/
theorem backtrace_afterAll {session : Session} {calls : List Call}
    (continues : ∀ call ∈ calls, call.continues = true) :
    (session.afterAll calls).machine.backtrace =
      (session.visits calls).foldl Backtrace.step session.machine.backtrace := by
  induction calls generalizing session with
  | nil => rfl
  | cons call later inductionHypothesis =>
    have rest : ((session.after call).afterAll later).machine.backtrace = _ :=
      inductionHypothesis fun next member => continues next (List.mem_cons_of_mem call member)
    have moved := session.moves_after call
    rcases session.edit_of_continues (continues call List.mem_cons_self) with recorded | kept
    · rw [recorded] at moved
      obtain ⟨input, ran⟩ := moved
      rw [Machine.backtrace_of_cycle ran] at rest
      rw [visits, if_pos recorded]
      exact rest
    · rw [kept] at moved
      obtain ⟨redraw, tone, machine⟩ := moved
      have same : (session.after call).machine.backtrace = session.machine.backtrace := by
        rw [machine]
        rfl
      have unexecuted : session.edit call ≠ .record := by
        rw [kept]
        decide
      rw [same] at rest
      rw [visits, if_neg unexecuted]
      exact rest

variable {session : Session} {word : Word}

theorem cycle_eq_error_iff_of_calls (bounded : session.InBounds)
    (points : session.machine.PointsAt word) (calls : word.Calls) (random : UInt8)
    (fault : Fault) :
    (session.cycle random).1 = .error fault ↔
      session.machine.backtrace.length = 16 ∧ fault = .stackOverflow session.machine.pc := by
  rw [cycle_fails_iff, bounded.machine.cycleFault?_of_calls points calls,
    Option.ite_none_right_eq_some, Option.some_inj]
  exact and_congr_right' eq_comm

theorem cycle_eq_error_iff_of_returns (bounded : session.InBounds)
    (points : session.machine.PointsAt word) (returns : word.Returns) (random : UInt8)
    (fault : Fault) :
    (session.cycle random).1 = .error fault ↔
      session.machine.backtrace = [] ∧ fault = .stackUnderflow session.machine.pc := by
  rw [cycle_fails_iff, bounded.machine.cycleFault?_of_returns points returns,
    Option.ite_none_right_eq_some, Option.some_inj]
  exact and_congr_right' eq_comm

/-- A return goes behind the last pending call. -/
theorem counter_of_return {next : Session} {random : UInt8}
    (points : session.machine.PointsAt word) (returns : word.Returns)
    (ran : session.cycle random = (.ok (), next)) :
    ∃ callSite, session.machine.backtrace.getLast? = some callSite ∧
      next.machine.pc.toNat = callSite.toNat + 2 := by
  obtain ⟨-, rfl⟩ := Machine.pointsAt_iff.mp points
  exact Machine.counter_of_return (cycle_eq_ok_iff.mp ran).1 returns

/-- A routine of any length, with calls of its own that have returned, ends behind the call that
has led to it, with the calls pending that were pending before. -/
theorem resumes_of_balanced {entered : Session} {random : UInt8} (bounded : session.InBounds)
    (points : session.machine.PointsAt word) (calls : word.Calls)
    (ran : session.cycle random = (.ok (), entered)) {body : List Call}
    (continues : ∀ call ∈ body, call.continues = true)
    (balanced : Balanced (entered.visits body))
    {exit : Word} (leaves : (entered.afterAll body).machine.PointsAt exit)
    (returns : exit.Returns) (again : UInt8) :
    ∃ resumed, (entered.afterAll body).cycle again = (.ok (), resumed) ∧
      resumed.machine.pc.toNat = session.machine.pc.toNat + 2 ∧
      resumed.machine.Holds session.machine.backtrace := by
  obtain ⟨-, rfl⟩ := Machine.pointsAt_iff.mp points
  have called : entered.machine.backtrace = session.machine.backtrace ++ [session.machine.pc] :=
    (Machine.backtrace_of_cycle (cycle_eq_ok_iff.mp ran).1).trans
      (Backtrace.step_of_calls _ session.machine.visit calls)
  have pending : (entered.afterAll body).machine.backtrace =
      session.machine.backtrace ++ [session.machine.pc] := by
    rw [backtrace_afterAll continues, balanced.foldl_step, called]
  have leaving : (entered.afterAll body).InBounds := (bounded.cycle ran).afterAll body
  rcases (entered.afterAll body).cycle_runs_or_fails again with
    ⟨resumed, left⟩ | ⟨fault, failed⟩
  · obtain ⟨callSite, last, counter⟩ := counter_of_return leaves returns left
    rw [pending, List.getLast?_concat, Option.some_inj] at last
    have restored : resumed.machine.backtrace = session.machine.backtrace := by
      obtain ⟨-, rfl⟩ := Machine.pointsAt_iff.mp leaves
      rw [Machine.backtrace_of_cycle (cycle_eq_ok_iff.mp left).1,
        Backtrace.step_of_returns _ (entered.afterAll body).machine.visit returns, pending,
        List.dropLast_concat]
    exact ⟨resumed, left, last ▸ counter, restored ▸ (leaving.cycle left).machine.holds⟩
  · obtain ⟨none, -⟩ :=
      (cycle_eq_error_iff_of_returns leaving leaves returns again fault).mp failed
    simp [pending] at none

/-- Whatever calls a host makes, the ledger holds what is on the call stack. A call fails exactly if
sixteen are pending, and a return exactly if none is. A return that succeeds goes behind the last
pending call. So a routine of any length, whose own calls have returned, ends right behind the call
that has led to it, and leaves the calls before that pending as they were. -/
theorem afterAll_start_backtrace (depth : Nat) (calls : List Call) :
    let session := (start depth).afterAll calls
    let backtrace := ((start depth).ledgerAfterAll .empty calls).present
    session.machine.Holds backtrace ∧
      (∀ word, session.machine.PointsAt word → word.Calls → ∀ random fault,
        (session.cycle random).1 = .error fault ↔
          backtrace.length = 16 ∧ fault = .stackOverflow session.machine.pc) ∧
      (∀ word, session.machine.PointsAt word → word.Returns → ∀ random fault,
        (session.cycle random).1 = .error fault ↔
          backtrace = [] ∧ fault = .stackUnderflow session.machine.pc) ∧
      (∀ word, session.machine.PointsAt word → word.Returns →
        ∀ random next, session.cycle random = (.ok (), next) →
          ∃ callSite, backtrace.getLast? = some callSite ∧
            next.machine.pc.toNat = callSite.toNat + 2) ∧
      ∀ word, session.machine.PointsAt word → word.Calls →
        ∀ random entered, session.cycle random = (.ok (), entered) →
          ∀ body : List Call, (∀ call ∈ body, call.continues = true) →
            Balanced (entered.visits body) →
              ∀ exit, (entered.afterAll body).machine.PointsAt exit → exit.Returns →
                ∀ again, ∃ resumed, (entered.afterAll body).cycle again = (.ok (), resumed) ∧
                  resumed.machine.pc.toNat = session.machine.pc.toNat + 2 ∧
                  resumed.machine.Holds backtrace := by
  intro session backtrace
  have bounded : session.InBounds := (start_inBounds depth).afterAll calls
  have kept : backtrace = session.machine.backtrace :=
    congrArg Ledger.present (ledgerAfterAll_eq (start_follows depth) calls)
  rw [kept]
  refine ⟨bounded.machine.holds, ?_, ?_, ?_, ?_⟩
  · intro word points calls random fault
    exact cycle_eq_error_iff_of_calls bounded points calls random fault
  · intro word points returns random fault
    exact cycle_eq_error_iff_of_returns bounded points returns random fault
  · intro word points returns random next ran
    exact counter_of_return points returns ran
  · intro word points calls random entered ran body continues balanced exit leaves returns again
    exact resumes_of_balanced bounded points calls ran continues balanced leaves returns again

/-- A program calls a routine that calls another one, and each does nothing but return. -/
theorem afterAll_start_backtrace_nested :
    let session :=
      (start 0).afterAll [.load [0x22, 0x04, 0x12, 0x02, 0x22, 0x08, 0x00, 0xEE, 0x00, 0xEE]]
    let entered := session.after (.cycle 0)
    let leaving := entered.afterAll [.cycle 0, .takeFrame, .cycle 0]
    session.machine.PointsAt 0x2204 ∧ session.cycle 0 = (.ok (), entered) ∧
      entered.visits [.cycle 0, .takeFrame, .cycle 0] = [⟨0x204, 0x2208⟩, ⟨0x208, 0x00EE⟩] ∧
      leaving.machine.PointsAt 0x00EE ∧
      ∃ resumed, leaving.cycle 0 = (.ok (), resumed) ∧ resumed.machine.pc.toNat = 0x200 + 2 ∧
        resumed.machine.Holds [] := by
  intro session entered leaving
  obtain ⟨onCall, harmless, counter, visited, onReturn⟩ :
      (session.machine.OnWord ∧ session.machine.pending = 0x2204) ∧
        session.machine.cycleFault? = none ∧ session.machine.pc.toNat = 0x200 ∧
        entered.visits [.cycle 0, .takeFrame, .cycle 0] = [⟨0x204, 0x2208⟩, ⟨0x208, 0x00EE⟩] ∧
        leaving.machine.OnWord ∧ leaving.machine.pending = 0x00EE := by
    decide +kernel
  have points := Machine.pointsAt_iff.mpr onCall
  have leaves := Machine.pointsAt_iff.mpr onReturn
  have ran : session.cycle 0 = (.ok (), entered) := by
    have succeeds := cycle_of_harmless harmless 0
    rwa [← after_cycle_of_ok succeeds] at succeeds
  have balanced : Balanced [⟨0x204, 0x2208⟩, ⟨0x208, 0x00EE⟩] :=
    show Balanced (⟨0x204, 0x2208⟩ :: [] ++ ⟨0x208, 0x00EE⟩ :: []) from
      .routine (by decide) .nil (by decide) .nil
  obtain ⟨-, -, -, -, resumes⟩ := afterAll_start_backtrace 0
    [.load [0x22, 0x04, 0x12, 0x02, 0x22, 0x08, 0x00, 0xEE, 0x00, 0xEE]]
  have resumed := resumes 0x2204 points (by decide) 0 entered ran _ (by decide)
    (visited ▸ balanced) 0x00EE leaves (by decide) 0
  exact ⟨points, ran, visited, leaves, counter ▸ resumed⟩

end Session

end Chip8
