import Chip8.Proofs.Session.Call

/-!
# The history as an undo list

A host that never forgets could keep every state before a cycle on an undo list
of its own, and know from the answers to its calls what to put there and what to
take away. The history of a session does the same within its depth.

`History.Edit` is what a call does to the past. Both the history and the ideal
undo list follow the same edits, and `Follows.after` shows that the history stays
a prefix of the undo list. It is not always the longest prefix that fits: after
going back, states that were dropped for want of room do not return.

An edit also tells what the call has made of the machine (`moves_after`), which is
all that later modules need to know of a call to follow the machine through it.
-/

namespace Chip8

/-- What a call does to the past of a machine. -/
inductive History.Edit where
  /-- Forget it. -/
  | forget
  /-- Add the present state to it. -/
  | record
  /-- Take its newest state away. -/
  | restore
  /-- Leave it alone. -/
  | keep
deriving DecidableEq, Repr

/-- What a call does to the past, as far as its answer tells. A load forgets the past even if it
fails, a cycle adds to it only if it succeeds. -/
def Call.edit : Call → Reply → History.Edit
  | .load _, _ | .loadFrom _, _ => .forget
  | .cycle _, .ran => .record
  | .reverse, .reversed true => .restore
  | _, _ => .keep

namespace History.Edit

/-- The undo list of a host that never forgets by itself, newest state first, once a call has
been answered. -/
def undo (present : Machine) (past : List Machine) : Edit → List Machine
  | forget => []
  | record => present :: past
  | restore => past.tail
  | keep => past

/-- The number of states in a history of some depth, once a call has been answered. -/
def count (depth before : Nat) : Edit → Nat
  | forget => 0
  | record => min (before + 1) depth
  | restore => before - 1
  | keep => before

/-- The history once a call has been answered. -/
def history (present : Machine) (past : History) : Edit → History
  | forget => past.clear
  | record => past.save present
  | restore => { past with saved := past.saved.tail }
  | keep => past

/-- What becomes of a machine by a call with this edit: it is loaded, runs a cycle, comes back from
the past, or stays as it is but for the flags for the host. -/
def Moves (present : Machine) (past : History) (next : Machine) : Edit → Prop
  | forget => ∃ memory, next = { Machine.fresh with memory }
  | record => ∃ input, present.cycle input = .ok next
  | restore => ∃ state older, past.saved = state :: older ∧ next = { state with redraw := true }
  | keep => ∃ redraw tone, next = { present with redraw, tone }

theorem depth_history (edit : Edit) (present : Machine) (past : History) :
    (edit.history present past).depth = past.depth := by
  cases edit with
  | record => exact depth_save past present
  | _ => rfl

/-- A history that is not overfull holds as many states as the edit says. -/
theorem length_history (edit : Edit) (present : Machine) {past : History}
    (within : past.saved.length ≤ past.depth) :
    (edit.history present past).saved.length = edit.count past.depth past.saved.length := by
  cases edit with
  | record =>
    rw [history, saved_save present within, List.length_take, List.length_cons]
    exact Nat.min_comm _ _
  | restore => exact List.length_tail
  | forget | keep => rfl

theorem count_le {depth before : Nat} (edit : Edit) (within : before ≤ depth) :
    edit.count depth before ≤ depth := by
  cases edit with
  | forget => exact Nat.zero_le depth
  | record => exact Nat.min_le_right _ _
  | restore => exact Nat.le_trans (Nat.sub_le _ _) within
  | keep => exact within

/-- A history that begins an undo list still does after both were edited. -/
theorem history_prefix_undo (edit : Edit) (present : Machine) {past : History}
    {ideal : List Machine} (within : past.saved.length ≤ past.depth)
    (begins : past.saved <+: ideal) :
    (edit.history present past).saved <+: edit.undo present ideal := by
  cases edit with
  | forget => exact List.nil_prefix
  | record =>
    -- A full history loses its oldest state, which is the last one of the prefix.
    rw [history, saved_save present within]
    exact (List.take_prefix _ _).trans ((List.prefix_cons_inj present).mpr begins)
  | restore =>
    obtain ⟨rest, rfl⟩ := begins
    show past.saved.tail <+: (past.saved ++ rest).tail
    cases past.saved with
    | nil => exact List.nil_prefix
    | cons state older => exact List.prefix_append older rest
  | keep => exact begins

end History.Edit

namespace Session

def edit (session : Session) (call : Call) : History.Edit :=
  call.edit (session.reply call)

/-- The ideal undo list after calls in order. -/
def undoAfterAll (session : Session) (ideal : List Machine) : List Call → List Machine
  | [] => ideal
  | call :: later =>
    (session.after call).undoAfterAll ((session.edit call).undo session.machine ideal) later

theorem edit_cycle_of_ok {session next : Session} {random : UInt8}
    (ran : session.cycle random = (.ok (), next)) : session.edit (.cycle random) = .record := by
  simp only [edit, reply_cycle_of_ok ran, Call.edit]

theorem edit_cycle_of_fails {session : Session} {random : UInt8} {fault : Fault}
    (failed : (session.cycle random).1 = .error fault) : session.edit (.cycle random) = .keep := by
  simp only [edit, reply_cycle_of_fails failed, Call.edit]

theorem edit_reverse_of_nil {session : Session} (none : session.history.saved = []) :
    session.edit .reverse = .keep := by
  simp only [edit, reply, Session.call, reverse_of_nil none, Call.edit]

theorem edit_reverse_of_cons {session : Session} {state : Machine} {older : List Machine}
    (some : session.history.saved = state :: older) : session.edit .reverse = .restore := by
  simp only [edit, reply, Session.call, reverse_of_cons some, Call.edit]

/-- The history of a session follows the edits that the answers to its calls tell of. -/
theorem history_after (session : Session) (call : Call) :
    (session.after call).history = (session.edit call).history session.machine session.history := by
  cases call with
  | load rom => rfl
  | loadFrom source => rfl
  | cycle random =>
    rcases session.cycle_runs_or_fails random with ⟨next, ran⟩ | ⟨fault, failed⟩
    · rw [after_cycle_of_ok ran, edit_cycle_of_ok ran]
      exact (cycle_eq_ok_iff.mp ran).2.1
    · rw [after_cycle_of_fails failed, edit_cycle_of_fails failed]
      rfl
  | reverse =>
    cases saved : session.history.saved with
    | nil =>
      rw [after_reverse_of_nil saved, edit_reverse_of_nil saved]
      rfl
    | cons state older =>
      rw [after_reverse_of_cons saved, edit_reverse_of_cons saved, History.Edit.history, saved,
        List.tail_cons]
  | keys change =>
    rw [after_keys]
    rfl
  | takeFrame =>
    rw [after_takeFrame]
    rfl
  | takeTone =>
    rw [after_takeTone]
    rfl

/-- A call makes of the machine what its edit tells. -/
theorem moves_after (session : Session) (call : Call) :
    (session.edit call).Moves session.machine session.history (session.after call).machine := by
  have reloaded := session.after_of_loads call
  cases call with
  | load rom | loadFrom source =>
    obtain ⟨memory, loaded⟩ := reloaded rfl
    exact ⟨memory, congrArg machine loaded⟩
  | cycle random =>
    rcases session.cycle_runs_or_fails random with ⟨next, ran⟩ | ⟨fault, failed⟩
    · rw [after_cycle_of_ok ran, edit_cycle_of_ok ran]
      exact ⟨_, (cycle_eq_ok_iff.mp ran).1⟩
    · rw [after_cycle_of_fails failed, edit_cycle_of_fails failed]
      exact ⟨_, _, rfl⟩
  | reverse =>
    cases saved : session.history.saved with
    | nil =>
      rw [after_reverse_of_nil saved, edit_reverse_of_nil saved]
      exact ⟨_, _, rfl⟩
    | cons state older =>
      rw [after_reverse_of_cons saved, edit_reverse_of_cons saved]
      exact ⟨state, older, saved, rfl⟩
  | keys change =>
    rw [after_keys]
    exact ⟨_, _, rfl⟩
  | takeFrame =>
    rw [after_takeFrame]
    exact ⟨_, _, rfl⟩
  | takeTone =>
    rw [after_takeTone]
    exact ⟨_, _, rfl⟩

/-- Without a load or a step back the past only grows. -/
theorem edit_of_continues (session : Session) {call : Call} (continues : call.continues = true) :
    session.edit call = .record ∨ session.edit call = .keep := by
  cases call with
  | load rom | loadFrom source | reverse => cases continues
  | cycle random =>
    rcases session.cycle_runs_or_fails random with ⟨next, ran⟩ | ⟨fault, failed⟩
    · exact .inl (edit_cycle_of_ok ran)
    · exact .inr (edit_cycle_of_fails failed)
  | keys change | takeFrame | takeTone => exact .inr rfl

/-- The history of a session is within its depth and begins an undo list. -/
structure Follows (session : Session) (depth : Nat) (ideal : List Machine) : Prop where
  depth_eq : session.history.depth = depth
  length_le : session.history.saved.length ≤ depth
  saved_prefix : session.history.saved <+: ideal

theorem start_follows (depth : Nat) : (start depth).Follows depth [] where
  depth_eq := rfl
  length_le := Nat.zero_le depth
  saved_prefix := List.nil_prefix

/-- The history keeps following the undo list over a call. -/
theorem Follows.after {session : Session} {depth : Nat} {ideal : List Machine}
    (follows : session.Follows depth ideal) (call : Call) :
    (session.after call).Follows depth ((session.edit call).undo session.machine ideal) := by
  obtain ⟨rfl, within, begins⟩ := follows
  constructor
  · rw [history_after, History.Edit.depth_history]
  · rw [history_after, History.Edit.length_history _ _ within]
    exact History.Edit.count_le _ within
  · rw [history_after]
    exact History.Edit.history_prefix_undo _ _ within begins

/-- The history keeps following the undo list over calls in any order and number. -/
theorem Follows.afterAll {session : Session} {depth : Nat} {ideal : List Machine}
    (follows : session.Follows depth ideal) (calls : List Call) :
    (session.afterAll calls).Follows depth (session.undoAfterAll ideal calls) := by
  induction calls generalizing session ideal with
  | nil => exact follows
  | cons call later inductionHypothesis => exact inductionHypothesis (follows.after call)

/-- Whatever calls a host makes, the saved states begin the undo list that a host without bounds
would keep, and are at most as many as the depth. Each further call changes their number by its
edit. Going back fails exactly if no state is saved, and then changes nothing. Otherwise it
restores the newest state of the undo list, to be painted again, and leaves the keypad alone. -/
theorem afterAll_start_saved_prefix (depth : Nat) (calls : List Call) :
    let session := (start depth).afterAll calls
    let ideal := (start depth).undoAfterAll [] calls
    session.history.saved <+: ideal ∧
      session.history.saved.length ≤ depth ∧
      (∀ call, (session.after call).history.saved.length =
        (call.edit (session.reply call)).count depth session.history.saved.length) ∧
      (session.reverse.1 = false ↔ session.history.saved.length = 0) ∧
      (session.reverse.1 = false → session.reverse.2 = session) ∧
      (session.reverse.1 = true → ∃ state older, ideal = state :: older ∧
        session.reverse.2.machine = { state with redraw := true } ∧
        session.reverse.2.keys = session.keys) := by
  intro session ideal
  obtain ⟨depth_eq, within, begins⟩ : session.Follows depth ideal :=
    (start_follows depth).afterAll calls
  have counted : ∀ call, (session.after call).history.saved.length =
      (call.edit (session.reply call)).count depth session.history.saved.length := by
    intro call
    rw [history_after, History.Edit.length_history _ _ (depth_eq ▸ within), depth_eq]
    rfl
  refine ⟨begins, within, counted, ?_⟩
  cases saved : session.history.saved with
  | nil => simp [reverse_of_nil saved]
  | cons state older =>
    rw [saved] at begins
    obtain ⟨rest, ideal_eq⟩ := begins
    simp [reverse_of_cons saved, ← ideal_eq]

end Session

end Chip8
