import Chip8.Proofs.Machine.Cycle
import Chip8.Session.Call

/-!
# What each call does

One equation for each call of a host, in terms of the machine, its history and
the keypad. The later modules follow sequences of calls through these equations.

Calls that continue a run neither load a program nor go back. Such a call is a
cycle that succeeds, or it leaves all but the keypad and the flags for the host
alone (`after_of_continues`).
-/

namespace Chip8

/-- Whether a call neither loads a program nor goes back. -/
def Call.continues : Call → Bool
  | .load _ | .loadFrom _ | .reverse => false
  | .cycle _ | .keys _ | .takeFrame | .takeTone => true

/-- Whether a call loads a program. -/
def Call.loads : Call → Bool
  | .load _ | .loadFrom _ => true
  | .cycle _ | .reverse | .keys _ | .takeFrame | .takeTone => false

/-- Loading leaves a fresh machine behind, apart from its memory, whatever the machine was. -/
theorem Rom.machineAfter_install (rom : List UInt8) (machine : Machine) :
    ∃ memory, Rom.machineAfter (Rom.install rom) machine = { Machine.fresh with memory } := by
  rw [Rom.machineAfter, Rom.run_install]
  split
  · exact ⟨_, rfl⟩
  · exact ⟨Machine.fresh.memory, rfl⟩

theorem Rom.machineAfter_installFrom (source : Source) (machine : Machine) :
    ∃ memory,
      Rom.machineAfter (Rom.installFrom source) machine = { Machine.fresh with memory } := by
  rw [Rom.machineAfter, Rom.run_installFrom]
  split
  · exact ⟨Machine.fresh.memory, rfl⟩
  · exact Rom.machineAfter_install _ Machine.fresh

namespace Session

/-- Either load leaves a fresh machine without history and does not touch the keypad. -/
theorem after_of_loads (session : Session) (call : Call) (loads : call.loads = true) :
    ∃ memory, session.after call =
      { session with
        machine := { Machine.fresh with memory }
        history := History.empty session.history.depth } := by
  cases call with
  | load rom =>
    obtain ⟨memory, fresh⟩ := Rom.machineAfter_install rom session.machine
    refine ⟨memory, ?_⟩
    rw [← fresh]
    rfl
  | loadFrom source =>
    obtain ⟨memory, fresh⟩ := Rom.machineAfter_installFrom source session.machine
    refine ⟨memory, ?_⟩
    rw [← fresh]
    rfl
  | cycle random | reverse | keys change | takeFrame | takeTone => cases loads

/-- A cycle fails with the fault of its machine before anything has changed, or it saves the machine
and moves on. -/
theorem cycle_eq (session : Session) (random : UInt8) :
    session.cycle random =
      match session.machine.cycleFault? with
      | some fault => (.error fault, session)
      | none =>
        (.ok (),
          { session with
            machine := session.machine.cycleEffect ⟨session.keys, random⟩
            history := session.history.save session.machine }) := by
  simp only [cycle, attemptCycle, Attempt.run_bind, Attempt.run_get, Attempt.run_lift,
    Attempt.run_modify, Machine.cycle_eq]
  cases session.machine.cycleFault? with
  | some fault => rfl
  | none => rfl

theorem cycle_of_harmless {session : Session} (harmless : session.machine.cycleFault? = none)
    (random : UInt8) :
    session.cycle random =
      (.ok (),
        { session with
          machine := session.machine.cycleEffect ⟨session.keys, random⟩
          history := session.history.save session.machine }) := by
  rw [cycle_eq, harmless]

theorem cycle_fails_iff {session : Session} {random : UInt8} {fault : Fault} :
    (session.cycle random).1 = .error fault ↔ session.machine.cycleFault? = some fault := by
  rw [cycle_eq]
  cases session.machine.cycleFault? with
  | some raised => simp
  | none => simp

/-- A cycle that fails leaves the session that it has found. -/
theorem cycle_of_fails {session : Session} {random : UInt8} {fault : Fault}
    (failed : (session.cycle random).1 = .error fault) :
    session.cycle random = (.error fault, session) := by
  rw [cycle_eq, cycle_fails_iff.mp failed]

theorem machine_cycle_of_fails {session : Session} {random : UInt8} {fault : Fault}
    (failed : (session.cycle random).1 = .error fault) :
    session.machine.cycle ⟨session.keys, random⟩ = .error fault := by
  rw [Machine.cycle_eq, cycle_fails_iff.mp failed, outcome_some]

theorem cycle_runs_or_fails (session : Session) (random : UInt8) :
    (∃ next, session.cycle random = (.ok (), next)) ∨
      ∃ fault, (session.cycle random).1 = .error fault := by
  rcases session.cycle random with ⟨fault | -, next⟩
  · exact .inr ⟨fault, rfl⟩
  · exact .inl ⟨next, rfl⟩

/-- A cycle that succeeds has run its machine, saved the state before and kept the keypad. -/
theorem cycle_eq_ok_iff {session next : Session} {random : UInt8} :
    session.cycle random = (.ok (), next) ↔
      session.machine.cycle ⟨session.keys, random⟩ = .ok next.machine ∧
        next.history = session.history.save session.machine ∧ next.keys = session.keys := by
  rw [cycle_eq, Machine.cycle_eq]
  obtain ⟨machine, history, keys⟩ := next
  cases session.machine.cycleFault? with
  | some fault => simp
  | none => simp [eq_comm]

theorem after_cycle_of_fails {session : Session} {random : UInt8} {fault : Fault}
    (failed : (session.cycle random).1 = .error fault) :
    session.after (.cycle random) = session := by
  simp only [after, call, cycle_of_fails failed]

theorem after_cycle_of_ok {session next : Session} {random : UInt8}
    (ran : session.cycle random = (.ok (), next)) : session.after (.cycle random) = next := by
  simp only [after, call, ran]

theorem reply_cycle_of_fails {session : Session} {random : UInt8} {fault : Fault}
    (failed : (session.cycle random).1 = .error fault) :
    session.reply (.cycle random) = .faulted fault := by
  simp only [reply, call, cycle_of_fails failed, Reply.ofCycle]

theorem reply_cycle_of_ok {session next : Session} {random : UInt8}
    (ran : session.cycle random = (.ok (), next)) : session.reply (.cycle random) = .ran := by
  simp only [reply, call, ran, Reply.ofCycle]

/-- Without a saved state, going back does nothing. -/
theorem reverse_of_nil {session : Session} (none : session.history.saved = []) :
    session.reverse = (false, session) := by
  simp only [reverse, History.pop?, none]

/-- Otherwise the newest saved state becomes the machine, to be painted again. -/
theorem reverse_of_cons {session : Session} {state : Machine} {older : List Machine}
    (some : session.history.saved = state :: older) :
    session.reverse =
      (true,
        { session with
          machine := { state with redraw := true }
          history := { session.history with saved := older } }) := by
  simp only [reverse, History.pop?, some]

theorem after_reverse_of_nil {session : Session} (none : session.history.saved = []) :
    session.after .reverse = session := by
  simp only [after, call, reverse_of_nil none]

theorem after_reverse_of_cons {session : Session} {state : Machine} {older : List Machine}
    (some : session.history.saved = state :: older) :
    session.after .reverse =
      { session with
        machine := { state with redraw := true }
        history := { session.history with saved := older } } := by
  simp only [after, call, reverse_of_cons some]

theorem after_keys (session : Session) (change : Keypad.Change) :
    session.after (.keys change) = { session with keys := session.keys.change change } :=
  session.change_eq change

/-- Taking the frame or the tone lowers its flag and does nothing else. -/
theorem after_takeFrame (session : Session) :
    session.after .takeFrame =
      { session with machine := { session.machine with redraw := false } } := by
  simp only [after, call, takeFrame]
  split
  · rfl
  · next lowered =>
    rw [Bool.not_eq_true] at lowered
    rw [← lowered]

theorem after_takeTone (session : Session) :
    session.after .takeTone =
      { session with machine := { session.machine with tone := false } } := rfl

/-- Only a cycle saves a state, which is the machine before it. -/
theorem mem_saved_after {session : Session} {call : Call} {state : Machine}
    (member : state ∈ (session.after call).history.saved) :
    (∃ random, call = .cycle random) ∧ state = session.machine ∨
      state ∈ session.history.saved := by
  have reloaded := session.after_of_loads call
  cases call with
  | load rom | loadFrom source =>
    obtain ⟨memory, loaded⟩ := reloaded rfl
    rw [loaded] at member
    cases member
  | cycle random =>
    rcases session.cycle_runs_or_fails random with ⟨next, ran⟩ | ⟨fault, failed⟩
    · rw [after_cycle_of_ok ran, (cycle_eq_ok_iff.mp ran).2.1] at member
      exact (History.eq_or_mem_of_mem_save member).imp_left
        fun same => ⟨⟨random, rfl⟩, same⟩
    · rw [after_cycle_of_fails failed] at member
      exact .inr member
  | reverse =>
    cases saved : session.history.saved with
    | nil =>
      rw [after_reverse_of_nil saved, saved] at member
      cases member
    | cons newest older =>
      rw [after_reverse_of_cons saved] at member
      exact .inr (List.mem_cons_of_mem newest member)
  | keys change =>
    rw [after_keys] at member
    exact .inr member
  | takeFrame =>
    rw [after_takeFrame] at member
    exact .inr member
  | takeTone => exact .inr member

/-- The session with other flags for the host and another keypad. -/
def repolled (session : Session) (redraw tone : Bool) (keys : Keypad) : Session :=
  ⟨{ session.machine with redraw, tone }, session.history, keys⟩

theorem after_of_continues (session : Session) {call : Call} (continues : call.continues = true) :
    (∃ random next, call = .cycle random ∧ session.cycle random = (.ok (), next) ∧
        session.after call = next) ∨
      ∃ redraw tone keys, session.after call = session.repolled redraw tone keys := by
  cases call with
  | load rom | loadFrom source | reverse => cases continues
  | cycle random =>
    rcases session.cycle_runs_or_fails random with ⟨next, ran⟩ | ⟨fault, failed⟩
    · exact .inl ⟨random, next, rfl, ran, after_cycle_of_ok ran⟩
    · exact .inr ⟨_, _, _, after_cycle_of_fails failed⟩
  | keys change => exact .inr ⟨_, _, _, session.after_keys change⟩
  | takeFrame => exact .inr ⟨_, _, _, session.after_takeFrame⟩
  | takeTone => exact .inr ⟨_, _, _, session.after_takeTone⟩

end Session

end Chip8
