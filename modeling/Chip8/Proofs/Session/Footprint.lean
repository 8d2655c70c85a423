import Chip8.Proofs.Machine.Failure
import Chip8.Proofs.Machine.Footprint

/-!
# Memory over runs

A byte of memory changes only in a cycle whose word writes to its address. This
holds of the font and of the program as well, which nothing else protects: a
program that changes itself does so by a store.

`footprint_law` states the frame law of the instruction set together with this
consequence for runs, in which the host may also change keys and poll.
-/

namespace Chip8

/-- A cycle that changes a byte executes a word that writes to its address. -/
theorem Machine.stores_of_cycle {machine next : Machine} {input : Input} {address : Fin 4096}
    (ran : machine.cycle input = .ok next)
    (changed : next.memory.get address ≠ machine.memory.get address) :
    ∃ word, machine.PointsAt word ∧ machine.Stores word address.val := by
  obtain ⟨instruction, onWord, decoded, -, rfl⟩ := cycle_eq_ok_iff.mp ran
  have encodes := Instruction.ofWord?_eq_some_iff.mp decoded
  have points : machine.PointsAt machine.pending := pointsAt_iff.mpr ⟨onWord, rfl⟩
  exact ⟨_, points, (footprint_of_encodes machine input encodes).memory address changed⟩

namespace Session

/-- A call that changes a byte without a load or a step back is a cycle that writes to it. -/
theorem stores_of_after {session : Session} {call : Call} {address : Fin 4096}
    (continues : call.continues = true)
    (changed :
      (session.after call).machine.memory.get address ≠ session.machine.memory.get address) :
    ∃ random next word, call = .cycle random ∧ session.cycle random = (.ok (), next) ∧
      next.machine.memory.get address ≠ session.machine.memory.get address ∧
      session.machine.PointsAt word ∧ session.machine.Stores word address.val := by
  rcases session.after_of_continues continues with ⟨random, next, rfl, ran, reached⟩ | polled
  · rw [reached] at changed
    obtain ⟨word, points, stores⟩ := Machine.stores_of_cycle (cycle_eq_ok_iff.mp ran).1 changed
    exact ⟨random, next, word, rfl, ran, changed, points, stores⟩
  · obtain ⟨redraw, tone, keys, reached⟩ := polled
    rw [reached] at changed
    exact absurd rfl changed

/-- A byte that differs after a run was changed by one of its cycles, which writes to it. -/
theorem exists_stores_of_afterAll {session : Session} {calls : List Call} {address : Fin 4096}
    (continues : ∀ call ∈ calls, call.continues = true)
    (changed :
      (session.afterAll calls).machine.memory.get address ≠ session.machine.memory.get address) :
    ∃ earlier random later, calls = earlier ++ .cycle random :: later ∧
      ∃ next word, (session.afterAll earlier).cycle random = (.ok (), next) ∧
        next.machine.memory.get address ≠ (session.afterAll earlier).machine.memory.get address ∧
        (session.afterAll earlier).machine.PointsAt word ∧
        (session.afterAll earlier).machine.Stores word address.val := by
  induction calls generalizing session with
  | nil => exact absurd rfl changed
  | cons call later inductionHypothesis =>
    by_cases same :
        (session.after call).machine.memory.get address = session.machine.memory.get address
    · -- The byte survives the first call, so it changes in the rest of the run.
      rw [← same] at changed
      obtain ⟨earlier, random, rest, rfl, written⟩ :=
        inductionHypothesis (fun next member => continues next (List.mem_cons_of_mem call member))
          changed
      exact ⟨call :: earlier, random, rest, rfl, written⟩
    · obtain ⟨random, next, word, rfl, written⟩ :=
        stores_of_after (continues call List.mem_cons_self) same
      exact ⟨[], random, later, rfl, next, word, written⟩

/-- A word that is executed keeps within its footprint. Over every run without a load or a step
back, a byte of memory differs only if it changed in a cycle with a word that writes to it. -/
theorem footprint_law :
    (∀ (machine next : Machine) (input : Machine.Input) (word : Word),
      machine.executeWord input word = .ok next → machine.Footprint word next) ∧
    ∀ (session : Session) (calls : List Call), (∀ call ∈ calls, call.continues = true) →
      ∀ address : Fin 4096,
        (session.afterAll calls).machine.memory.get address ≠ session.machine.memory.get address →
          ∃ earlier random later, calls = earlier ++ .cycle random :: later ∧
            ∃ next word, (session.afterAll earlier).cycle random = (.ok (), next) ∧
              next.machine.memory.get address ≠
                (session.afterAll earlier).machine.memory.get address ∧
              (session.afterAll earlier).machine.PointsAt word ∧
              (session.afterAll earlier).machine.Stores word address.val := by
  constructor
  · intro machine next input word executed
    exact Machine.footprint_of_executeWord executed
  · intro session calls continues address changed
    exact exists_stores_of_afterAll continues changed

/-- A program points the index at its own second instruction and stores a register there. The
word that it overwrites is the one that writes. -/
theorem footprint_law_self_modifying :
    let session := (start 0).after (.load [0xA2, 0x02, 0xF0, 0x55])
    let calls : List Call := [.cycle 0, .takeFrame, .cycle 0]
    (∃ next, (session.after (.cycle 0)).machine.executeWord ⟨session.keys, 0⟩ 0xF055 = .ok next ∧
        (session.after (.cycle 0)).machine.Footprint 0xF055 next) ∧
      (∀ call ∈ calls, call.continues = true) ∧
      (session.afterAll calls).machine.memory.get 0x202 ≠
        session.machine.memory.get 0x202 ∧
      ∃ earlier random later, calls = earlier ++ .cycle random :: later ∧
        ∃ next word, (session.afterAll earlier).cycle random = (.ok (), next) ∧
          next.machine.memory.get 0x202 ≠
            (session.afterAll earlier).machine.memory.get 0x202 ∧
          (session.afterAll earlier).machine.PointsAt word ∧
          (session.afterAll earlier).machine.Stores word 0x202 := by
  intro session calls
  have continues : ∀ call ∈ calls, call.continues = true := by decide
  obtain ⟨succeeds, changed⟩ :
      ((session.after (.cycle 0)).machine.executeWord ⟨session.keys, 0⟩ 0xF055).toBool = true ∧
        (session.afterAll calls).machine.memory.get 0x202 ≠
          session.machine.memory.get 0x202 := by
    decide +kernel
  refine ⟨?_, continues, changed, footprint_law.2 session calls continues 0x202 changed⟩
  cases executed : (session.after (.cycle 0)).machine.executeWord ⟨session.keys, 0⟩ 0xF055 with
  | error fault =>
    rw [executed] at succeeds
    cases succeeds
  | ok next => exact ⟨next, rfl, footprint_law.1 _ _ _ _ executed⟩

end Session

end Chip8
