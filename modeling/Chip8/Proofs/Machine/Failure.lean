import Chip8.Proofs.Instruction
import Chip8.Proofs.Machine.Bounds
import Chip8.Proofs.Session.Call

/-!
# When a cycle fails

`Machine.Refuses` lists the reasons for which a cycle fails, each with its fault,
in terms of the word at the counter and of the registers. `cycle_eq_error_iff`
says that these are the reasons, all of them and no others, as long as the call
stack is not deeper than it can be.

A defect is not a reason of a program's own. It takes a return address that is
none of a word of memory, and there the condition is exact as well.
-/

namespace Chip8

namespace Machine

/-- The two bytes at the counter are those of a word. -/
def PointsAt (machine : Machine) (word : Word) : Prop :=
  ∃ high low, machine.memory[machine.pc.toNat]? = some high ∧
    machine.memory[machine.pc.toNat + 1]? = some low ∧
    word.toNat = 256 * high.toNat + low.toNat

/-- A machine refuses to run its next cycle, with a fault that says why. -/
inductive Refuses (machine : Machine) : Fault → Prop where
  /-- The counter is past the last word of memory. -/
  | fetch (past : 4094 < machine.pc.toNat) :
      Refuses machine (.outOfBounds (max 4096 machine.pc.toNat))
  /-- The word has none of the forms that stand for an instruction. -/
  | word {word : Word} (points : machine.PointsAt word) (unknown : ¬ word.Known) :
      Refuses machine (.unknownWord word)
  /-- A return finds the call stack empty. -/
  | ret {word : Word} (points : machine.PointsAt word)
      (form : word.family = 0x0 ∧ word.low = 0xE) (empty : machine.sp.toNat = 0) :
      Refuses machine (.stackUnderflow machine.pc)
  /-- A call finds the call stack full. -/
  | call {word : Word} (points : machine.PointsAt word) (form : word.family = 0x2)
      (full : machine.sp.toNat = 16) :
      Refuses machine (.stackOverflow machine.pc)
  /-- A register that should name a key holds a greater number. -/
  | key {word : Word} (points : machine.PointsAt word)
      (form : word.family = 0xE ∧ (word.low = 0xE ∨ word.low = 0x1))
      (beyond : 15 < (machine.v.read word.x).toNat) :
      Refuses machine (.noSuchKey (machine.v.read word.x))
  /-- A sprite does not end within memory. -/
  | draw {word : Word} (points : machine.PointsAt word) (form : word.family = 0xD)
      (beyond : 4096 < machine.i.toNat + word.low.val) :
      Refuses machine (.outOfBounds (max 4096 machine.i.toNat))
  /-- Three digits do not end within memory. -/
  | decimal {word : Word} (points : machine.PointsAt word)
      (form : word.family = 0xF ∧ word.byte = 0x33)
      (beyond : 4096 < machine.i.toNat + 3) :
      Refuses machine (.outOfBounds (max 4096 machine.i.toNat))
  /-- The registers to be written or read do not end within memory. -/
  | transfer {word : Word} (points : machine.PointsAt word)
      (form : word.family = 0xF ∧ (word.byte = 0x55 ∨ word.byte = 0x65))
      (beyond : 4096 < machine.i.toNat + word.x.val + 1) :
      Refuses machine (.outOfBounds (max 4096 machine.i.toNat))

/-- A return would leave the address space. -/
def ReturnsBeyond (machine : Machine) : Prop :=
  ∃ word slot, ∃ inside : slot < 16, machine.PointsAt word ∧
    word.family = 0x0 ∧ word.low = 0xE ∧ slot + 1 = machine.sp.toNat ∧
    0xFFFE ≤ machine.stack[slot].toNat

theorem pointsAt_iff {machine : Machine} {word : Word} :
    machine.PointsAt word ↔ machine.OnWord ∧ machine.pending = word := by
  constructor
  · rintro ⟨high, low, first, second, big⟩
    obtain ⟨inside, -⟩ := Vector.getElem?_eq_some_iff.mp second
    refine ⟨inside, UInt16.toNat_inj.mp ?_⟩
    rw [pending, first, second, Word.toNat_ofBytes, big]
    rfl
  · rintro ⟨onWord, rfl⟩
    have inside : machine.pc.toNat + 1 < 4096 := onWord
    refine ⟨_, _, Vector.getElem?_eq_getElem (Nat.lt_of_succ_lt inside),
      Vector.getElem?_eq_getElem inside, ?_⟩
    simp [pending, Word.toNat_ofBytes, inside, Nat.lt_of_succ_lt inside]

/-- A return fails on an empty call stack, and otherwise only if its target does not fit. -/
theorem returnFault?_eq_some_iff {machine : Machine} (bounded : machine.sp.toNat ≤ 16)
    {fault : Fault} :
    machine.returnFault? = some fault ↔
      machine.sp.toNat = 0 ∧ fault = .stackUnderflow machine.pc ∨
        (∃ slot, ∃ inside : slot < 16, slot + 1 = machine.sp.toNat ∧
          0xFFFE ≤ machine.stack[slot].toNat) ∧ fault = .defect .overflow := by
  by_cases empty : machine.sp = 0
  · simp [returnFault?, empty, eq_comm]
  · have positive : 0 < machine.sp.toNat := UInt8.pos_iff_ne_zero.mpr empty
    have inside : machine.sp.toNat - 1 < 16 := by omega
    have top : machine.callSite? = some machine.stack[machine.sp.toNat - 1] :=
      Vector.getElem?_eq_getElem inside
    have beyondIff : (∃ slot, ∃ inside : slot < 16, slot + 1 = machine.sp.toNat ∧
        0xFFFE ≤ machine.stack[slot].toNat) ↔
          ¬ machine.stack[machine.sp.toNat - 1].toNat + 2 < UInt16.size := by
      constructor
      · rintro ⟨slot, below, pending, great⟩
        obtain rfl : slot = machine.sp.toNat - 1 := by omega
        simp only [UInt16.size]
        omega
      · intro beyond
        simp only [UInt16.size] at beyond
        exact ⟨machine.sp.toNat - 1, inside, by omega, by omega⟩
    simp only [returnFault?, empty, if_false, top, Nat.ne_of_gt positive, false_and, false_or,
      beyondIff]
    by_cases fits : machine.stack[machine.sp.toNat - 1].toNat + 2 < UInt16.size
    · simp [fits]
    · simp [fits, eq_comm]

/-- The fault of a cycle is that of the instruction that the word stands for. -/
theorem cycleFault?_of_encodes {machine : Machine} {word : Word} (instruction : Instruction)
    (points : machine.PointsAt word) (encodes : word.Encodes instruction) :
    machine.cycleFault? = machine.fault? instruction := by
  obtain ⟨onWord, rfl⟩ := pointsAt_iff.mp points
  simp only [cycleFault?, onWord, if_true, Instruction.ofWord?_eq_some_iff.mpr encodes]

/-- Every reason for which a machine refuses a cycle is the fault of the cycle. -/
theorem Refuses.cycleFault?_eq {machine : Machine} {fault : Fault}
    (refuses : machine.Refuses fault) : machine.cycleFault? = some fault := by
  cases refuses with
  | fetch past =>
    have offWord : ¬ machine.OnWord := by
      simp only [OnWord, Memory.size]
      omega
    simp only [cycleFault?, offWord, if_false]
    rfl
  | word points unknown =>
    obtain ⟨onWord, rfl⟩ := pointsAt_iff.mp points
    simp only [cycleFault?, onWord, if_true, Instruction.ofWord?_eq_none_iff.mpr unknown]
  | ret points form empty =>
    have emptyStack : machine.sp = 0 := UInt8.toNat_inj.mp empty
    rw [cycleFault?_of_encodes .ret points form, fault?, returnFault?, if_pos emptyStack]
  | @call word points form full =>
    have noRoom : stackDepth ≤ machine.sp.toNat := Nat.le_of_eq full.symm
    rw [cycleFault?_of_encodes (.call word.address) points ⟨form, rfl⟩, fault?, if_pos noRoom]
  | @key word points form beyond =>
    have raised : Keypad.beyond? (machine.v.read word.x) =
        some (.noSuchKey (machine.v.read word.x)) :=
      Keypad.beyond?_eq_some_iff.mpr ⟨beyond, rfl⟩
    rcases form with ⟨family, low | low⟩
    · rw [cycleFault?_of_encodes (.skipIfKey word.x) points ⟨family, low, rfl⟩]
      exact raised
    · rw [cycleFault?_of_encodes (.skipUnlessKey word.x) points ⟨family, low, rfl⟩]
      exact raised
  | @draw word points form beyond =>
    rw [cycleFault?_of_encodes (.draw word.x word.y word.low) points ⟨form, rfl, rfl, rfl⟩]
    exact Memory.excess?_eq_some_iff.mpr ⟨beyond, rfl⟩
  | @decimal word points form beyond =>
    rw [cycleFault?_of_encodes (.decimal word.x) points ⟨form.1, form.2, rfl⟩]
    exact Memory.excess?_eq_some_iff.mpr ⟨beyond, rfl⟩
  | @transfer word points form beyond =>
    have raised : Memory.excess? machine.i.toNat (word.x.val + 1) =
        some (.outOfBounds (max 4096 machine.i.toNat)) :=
      Memory.excess?_eq_some_iff.mpr ⟨beyond, rfl⟩
    rcases form with ⟨family, byte | byte⟩
    · rw [cycleFault?_of_encodes (.store word.x) points ⟨family, byte, rfl⟩]
      exact raised
    · rw [cycleFault?_of_encodes (.restore word.x) points ⟨family, byte, rfl⟩]
      exact raised

/-- Every fault of an instruction is a reason, but for a return to a damaged address. -/
theorem refuses_of_fault? {machine : Machine} (bounded : machine.sp.toNat ≤ 16) {word : Word}
    {instruction : Instruction} {fault : Fault} (points : machine.PointsAt word)
    (encodes : word.Encodes instruction) (raised : machine.fault? instruction = some fault) :
    machine.Refuses fault ∨ fault = .defect .overflow ∧ machine.ReturnsBeyond := by
  cases instruction with
  | ret =>
    rcases (returnFault?_eq_some_iff bounded).mp raised with ⟨empty, rfl⟩ | ⟨beyond, rfl⟩
    · exact .inl (.ret points encodes empty)
    · obtain ⟨slot, inside, top, great⟩ := beyond
      exact .inr ⟨rfl, word, slot, inside, points, encodes.1, encodes.2, top, great⟩
  | call target =>
    rw [fault?] at raised
    split at raised
    · next full =>
      cases raised
      exact .inl (.call points encodes.1 (Nat.le_antisymm bounded full))
    · cases raised
  | skipIfKey x =>
    obtain ⟨family, low, rfl⟩ := encodes
    obtain ⟨beyond, rfl⟩ := Keypad.beyond?_eq_some_iff.mp raised
    exact .inl (.key points ⟨family, .inl low⟩ beyond)
  | skipUnlessKey x =>
    obtain ⟨family, low, rfl⟩ := encodes
    obtain ⟨beyond, rfl⟩ := Keypad.beyond?_eq_some_iff.mp raised
    exact .inl (.key points ⟨family, .inr low⟩ beyond)
  | draw x y height =>
    obtain ⟨family, -, -, rfl⟩ := encodes
    obtain ⟨beyond, rfl⟩ := Memory.excess?_eq_some_iff.mp raised
    exact .inl (.draw points family beyond)
  | decimal x =>
    obtain ⟨family, byte, rfl⟩ := encodes
    obtain ⟨beyond, rfl⟩ := Memory.excess?_eq_some_iff.mp raised
    exact .inl (.decimal points ⟨family, byte⟩ beyond)
  | store x =>
    obtain ⟨family, byte, rfl⟩ := encodes
    obtain ⟨beyond, rfl⟩ := Memory.excess?_eq_some_iff.mp raised
    exact .inl (.transfer points ⟨family, .inl byte⟩ beyond)
  | restore x =>
    obtain ⟨family, byte, rfl⟩ := encodes
    obtain ⟨beyond, rfl⟩ := Memory.excess?_eq_some_iff.mp raised
    exact .inl (.transfer points ⟨family, .inr byte⟩ beyond)
  -- No other instruction has a fault.
  | _ => cases raised

/-- The fault of a cycle is a reason to refuse it, or the overflow of a return. -/
theorem cycleFault?_eq_some_iff {machine : Machine} (bounded : machine.sp.toNat ≤ 16)
    {fault : Fault} :
    machine.cycleFault? = some fault ↔
      machine.Refuses fault ∨ fault = .defect .overflow ∧ machine.ReturnsBeyond := by
  constructor
  · intro raised
    by_cases onWord : machine.OnWord
    · have points : machine.PointsAt machine.pending := pointsAt_iff.mpr ⟨onWord, rfl⟩
      simp only [cycleFault?, onWord, if_true] at raised
      cases decoded : Instruction.ofWord? machine.pending with
      | none =>
        rw [decoded] at raised
        cases raised
        exact .inl (.word points (Instruction.ofWord?_eq_none_iff.mp decoded))
      | some instruction =>
        rw [decoded] at raised
        exact refuses_of_fault? bounded points (Instruction.ofWord?_eq_some_iff.mp decoded) raised
    · simp only [cycleFault?, onWord, if_false] at raised
      cases raised
      have past : 4094 < machine.pc.toNat := by
        simp only [OnWord, Memory.size] at onWord
        omega
      exact .inl (.fetch past)
  · rintro (refuses | ⟨rfl, word, slot, inside, points, family, low, top, great⟩)
    · exact refuses.cycleFault?_eq
    · rw [cycleFault?_of_encodes .ret points ⟨family, low⟩]
      exact (returnFault?_eq_some_iff bounded).mpr (.inr ⟨⟨slot, inside, top, great⟩, rfl⟩)

theorem InBounds.not_returnsBeyond {machine : Machine} (bounded : machine.InBounds) :
    ¬ machine.ReturnsBeyond := by
  rintro ⟨word, slot, inside, -, -, -, -, great⟩
  have small : machine.stack[slot].toNat ≤ 0xFFE := bounded.callSite_le ⟨slot, inside⟩
  omega

end Machine

/-- A cycle fails exactly for the reasons listed, each with its fault. The call stack of a machine
that a program can reach holds no address from which a return overflows. The fault does not
depend on the flags for the host, on the past, on the keypad or on the random byte. -/
theorem Session.cycle_eq_error_iff (session : Session) (bounded : session.machine.sp.toNat ≤ 16)
    (random : UInt8) :
    (∀ fault, (session.cycle random).1 = .error fault ↔
      session.machine.Refuses fault ∨
        fault = .defect .overflow ∧ session.machine.ReturnsBeyond) ∧
    (session.machine.InBounds →
      ∀ fault, (session.cycle random).1 = .error fault ↔ session.machine.Refuses fault) ∧
    ∀ redraw tone history keys otherRandom fault,
      (Session.cycle ⟨{ session.machine with redraw, tone }, history, keys⟩ otherRandom).1 =
          .error fault ↔
        (session.cycle random).1 = .error fault := by
  have exact : ∀ fault, (session.cycle random).1 = .error fault ↔
      session.machine.Refuses fault ∨
        fault = .defect .overflow ∧ session.machine.ReturnsBeyond := by
    intro fault
    rw [Session.cycle_fails_iff]
    exact Machine.cycleFault?_eq_some_iff bounded
  refine ⟨exact, fun inBounds fault => ?_, ?_⟩
  · rw [exact fault, or_iff_left]
    exact fun beyond => inBounds.not_returnsBeyond beyond.2
  · intro redraw tone history keys otherRandom fault
    have same : Machine.cycleFault? { session.machine with redraw, tone } =
        session.machine.cycleFault? := Machine.cycleFault?_congr rfl rfl rfl rfl rfl rfl
    rw [Session.cycle_fails_iff, Session.cycle_fails_iff, same]

/-- Three registers to be stored from `0xFFE` on miss the end of memory by one byte. -/
theorem Session.cycle_store_past_end :
    let memory := overlay Font.memory 0x200 [0xF2, 0x55]
    let session : Session :=
      ⟨{ Machine.fresh with i := 0xFFE, memory }, History.empty 0, Keypad.released⟩
    session.machine.sp.toNat ≤ 16 ∧ session.machine.InBounds ∧
      (session.cycle 0).1 = .error (.outOfBounds 4096) := by
  intro memory session
  have bounded : session.machine.sp.toNat ≤ 16 := by decide
  have inBounds : session.machine.InBounds :=
    have fresh := Machine.fresh_inBounds memory
    ⟨fresh.counter_le, fresh.depth_le, fresh.callSite_le, fresh.frame_binary⟩
  have points : session.machine.PointsAt 0xF255 := by
    refine ⟨0xF2, 0x55, ?_, ?_, by decide⟩
    · show memory[0x200]? = some 0xF2
      simp [memory, overlay]
    · show memory[0x201]? = some 0x55
      simp [memory, overlay]
  have refuses : session.machine.Refuses (.outOfBounds 4096) :=
    .transfer points (by decide) (by decide)
  exact ⟨bounded, inBounds,
    ((session.cycle_eq_error_iff bounded 0).2.1 inBounds _).mpr refuses⟩

end Chip8
