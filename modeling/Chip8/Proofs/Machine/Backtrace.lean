import Chip8.Proofs.Instruction
import Chip8.Proofs.Machine.Cycle

/-!
# The call stack as a list

The slots of the call stack below its pointer hold the addresses of the pending
calls, and what is in the slots above is left over from calls that have returned.
A `Backtrace` is the part that counts, as a list with the outermost call first.

`backtrace_of_cycle` says what a cycle does to it: a call appends its own address,
a return removes the last one, and no other word changes it. `Balanced.foldl_step`
concludes that a routine leaves it as it was, however many routines it calls.
-/

namespace Chip8

/-- A word that calls a routine. -/
abbrev Word.Calls (word : Word) : Prop :=
  word.family = 0x2

/-- A word that returns from one. -/
abbrev Word.Returns (word : Word) : Prop :=
  word.family = 0x0 ∧ word.low = 0xE

theorem Word.not_calls_of_returns {word : Word} (returns : word.Returns) : ¬ word.Calls := by
  intro calls
  rw [Calls, returns.1] at calls
  exact absurd calls (by decide)

/-- A word that is executed, and its address. -/
structure Visit where
  pc : UInt16
  word : Word
deriving DecidableEq, Repr

/-- The addresses of pending calls, outermost first. -/
abbrev Backtrace := List UInt16

/-- The backtrace after a word has been executed. -/
def Backtrace.step (backtrace : Backtrace) (visit : Visit) : Backtrace :=
  if visit.word.Calls then
    backtrace ++ [visit.pc]
  else if visit.word.Returns then
    backtrace.dropLast
  else
    backtrace

theorem Backtrace.step_of_calls (backtrace : Backtrace) (visit : Visit)
    (calls : visit.word.Calls) : backtrace.step visit = backtrace ++ [visit.pc] :=
  if_pos calls

theorem Backtrace.step_of_returns (backtrace : Backtrace) (visit : Visit)
    (returns : visit.word.Returns) : backtrace.step visit = backtrace.dropLast := by
  rw [step, if_neg (Word.not_calls_of_returns returns), if_pos returns]

theorem Backtrace.step_of_other (backtrace : Backtrace) (visit : Visit)
    (goesOn : ¬ visit.word.Calls) (stays : ¬ visit.word.Returns) :
    backtrace.step visit = backtrace := by
  rw [step, if_neg goesOn, if_neg stays]

/-- In a sequence of words every call has its return, and every return its call. -/
inductive Balanced : List Visit → Prop where
  | nil : Balanced []
  | other {visit : Visit} {later : List Visit} (goesOn : ¬ visit.word.Calls)
      (stays : ¬ visit.word.Returns) (rest : Balanced later) : Balanced (visit :: later)
  | routine {entry exit : Visit} {body later : List Visit} (calls : entry.word.Calls)
      (inner : Balanced body) (returns : exit.word.Returns) (rest : Balanced later) :
      Balanced (entry :: body ++ exit :: later)

/-- What is called returns, so that the pending calls are the same as before. -/
theorem Balanced.foldl_step {visits : List Visit} (balanced : Balanced visits)
    (backtrace : Backtrace) : visits.foldl Backtrace.step backtrace = backtrace := by
  induction balanced generalizing backtrace with
  | nil => rfl
  | @other visit later goesOn stays _ inductionHypothesis =>
    rw [List.foldl_cons, backtrace.step_of_other visit goesOn stays]
    exact inductionHypothesis backtrace
  | @routine entry exit body later calls _ returns _ afterBody afterLater =>
    rw [List.foldl_append, List.foldl_cons, List.foldl_cons, backtrace.step_of_calls entry calls,
      afterBody, Backtrace.step_of_returns _ exit returns, List.dropLast_concat]
    exact afterLater backtrace

namespace Machine

/-- The addresses of the calls that have not returned. -/
def backtrace (machine : Machine) : Backtrace :=
  machine.stack.toList.take machine.sp.toNat

theorem length_backtrace {machine : Machine} (bounded : machine.sp.toNat ≤ 16) :
    machine.backtrace.length = machine.sp.toNat := by
  rw [backtrace, List.length_take, Vector.length_toList]
  exact Nat.min_eq_left bounded

/-- Slots below the pointer are in the backtrace. -/
theorem getElem?_backtrace {machine : Machine} {slot : Nat} (live : slot < machine.sp.toNat) :
    machine.backtrace[slot]? = machine.stack[slot]? := by
  rw [backtrace, List.getElem?_take_of_lt live, Vector.getElem?_toList]

/-- Where there are pending calls, the one on top of the stack is among them. -/
theorem callSite?_eq {machine : Machine} (occupied : machine.sp ≠ 0) :
    machine.callSite? = machine.backtrace[machine.sp.toNat - 1]? := by
  have positive : 0 < machine.sp.toNat := UInt8.pos_iff_ne_zero.mpr occupied
  rw [callSite?, getElem?_backtrace (Nat.sub_one_lt_of_lt positive)]

/-- The call on top of the stack is the last one. -/
theorem callSite?_eq_getLast? {machine : Machine} (bounded : machine.sp.toNat ≤ 16)
    (occupied : machine.sp ≠ 0) : machine.callSite? = machine.backtrace.getLast? := by
  rw [callSite?_eq occupied, List.getLast?_eq_getElem?, length_backtrace bounded]

/-- A return that raises no fault goes behind a pending call. -/
theorem callSite_of_returnFault? {machine : Machine} (harmless : machine.returnFault? = none) :
    machine.sp ≠ 0 ∧
      ∃ callSite, machine.callSite? = some callSite ∧ callSite.toNat + 2 < UInt16.size := by
  rw [returnFault?] at harmless
  split at harmless
  · cases harmless
  · next occupied =>
    refine ⟨occupied, ?_⟩
    split at harmless
    · next callSite top =>
      split at harmless
      · next fits => exact ⟨callSite, top, fits⟩
      · cases harmless
    · cases harmless

/-- It finds the pointer of the stack within its end. -/
theorem occupied_of_returnFault? {machine : Machine} (harmless : machine.returnFault? = none) :
    machine.sp ≠ 0 ∧ machine.sp.toNat ≤ 16 := by
  obtain ⟨occupied, callSite, top, -⟩ := callSite_of_returnFault? harmless
  obtain ⟨inside, -⟩ := Vector.getElem?_eq_some_iff.mp top
  exact ⟨occupied, by omega⟩

/-- A call leaves its address behind all others, over whatever its slot has held. -/
theorem take_setIfInBounds_succ (stack : CallStack) {depth : Nat} (room : depth < 16)
    (pc : UInt16) :
    (stack.setIfInBounds depth pc).toList.take (depth + 1) = stack.toList.take depth ++ [pc] := by
  have inside : depth < stack.toList.length := by
    rw [Vector.length_toList]
    exact room
  rw [Vector.toList_setIfInBounds, List.take_add_one, List.take_set_of_le (Nat.le_refl depth),
    List.getElem?_set_self inside, Option.toList_some]

/-- The word at the counter, and its address. -/
def visit (machine : Machine) : Visit :=
  ⟨machine.pc, machine.pending⟩

/-- What an instruction that raises no fault does to the backtrace. -/
theorem backtrace_effect {machine : Machine} (input : Input) {instruction : Instruction}
    {word : Word} (encodes : word.Encodes instruction)
    (harmless : machine.fault? instruction = none) :
    (machine.effect input instruction).backtrace = machine.backtrace.step ⟨machine.pc, word⟩ := by
  cases instruction with
  | call target =>
    have room : ¬ stackDepth ≤ machine.sp.toNat := by
      intro full
      simp [fault?, full] at harmless
    simp only [stackDepth] at room
    have depth : (machine.sp + 1).toNat = machine.sp.toNat + 1 := by
      rw [UInt8.toNat_add]
      simp only [UInt8.reduceToNat]
      omega
    rw [machine.backtrace.step_of_calls ⟨machine.pc, word⟩ encodes.1]
    show (machine.stack.setIfInBounds machine.sp.toNat machine.pc).toList.take
      (machine.sp + 1).toNat = machine.backtrace ++ [machine.pc]
    rw [depth]
    exact take_setIfInBounds_succ machine.stack (by omega) machine.pc
  | ret =>
    obtain ⟨occupied, bounded⟩ := occupied_of_returnFault? harmless
    have depth : (machine.sp - 1).toNat = machine.sp.toNat - 1 :=
      Checked.toNat_sub_one (UInt8.pos_iff_ne_zero.mpr occupied)
    rw [machine.backtrace.step_of_returns ⟨machine.pc, word⟩ encodes]
    show machine.stack.toList.take (machine.sp - 1).toNat = machine.backtrace.dropLast
    rw [depth, List.dropLast_eq_take, length_backtrace bounded, backtrace, List.take_take,
      Nat.min_eq_left (Nat.sub_le _ _)]
  | _ =>
    -- The words of all other instructions are neither calls nor returns.
    have other : ¬ word.Calls ∧ ¬ word.Returns := by
      simp_all [Word.Encodes]
    rw [machine.backtrace.step_of_other ⟨machine.pc, word⟩ other.1 other.2]
    rfl

/-- A cycle that succeeds steps the backtrace. -/
theorem backtrace_of_cycle {machine next : Machine} {input : Input}
    (ran : machine.cycle input = .ok next) :
    next.backtrace = machine.backtrace.step machine.visit := by
  obtain ⟨instruction, -, decoded, harmless, rfl⟩ := cycle_eq_ok_iff.mp ran
  exact backtrace_effect input (Instruction.ofWord?_eq_some_iff.mp decoded) harmless

/-- A cycle that returns goes behind the last pending call. -/
theorem counter_of_return {machine next : Machine} {input : Input}
    (ran : machine.cycle input = .ok next) (returns : machine.pending.Returns) :
    ∃ callSite, machine.backtrace.getLast? = some callSite ∧
      next.pc.toNat = callSite.toNat + 2 := by
  obtain ⟨instruction, -, decoded, harmless, rfl⟩ := cycle_eq_ok_iff.mp ran
  have isReturn : Instruction.ofWord? machine.pending = some .ret :=
    Instruction.ofWord?_eq_some_iff.mpr returns
  obtain rfl : Instruction.ret = instruction := Option.some_inj.mp (isReturn.symm.trans decoded)
  obtain ⟨occupied, callSite, top, fits⟩ := callSite_of_returnFault? harmless
  have bounded := (occupied_of_returnFault? harmless).2
  refine ⟨callSite, callSite?_eq_getLast? bounded occupied ▸ top, ?_⟩
  show (machine.callSite?.getD 0 + 2).toNat = callSite.toNat + 2
  rw [top, Option.getD_some, UInt16.toNat_add]
  exact Nat.mod_eq_of_lt fits

end Machine

end Chip8
