import Chip8.Proofs.Machine.Backtrace
import Chip8.Proofs.Machine.Bounds
import Chip8.Proofs.Machine.Footprint

/-!
# Where a word takes the counter

Every instruction moves the counter by itself, and nothing else does. `CounterLaw`
says for each form of word where it leaves the counter: four forms set it anew,
six skip the next word if what they compare comes out so, one waits for a key,
and all others go on to the next word. `counterLaw_of_executeWord` says that every
word keeps the law.

Words come in opposites, which compare the same and skip in the other case. Of two
opposites exactly one skips, unless both fail in the same way.
-/

namespace Chip8

namespace Word

/-- A word sets the counter anew. -/
def Transfers (word : Word) : Prop :=
  word.family = 0x1 ∨ word.Calls ∨ word.family = 0xB ∨ word.Returns

/-- A word waits for a key, and none is down. -/
def Waits (word : Word) (keys : Keypad) : Prop :=
  word.family = 0xF ∧ word.byte = 0x0A ∧ ∀ key, keys.get key = false

/-- Two words compare the same, one to skip in the one case and one in the other. -/
def Opposes (word other : Word) : Prop :=
  word.x = other.x ∧
    (word.family = 0x3 ∧ other.family = 0x4 ∧ word.byte = other.byte ∨
      word.family = 0x5 ∧ other.family = 0x9 ∧ word.y = other.y ∨
      word.family = 0xE ∧ other.family = 0xE ∧ word.low = 0xE ∧ other.low = 0x1)

end Word

namespace Machine

/-- A word skips the next one. The last two forms look at the key that a register names, and there
is none past the last key. -/
def Skips (machine : Machine) (keys : Keypad) (word : Word) : Prop :=
  word.family = 0x3 ∧ machine.v.read word.x = word.byte ∨
  word.family = 0x4 ∧ machine.v.read word.x ≠ word.byte ∨
  word.family = 0x5 ∧ machine.v.read word.x = machine.v.read word.y ∨
  word.family = 0x9 ∧ machine.v.read word.x ≠ machine.v.read word.y ∨
  word.family = 0xE ∧ word.low = 0xE ∧ keys[(machine.v.read word.x).toNat]? = some true ∨
  word.family = 0xE ∧ word.low = 0x1 ∧ keys[(machine.v.read word.x).toNat]? = some false

/-- The counter of the next machine is where a word takes it. -/
structure CounterLaw (machine : Machine) (keys : Keypad) (word : Word) (next : Machine) :
    Prop where
  jump : word.family = 0x1 ∨ word.Calls → next.pc.toNat = word.address.val
  offset : word.family = 0xB → next.pc.toNat = word.address.val + (machine.v.read 0).toNat
  ret :
    word.Returns →
      ∃ slot, ∃ inside : slot < 16, slot + 1 = machine.sp.toNat ∧
        next.pc.toNat = machine.stack[slot].toNat + 2
  skip : machine.Skips keys word → next.pc.toNat = machine.pc.toNat + 4
  wait : word.Waits keys → next.pc = machine.pc
  onward :
    ¬ word.Transfers → ¬ machine.Skips keys word → ¬ word.Waits keys →
      next.pc.toNat = machine.pc.toNat + 2

variable {machine : Machine} {input : Input} {word : Word} {instruction : Instruction}

/-! ## Words that go on -/

/-- An instruction skips if its word does. -/
theorem skips_iff (encodes : word.Encodes instruction)
    (harmless : machine.fault? instruction = none) :
    machine.skips input instruction = true ↔ machine.Skips input.keys word := by
  cases instruction with
  | skipIfKey x | skipUnlessKey x =>
    obtain ⟨family, low, rfl⟩ := encodes
    have inside : (machine.v.read word.x).toNat < 16 := Keypad.beyond?_eq_none_iff.mp harmless
    simp [skips, Skips, family, low, Keypad.holds, inside]
  | _ => simp_all [Word.Encodes, skips, Skips]

/-- What becomes of the counter where it is not set anew. -/
theorem nextCounter_eq_add_stride (encodes : word.Encodes instruction)
    (goesOn : ¬ word.Transfers) :
    machine.nextCounter input instruction = machine.pc + machine.stride input instruction := by
  cases instruction with
  | ret => exact absurd (.inr (.inr (.inr encodes))) goesOn
  | jump target => exact absurd (.inl encodes.1) goesOn
  | call target => exact absurd (.inr (.inl encodes.1)) goesOn
  | jumpOffset target => exact absurd (.inr (.inr (.inl encodes.1))) goesOn
  | awaitKey x =>
    rw [nextCounter, stride]
    split
    · rfl
    · exact (UInt16.add_zero machine.pc).symm
  | _ => rfl

theorem stride_of_skips (encodes : word.Encodes instruction)
    (harmless : machine.fault? instruction = none) (skips : machine.Skips input.keys word) :
    machine.stride input instruction = 4 := by
  have skipped : machine.skips input instruction = true := (skips_iff encodes harmless).mpr skips
  cases instruction with
  | ret | jump target | call target | jumpOffset target | awaitKey x => cases skipped
  | _ => exact if_pos skipped

theorem stride_of_waits (encodes : word.Encodes instruction) (waits : word.Waits input.keys) :
    machine.stride input instruction = 0 := by
  obtain ⟨family, byte, up⟩ := waits
  cases instruction with
  | awaitKey x =>
    simp only [stride, Keypad.greatestDown?_eq_none_iff.mpr up]
    rfl
  | _ => simp_all [Word.Encodes]

theorem stride_of_onward (encodes : word.Encodes instruction)
    (harmless : machine.fault? instruction = none) (goesOn : ¬ word.Transfers)
    (heeds : ¬ machine.Skips input.keys word) (free : ¬ word.Waits input.keys) :
    machine.stride input instruction = 2 := by
  have unskipped : ¬ machine.skips input instruction = true := fun skipped =>
    heeds ((skips_iff encodes harmless).mp skipped)
  cases instruction with
  | ret => exact absurd (.inr (.inr (.inr encodes))) goesOn
  | jump target => exact absurd (.inl encodes.1) goesOn
  | call target => exact absurd (.inr (.inl encodes.1)) goesOn
  | jumpOffset target => exact absurd (.inr (.inr (.inl encodes.1))) goesOn
  | awaitKey x =>
    have down : input.keys.greatestDown? ≠ none := fun none =>
      free ⟨encodes.1, encodes.2.1, Keypad.greatestDown?_eq_none_iff.mp none⟩
    exact if_pos (Option.isSome_iff_ne_none.mpr down)
  | _ => simp only [stride, unskipped, Bool.false_eq_true, if_false]

/-! ## All words -/

/-- A word that skips or waits does not set the counter anew. -/
theorem not_transfers_of_skips {keys : Keypad} (skips : machine.Skips keys word) :
    ¬ word.Transfers := by
  rintro (family | family | family | ⟨family, -⟩) <;> simp [Skips, family] at skips

theorem not_transfers_of_waits {keys : Keypad} (waits : word.Waits keys) : ¬ word.Transfers := by
  rintro (family | family | family | ⟨family, -⟩) <;> simp [Word.Waits, family] at waits

/-- Where the counter is not set anew, it goes on by the stride. -/
theorem toNat_nextCounter_of_not_transfers (encodes : word.Encodes instruction)
    (within : machine.overrun? input instruction = none) (goesOn : ¬ word.Transfers) :
    (machine.nextCounter input instruction).toNat =
      machine.pc.toNat + (machine.stride input instruction).toNat := by
  rw [nextCounter_eq_add_stride encodes goesOn, Checked.toNat_add_of_overflow? within]

/-- A return goes behind the call in the topmost slot that is taken. -/
theorem toNat_nextCounter_ret (input : Input) (harmless : machine.fault? .ret = none) :
    ∃ slot, ∃ inside : slot < 16, slot + 1 = machine.sp.toNat ∧
      (machine.nextCounter input .ret).toNat = machine.stack[slot].toNat + 2 := by
  obtain ⟨occupied, callSite, top, fits⟩ := callSite_of_returnFault? harmless
  have positive : 0 < machine.sp.toNat := UInt8.pos_iff_ne_zero.mpr occupied
  obtain ⟨inside, slot⟩ := Vector.getElem?_eq_some_iff.mp top
  refine ⟨machine.sp.toNat - 1, inside, Nat.sub_add_cancel positive, ?_⟩
  rw [nextCounter, top, Option.getD_some, slot, UInt16.toNat_add]
  exact Nat.mod_eq_of_lt fits

/-- The effect of an instruction keeps the law for its words. -/
theorem counterLaw_of_encodes (encodes : word.Encodes instruction)
    (harmless : machine.fault? instruction = none)
    (within : machine.overrun? input instruction = none) :
    machine.CounterLaw input.keys word (machine.effect input instruction) where
  jump form := by
    rcases form with family | family
    · obtain rfl := Instruction.eq_of_encodes encodes
        (show word.Encodes (.jump word.address) from ⟨family, rfl⟩)
      exact toNat_ofNat_address word.address
    · obtain rfl := Instruction.eq_of_encodes encodes
        (show word.Encodes (.call word.address) from ⟨family, rfl⟩)
      exact toNat_ofNat_address word.address
  offset family := by
    obtain rfl := Instruction.eq_of_encodes encodes
      (show word.Encodes (.jumpOffset word.address) from ⟨family, rfl⟩)
    exact machine.toNat_nextCounter_jumpOffset input word.address
  ret returns := by
    obtain rfl := Instruction.eq_of_encodes encodes (show word.Encodes .ret from returns)
    exact toNat_nextCounter_ret input harmless
  skip skips := by
    have goesOn := not_transfers_of_skips skips
    refine (toNat_nextCounter_of_not_transfers encodes within goesOn).trans ?_
    rw [stride_of_skips encodes harmless skips]
    rfl
  wait waits := by
    refine (nextCounter_eq_add_stride encodes (not_transfers_of_waits waits)).trans ?_
    rw [stride_of_waits encodes waits]
    exact UInt16.add_zero machine.pc
  onward goesOn heeds free := by
    refine (toNat_nextCounter_of_not_transfers encodes within goesOn).trans ?_
    rw [stride_of_onward encodes harmless goesOn heeds free]
    rfl

theorem counterLaw_of_executeWord {next : Machine}
    (executed : machine.executeWord input word = .ok next) :
    machine.CounterLaw input.keys word next := by
  obtain ⟨instruction, encodes, harmless, within, rfl⟩ := executeWord_eq_ok_iff.mp executed
  exact counterLaw_of_encodes encodes harmless within

/-! ## Opposites -/

variable {other : Word}

/-- Opposites stand for instructions with the same fault, of which one skips where the other does
not. -/
theorem exists_encodes_of_opposes (machine : Machine) (input : Input)
    (opposes : word.Opposes other) :
    ∃ instruction opposite, word.Encodes instruction ∧ other.Encodes opposite ∧
      machine.fault? opposite = machine.fault? instruction ∧
      machine.skips input opposite = !machine.skips input instruction := by
  obtain ⟨first, compared⟩ := opposes
  rcases compared with ⟨family, opposite, byte⟩ | ⟨family, opposite, second⟩ |
    ⟨family, opposite, low, oppositeLow⟩
  · exact ⟨.skipIfByte word.x word.byte, .skipUnlessByte word.x word.byte, ⟨family, rfl, rfl⟩,
      ⟨opposite, first.symm, byte.symm⟩, rfl, rfl⟩
  · exact ⟨.skipIfEqual word.x word.y, .skipUnlessEqual word.x word.y, ⟨family, rfl, rfl⟩,
      ⟨opposite, first.symm, second.symm⟩, rfl, rfl⟩
  · exact ⟨.skipIfKey word.x, .skipUnlessKey word.x, ⟨family, low, rfl⟩,
      ⟨opposite, oppositeLow, first.symm⟩, rfl, rfl⟩

/-- A comparison goes on by two bytes or by four. -/
theorem compares_of_opposes (opposes : word.Opposes other) (keys : Keypad) :
    (¬ word.Transfers ∧ ¬ word.Waits keys) ∧ ¬ other.Transfers ∧ ¬ other.Waits keys := by
  obtain ⟨-, ⟨family, opposite, -⟩ | ⟨family, opposite, -⟩ | ⟨family, opposite, -⟩⟩ := opposes
  all_goals simp [Word.Transfers, Word.Waits, family, opposite]

/-- Opposites fail with the same fault, or both succeed and exactly one of them skips. -/
theorem executeWord_of_opposes (onWord : machine.OnWord) (input : Input)
    (opposes : word.Opposes other) :
    (∃ fault, machine.executeWord input word = .error fault ∧
      machine.executeWord input other = .error fault) ∨
    ∃ next opposite, machine.executeWord input word = .ok next ∧
      machine.executeWord input other = .ok opposite ∧
      (next.pc.toNat = machine.pc.toNat + 4 ∧ opposite.pc.toNat = machine.pc.toNat + 2 ∨
        next.pc.toNat = machine.pc.toNat + 2 ∧ opposite.pc.toNat = machine.pc.toNat + 4) := by
  obtain ⟨instruction, opposite, encodes, encodesOther, sameFault, reversed⟩ :=
    exists_encodes_of_opposes machine input opposes
  have executed := executeWord_of_encodes machine input encodes
  have executedOther := executeWord_of_encodes machine input encodesOther
  rw [execute_of_onWord onWord] at executed executedOther
  cases raised : machine.fault? instruction with
  | some fault =>
    rw [raised, outcome_some] at executed
    rw [sameFault, raised, outcome_some] at executedOther
    exact .inl ⟨fault, executed, executedOther⟩
  | none =>
    have harmless := sameFault.trans raised
    rw [raised, outcome_none] at executed
    rw [harmless, outcome_none] at executedOther
    refine .inr ⟨_, _, executed, executedOther, ?_⟩
    have law := counterLaw_of_executeWord executed
    have lawOther := counterLaw_of_executeWord executedOther
    obtain ⟨⟨goesOn, free⟩, goesOnOther, freeOther⟩ := compares_of_opposes opposes input.keys
    have skips : machine.skips input instruction = true ↔ machine.Skips input.keys word :=
      skips_iff encodes raised
    have skipsOther : machine.skips input opposite = true ↔ machine.Skips input.keys other :=
      skips_iff encodesOther harmless
    rw [reversed] at skipsOther
    cases skipped : machine.skips input instruction with
    | true =>
      have heeds : ¬ machine.Skips input.keys other := by simp [← skipsOther, skipped]
      exact .inl ⟨law.skip (skips.mp skipped), lawOther.onward goesOnOther heeds freeOther⟩
    | false =>
      have heeds : ¬ machine.Skips input.keys word := by simp [← skips, skipped]
      have skipsOver : machine.Skips input.keys other := by simp [← skipsOther, skipped]
      exact .inr ⟨law.onward goesOn heeds free, lawOther.skip skipsOver⟩

/-- A word that is executed takes the counter where its form says, in every machine, for a counter
that would leave its width is a fault. Of two opposites exactly one skips the next word, unless both
fail with the same fault. -/
theorem counter_law :
    (∀ (machine next : Machine) (input : Input) (word : Word),
      machine.executeWord input word = .ok next → machine.CounterLaw input.keys word next) ∧
    ∀ (machine : Machine) (input : Input) (word other : Word),
      machine.OnWord → word.Opposes other →
        (∃ fault, machine.executeWord input word = .error fault ∧
          machine.executeWord input other = .error fault) ∨
        ∃ next opposite, machine.executeWord input word = .ok next ∧
          machine.executeWord input other = .ok opposite ∧
          (next.pc.toNat = machine.pc.toNat + 4 ∧ opposite.pc.toNat = machine.pc.toNat + 2 ∨
            next.pc.toNat = machine.pc.toNat + 2 ∧
              opposite.pc.toNat = machine.pc.toNat + 4) := by
  constructor
  · intro machine next input word executed
    exact counterLaw_of_executeWord executed
  · intro machine input word other onWord opposes
    exact executeWord_of_opposes onWord input opposes

/-- On the last word of memory, with the key down that a register names, the word that skips if the
key is down leaves memory behind, and its opposite goes on to the end of memory. -/
theorem counter_law_key :
    let machine := { Machine.fresh.setRegister 1 7 with pc := 0xFFE }
    let input : Input := ⟨Keypad.released.press 7, 0⟩
    (∃ next, machine.executeWord input 0xE19E = .ok next ∧
      machine.CounterLaw input.keys 0xE19E next) ∧
    machine.OnWord ∧ Word.Opposes 0xE19E 0xE1A1 ∧
    ∃ next opposite, machine.executeWord input 0xE19E = .ok next ∧
      machine.executeWord input 0xE1A1 = .ok opposite ∧
      next.pc.toNat = 0x1002 ∧ opposite.pc.toNat = 0x1000 := by
  intro machine input
  have onWord : machine.OnWord := by decide
  have opposes : Word.Opposes 0xE19E 0xE1A1 := ⟨by decide, .inr (.inr (by decide))⟩
  have skips : machine.Skips input.keys 0xE19E :=
    .inr (.inr (.inr (.inr (.inl (by decide)))))
  have succeeds : (machine.executeWord input 0xE19E).toBool = true := by decide +kernel
  rcases counter_law.2 machine input 0xE19E 0xE1A1 onWord opposes with
    ⟨fault, failed, -⟩ | ⟨next, opposite, executed, executedOther, counters⟩
  · rw [failed] at succeeds
    cases succeeds
  · have law := counter_law.1 machine next input 0xE19E executed
    have skipped : next.pc.toNat = 0x1002 := law.skip skips
    have onward : opposite.pc.toNat = 0x1000 := by
      rcases counters with ⟨-, onward⟩ | ⟨stays, -⟩
      · exact onward
      · rw [skipped] at stays
        exact absurd stays (by decide)
    exact ⟨⟨next, executed, law⟩, onWord, opposes, next, opposite, executed, executedOther,
      skipped, onward⟩

end Machine

end Chip8
