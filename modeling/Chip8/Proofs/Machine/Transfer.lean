import Chip8.Proofs.Machine.Sequence

/-!
# Registers in memory

The two transfers move a block of registers, from `V0` up to one that the word
names, to or from memory at the index, and the index behind the block. Transfers
one after another therefore go through memory block by block.

`executeWords_stores` says what a list of stores leaves in memory, and
`executeWords_restores` what a list of restores takes from there, each by
induction over the list. `transfers_inverse` puts them together: the one undoes
the other, from the same index and with the same list.
-/

namespace Chip8

/-- The number of bytes of the blocks that end with given registers, which is the sum of their
numbers and one more for each of them. -/
def extent : List Register → Nat
  | [] => 0
  | x :: later => x.val + 1 + extent later

theorem extent_cons (x : Register) (later : List Register) :
    extent (x :: later) = x.val + 1 + extent later := rfl

namespace Registers

/-- The registers up to and including one, each at the position of its number. -/
theorem getElem?_take (v : Registers) {x : Register} (register : Register) (upTo : register ≤ x) :
    (v.toList.take (x.val + 1))[register.val]? = some (v.read register) := by
  rw [List.getElem?_take_of_lt (Nat.lt_succ_of_le upTo), Vector.getElem?_toList]
  exact Vector.getElem?_eq_getElem register.isLt

end Registers

namespace Memory

/-- Memory holds one block for each register of a list, without a gap between them. The block of a
register has the values of `V0` up to this register. -/
def HoldsBlocks (memory : Memory) (base : Nat) (v : Registers) (xs : List Register) : Prop :=
  ∀ earlier x later, xs = earlier ++ x :: later →
    ∀ register, register ≤ x →
      memory[base + extent earlier + register.val]? = some (v.read register)

theorem holdsBlocks_cons_iff {memory : Memory} {base : Nat} {v : Registers} {x : Register}
    {later : List Register} :
    memory.HoldsBlocks base v (x :: later) ↔
      (∀ register, register ≤ x → memory[base + register.val]? = some (v.read register)) ∧
        memory.HoldsBlocks (base + (x.val + 1)) v later := by
  constructor
  · intro holds
    refine ⟨fun register upTo => holds [] x later rfl register upTo, ?_⟩
    rintro earlier y rest rfl register upTo
    have found := holds (x :: earlier) y rest rfl register upTo
    rwa [extent_cons, ← Nat.add_assoc] at found
  · rintro ⟨first, others⟩ earlier y rest split register upTo
    cases earlier with
    | nil =>
      cases split
      exact first register upTo
    | cons z earlier =>
      cases split
      rw [extent_cons, ← Nat.add_assoc]
      exact others earlier y rest rfl register upTo

end Memory

namespace Machine

variable {machine next : Machine} {input : Input} {x : Register} {xs : List Register}

/-- The index as an instruction can name it. -/
def indexAddress (machine : Machine) : Address :=
  Word.address machine.i

/-- The next machine has stored blocks of registers. -/
structure Stored (machine : Machine) (xs : List Register) (next : Machine) : Prop where
  blocks : next.memory.HoldsBlocks machine.i.toNat machine.v xs
  outside (address : Nat) :
    address < machine.i.toNat ∨ machine.i.toNat + extent xs ≤ address →
      next.memory[address]? = machine.memory[address]?
  registers : next.v = machine.v
  index : next.i.toNat = machine.i.toNat + extent xs
  counter : next.pc.toNat = machine.pc.toNat + 2 * xs.length

/-- The next machine has taken blocks of registers from memory. -/
structure Restored (machine : Machine) (v : Registers) (xs : List Register) (next : Machine) :
    Prop where
  taken (register : Register) :
    (∃ x ∈ xs, register ≤ x) → next.v.read register = v.read register
  kept (register : Register) :
    (∀ x ∈ xs, x < register) → next.v.read register = machine.v.read register
  memory : next.memory = machine.memory
  index : next.i.toNat = machine.i.toNat + extent xs

/-! ## One transfer -/

theorem executeWord_store (fits : machine.i.toNat + (x.val + 1) ≤ Memory.size)
    (room : machine.pc.toNat + 2 < UInt16.size) :
    machine.executeWord input (Instruction.store x).word =
      .ok (machine.effect input (.store x)) :=
  executeWord_of_room (Instruction.encodes_word _) (if_pos fits) room

theorem executeWord_restore (fits : machine.i.toNat + (x.val + 1) ≤ Memory.size)
    (room : machine.pc.toNat + 2 < UInt16.size) :
    machine.executeWord input (Instruction.restore x).word =
      .ok (machine.effect input (.restore x)) :=
  executeWord_of_room (Instruction.encodes_word _) (if_pos fits) room

/-- The index behind a block in memory does not wrap. -/
theorem toNat_index_add (fits : machine.i.toNat + (x.val + 1) ≤ Memory.size) :
    (machine.i + UInt16.ofNat (x.val + 1)).toNat = machine.i.toNat + (x.val + 1) := by
  simp only [Memory.size] at fits
  rw [UInt16.toNat_add, UInt16.toNat_ofNat']
  omega

/-- A store lays a block over memory. -/
theorem getElem?_store (fits : machine.i.toNat + (x.val + 1) ≤ Memory.size) (address : Nat) :
    (machine.effect input (.store x)).memory[address]? =
      if machine.i.toNat ≤ address ∧ address < machine.i.toNat + (x.val + 1) then
        (machine.v.toList.take (x.val + 1))[address - machine.i.toNat]?
      else
        machine.memory[address]? := by
  have size := machine.v.length_take x
  have laid := getElem?_overlay machine.memory machine.i.toNat
    (machine.v.toList.take (x.val + 1)) (by rw [size]; exact fits) address
  rw [size] at laid
  exact laid

/-- A restore lays a block over the registers. -/
theorem read_restore (input : Input) (fits : machine.i.toNat + (x.val + 1) ≤ Memory.size)
    (register : Register) :
    some ((machine.effect input (.restore x)).v.read register) =
      if register ≤ x then machine.memory[machine.i.toNat + register.val]?
      else some (machine.v.read register) := by
  have size : (machine.memory.block machine.i.toNat (x.val + 1)).length = x.val + 1 :=
    Memory.length_block fits
  have read (v : Registers) : some (v.read register) = v[register.val]? :=
    (Vector.getElem?_eq_getElem register.isLt).symm
  have laid := getElem?_overlay machine.v 0 (machine.memory.block machine.i.toNat (x.val + 1))
    (by rw [size, Nat.zero_add]; exact x.isLt) register.val
  rw [read, read]
  refine laid.trans ?_
  by_cases upTo : register ≤ x
  · have inside : register.val < x.val + 1 := Nat.lt_succ_of_le upTo
    rw [size, if_pos ⟨Nat.zero_le _, by omega⟩, if_pos upTo, Nat.sub_zero,
      Memory.getElem?_block machine.memory fits inside]
  · have behind : ¬ register.val < x.val + 1 := fun inside => upTo (Nat.le_of_lt_succ inside)
    rw [size, if_neg fun covered => behind (by omega), if_neg upTo]

/-! ## Transfers one after another -/

/-- A store with further blocks behind its own. They lie behind it in memory, and leave it as it
is. -/
theorem Stored.cons {later : List Register}
    (fits : machine.i.toNat + (x.val + 1) ≤ Memory.size)
    (room : machine.pc.toNat + 2 < UInt16.size)
    (stored : (machine.effect input (.store x)).Stored later next) :
    machine.Stored (x :: later) next := by
  have index : (machine.effect input (.store x)).i.toNat = machine.i.toNat + (x.val + 1) :=
    toNat_index_add fits
  have counter : (machine.effect input (.store x)).pc.toNat = machine.pc.toNat + 2 :=
    toNat_counter_add_two room
  have outside := stored.outside
  rw [index] at outside
  exact
    { blocks := by
        refine Memory.holdsBlocks_cons_iff.mpr ⟨fun register upTo => ?_, index ▸ stored.blocks⟩
        have bound : register.val ≤ x.val := upTo
        rw [outside _ (.inl (by omega)), getElem?_store fits, if_pos (by omega),
          Nat.add_sub_cancel_left]
        exact machine.v.getElem?_take register upTo
      outside := fun address apart => by
        rw [extent_cons] at apart
        rw [outside address (by omega), getElem?_store fits, if_neg (by omega)]
      registers := stored.registers
      index := by
        rw [stored.index, index, extent_cons]
        omega
      counter := by
        rw [stored.counter, counter, List.length_cons]
        omega }

/-- Stores succeed one after another while their blocks fit into memory. -/
theorem executeWords_stores (inputs : Nat → Input)
    (fits : machine.i.toNat + extent xs ≤ Memory.size)
    (room : machine.pc.toNat + 2 * xs.length < UInt16.size) :
    ∃ next, machine.executeWords inputs (xs.map fun x => (Instruction.store x).word) = .ok next ∧
      machine.Stored xs next := by
  induction xs generalizing machine inputs with
  | nil =>
    refine ⟨machine, rfl, ?_, fun _ _ => rfl, rfl, rfl, rfl⟩
    intro earlier x later split
    simp at split
  | cons x later inductionHypothesis =>
    rw [extent_cons] at fits
    rw [List.length_cons] at room
    have fitsFirst : machine.i.toNat + (x.val + 1) ≤ Memory.size := by omega
    have roomFirst : machine.pc.toNat + 2 < UInt16.size := by omega
    let reached := machine.effect (inputs 0) (.store x)
    have index : reached.i.toNat = machine.i.toNat + (x.val + 1) := toNat_index_add fitsFirst
    have counter : reached.pc.toNat = machine.pc.toNat + 2 := toNat_counter_add_two roomFirst
    obtain ⟨next, executed, stored⟩ :=
      @inductionHypothesis reached (fun step => inputs (step + 1)) (by omega) (by omega)
    exact ⟨next, (executeWords_cons (executeWord_store fitsFirst roomFirst) _).trans executed,
      stored.cons fitsFirst roomFirst⟩

/-- A restore with further blocks behind its own. A register that none of them reaches keeps the
value that it has from the first one. -/
theorem Restored.cons {later : List Register} {v : Registers}
    (fits : machine.i.toNat + (x.val + 1) ≤ Memory.size)
    (holds : ∀ register, register ≤ x →
      machine.memory[machine.i.toNat + register.val]? = some (v.read register))
    (restored : (machine.effect input (.restore x)).Restored v later next) :
    machine.Restored v (x :: later) next := by
  have index : (machine.effect input (.restore x)).i.toNat = machine.i.toNat + (x.val + 1) :=
    toNat_index_add fits
  exact
    { taken := fun register reaches => by
        by_cases again : ∃ y ∈ later, register ≤ y
        · exact restored.taken register again
        · have behind : ∀ y ∈ later, y < register := fun y member =>
            Fin.not_le.mp fun upTo => again ⟨y, member, upTo⟩
          have upTo : register ≤ x := by
            obtain ⟨y, member, upTo⟩ := reaches
            rcases List.mem_cons.mp member with rfl | member
            · exact upTo
            · exact absurd ⟨y, member, upTo⟩ again
          have found := read_restore input fits register
          rw [if_pos upTo, holds register upTo] at found
          exact (restored.kept register behind).trans (Option.some.inj found)
      kept := fun register behind => by
        obtain ⟨behindFirst, behindLater⟩ := List.forall_mem_cons.mp behind
        have found := read_restore input fits register
        rw [if_neg (Fin.not_le.mpr behindFirst)] at found
        exact (restored.kept register behindLater).trans (Option.some.inj found)
      memory := restored.memory
      index := by
        rw [restored.index, index, extent_cons]
        omega }

/-- Restores succeed one after another while their blocks lie in memory. -/
theorem executeWords_restores (inputs : Nat → Input) {v : Registers}
    (holds : machine.memory.HoldsBlocks machine.i.toNat v xs)
    (fits : machine.i.toNat + extent xs ≤ Memory.size)
    (room : machine.pc.toNat + 2 * xs.length < UInt16.size) :
    ∃ next, machine.executeWords inputs (xs.map fun x => (Instruction.restore x).word) = .ok next ∧
      machine.Restored v xs next := by
  induction xs generalizing machine inputs with
  | nil => exact ⟨machine, rfl, by simp, fun _ _ => rfl, rfl, rfl⟩
  | cons x later inductionHypothesis =>
    rw [extent_cons] at fits
    rw [List.length_cons] at room
    obtain ⟨first, others⟩ := Memory.holdsBlocks_cons_iff.mp holds
    have fitsFirst : machine.i.toNat + (x.val + 1) ≤ Memory.size := by omega
    have roomFirst : machine.pc.toNat + 2 < UInt16.size := by omega
    let reached := machine.effect (inputs 0) (.restore x)
    have index : reached.i.toNat = machine.i.toNat + (x.val + 1) := toNat_index_add fitsFirst
    have counter : reached.pc.toNat = machine.pc.toNat + 2 := toNat_counter_add_two roomFirst
    obtain ⟨next, executed, restored⟩ :=
      @inductionHypothesis reached (fun step => inputs (step + 1)) (index ▸ others) (by omega)
        (by omega)
    exact ⟨next, (executeWords_cons (executeWord_restore fitsFirst roomFirst) _).trans executed,
      restored.cons fitsFirst first⟩

/-! ## There and back -/

theorem executeWord_setIndex (room : machine.pc.toNat + 2 < UInt16.size) (target : Address) :
    machine.executeWord input (Instruction.setIndex target).word =
      .ok (machine.effect input (.setIndex target)) :=
  executeWord_of_room (Instruction.encodes_word _) rfl room

/-- An index in memory is one that an instruction can name. -/
theorem ofNat_indexAddress (inside : machine.i.toNat < Memory.size) :
    UInt16.ofNat machine.indexAddress.val = machine.i := by
  have same : machine.indexAddress.val = machine.i.toNat := Nat.mod_eq_of_lt inside
  rw [same, UInt16.ofNat_toNat]

theorem extent_pos (nonempty : xs ≠ []) : 0 < extent xs := by
  cases xs with
  | nil => exact absurd rfl nonempty
  | cons x later =>
    rw [extent_cons]
    omega

/-- Blocks that were stored can be taken back, whatever the registers have become. -/
theorem Stored.restores {stored : Machine} {inputs : Nat → Input}
    (stores : machine.Stored xs stored) (nonempty : xs ≠ [])
    (fits : machine.i.toNat + extent xs ≤ Memory.size)
    (room : stored.pc.toNat + 2 * (xs.length + 1) < UInt16.size) (v : Registers) :
    ∃ restored,
      executeWords { stored with v } inputs
        ((Instruction.setIndex machine.indexAddress).word ::
          xs.map fun x => (Instruction.restore x).word) = .ok restored ∧
      (∀ register, (∃ x ∈ xs, register ≤ x) →
        restored.v.read register = machine.v.read register) ∧
      (∀ register, (∀ x ∈ xs, x < register) → restored.v.read register = v.read register) ∧
      restored.memory = stored.memory ∧ restored.i = stored.i := by
  have roomFirst : stored.pc.toNat + 2 < UInt16.size := by omega
  have inside : machine.i.toNat < Memory.size := by
    have positive := extent_pos nonempty
    omega
  let pointed := effect { stored with v } (inputs 0) (.setIndex machine.indexAddress)
  have executed : executeWord { stored with v } (inputs 0)
      (Instruction.setIndex machine.indexAddress).word = .ok pointed :=
    @executeWord_setIndex { stored with v } (inputs 0) roomFirst machine.indexAddress
  have index : pointed.i = machine.i := ofNat_indexAddress inside
  have holds : pointed.memory.HoldsBlocks pointed.i.toNat machine.v xs := index ▸ stores.blocks
  have counter : pointed.pc.toNat = stored.pc.toNat + 2 := toNat_counter_add_two roomFirst
  obtain ⟨restored, executedRest, back⟩ :=
    executeWords_restores (fun step => inputs (step + 1)) holds (index ▸ fits) (by omega)
  have sameIndex : restored.i = stored.i := by
    apply UInt16.toNat_inj.mp
    rw [back.index, index, stores.index]
  exact ⟨restored, (executeWords_cons executed _).trans executedRest, back.taken, back.kept,
    back.memory, sameIndex⟩

/-- A store of what memory holds already changes nothing. -/
theorem memory_store_of_holds (fits : machine.i.toNat + (x.val + 1) ≤ Memory.size)
    (holds : ∀ register, register ≤ x →
      some (machine.v.read register) = machine.memory[machine.i.toNat + register.val]?) :
    (machine.effect input (.store x)).memory = machine.memory := by
  apply Vector.ext
  intro address inside
  apply Option.some.inj
  rw [← Vector.getElem?_eq_getElem inside, ← Vector.getElem?_eq_getElem inside,
    getElem?_store fits address]
  by_cases covered : machine.i.toNat ≤ address ∧ address < machine.i.toNat + (x.val + 1)
  · obtain ⟨distance, rfl⟩ := Nat.exists_eq_add_of_le covered.1
    have near : distance ≤ x.val := by omega
    let register : Register := ⟨distance, Nat.lt_of_le_of_lt near x.isLt⟩
    rw [if_pos covered, Nat.add_sub_cancel_left]
    exact (machine.v.getElem?_take register near).trans (holds register near)
  · rw [if_neg covered]

/-- A block that was taken from memory and is stored again where it was leaves memory as it
was. -/
theorem store_after_restore {inputs : Nat → Input} (x : Register)
    (fits : machine.i.toNat + (x.val + 1) ≤ Memory.size)
    (room : machine.pc.toNat + 6 < UInt16.size) :
    ∃ next,
      machine.executeWords inputs [(Instruction.restore x).word,
        (Instruction.setIndex machine.indexAddress).word, (Instruction.store x).word] =
          .ok next ∧
      next.memory = machine.memory := by
  have roomFirst : machine.pc.toNat + 2 < UInt16.size := by omega
  let restored := machine.effect (inputs 0) (.restore x)
  have counter : restored.pc.toNat = machine.pc.toNat + 2 := toNat_counter_add_two roomFirst
  let pointed := restored.effect (inputs 1) (.setIndex machine.indexAddress)
  have index : pointed.i = machine.i := ofNat_indexAddress (by omega)
  have counterAgain : pointed.pc.toNat = restored.pc.toNat + 2 :=
    toNat_counter_add_two (by omega)
  let next := pointed.effect (inputs 2) (.store x)
  have fitsAgain : pointed.i.toNat + (x.val + 1) ≤ Memory.size := index ▸ fits
  have memory : next.memory = machine.memory := by
    refine memory_store_of_holds fitsAgain fun register upTo => ?_
    have taken := read_restore (inputs 0) fits register
    rw [if_pos upTo] at taken
    rw [index]
    exact taken
  have first : machine.executeWord (inputs 0) (Instruction.restore x).word = .ok restored :=
    executeWord_restore fits roomFirst
  have second : restored.executeWord (inputs 1)
      (Instruction.setIndex machine.indexAddress).word = .ok pointed :=
    executeWord_setIndex (by omega) machine.indexAddress
  have third : pointed.executeWord (inputs 2) (Instruction.store x).word = .ok next :=
    executeWord_store fitsAgain (by omega)
  refine ⟨next, ?_, memory⟩
  simp only [executeWords, Nat.zero_add, Nat.reduceAdd, first, second, third, ok_bind]

/-- The decimal digits of a register, taken from memory, make up its value. -/
theorem restore_after_decimal {inputs : Nat → Input} (x : Register)
    (fits : machine.i.toNat + 3 ≤ Memory.size) (room : machine.pc.toNat + 4 < UInt16.size) :
    ∃ next,
      machine.executeWords inputs [(Instruction.decimal x).word, (Instruction.restore 2).word] =
        .ok next ∧
      (next.v.read 0).toNat ≤ 9 ∧ (next.v.read 1).toNat ≤ 9 ∧ (next.v.read 2).toNat ≤ 9 ∧
      100 * (next.v.read 0).toNat + 10 * (next.v.read 1).toNat + (next.v.read 2).toNat =
        (machine.v.read x).toNat := by
  have roomFirst : machine.pc.toNat + 2 < UInt16.size := by omega
  let written := machine.effect (inputs 0) (.decimal x)
  have counter : written.pc.toNat = machine.pc.toNat + 2 := toNat_counter_add_two roomFirst
  have executed : machine.executeWord (inputs 0) (Instruction.decimal x).word = .ok written :=
    executeWord_of_room (Instruction.encodes_word _) (if_pos fits) roomFirst
  let next := written.effect (inputs 1) (.restore 2)
  have fitsAgain : written.i.toNat + ((2 : Register).val + 1) ≤ Memory.size := fits
  have executedAgain : written.executeWord (inputs 1) (Instruction.restore 2).word = .ok next :=
    executeWord_restore fitsAgain (by omega)
  have digit (register : Register) (upTo : register ≤ 2) :
      some (next.v.read register) = (decimalDigits (machine.v.read x))[register.val]? := by
    have bound : register.val ≤ 2 := upTo
    refine (read_restore (inputs 1) fitsAgain register).trans ?_
    rw [if_pos upTo]
    refine (getElem?_overlay machine.memory machine.i.toNat (decimalDigits (machine.v.read x)) fits
      (machine.i.toNat + register.val)).trans ?_
    have covered : machine.i.toNat ≤ machine.i.toNat + register.val ∧
        machine.i.toNat + register.val < machine.i.toNat + 3 := by omega
    refine (if_pos covered).trans ?_
    rw [Nat.add_sub_cancel_left]
  have hundreds : next.v.read 0 = machine.v.read x / 100 := Option.some.inj (digit 0 (by decide))
  have tens : next.v.read 1 = machine.v.read x / 10 % 10 := Option.some.inj (digit 1 (by decide))
  have ones : next.v.read 2 = machine.v.read x % 10 := Option.some.inj (digit 2 (by decide))
  have bound : (machine.v.read x).toNat < 256 := (machine.v.read x).toNat_lt
  refine ⟨next, ?_, ?_⟩
  · simp only [executeWords, Nat.zero_add, executed, executedAgain, ok_bind]
  · rw [hundreds, tens, ones]
    simp only [UInt8.toNat_div, UInt8.toNat_mod, UInt8.reduceToNat]
    omega

/-- Stores in a row lay one block behind another into memory, and the same restores from the same
index take them back, whatever the registers have become in between. A restore is taken back by the
same store. The digits of a register, taken from memory, make up its value. -/
theorem transfers_inverse (machine : Machine) :
    (∀ (inputs : Nat → Input) (xs : List Register), xs ≠ [] →
      machine.i.toNat + extent xs ≤ Memory.size →
      machine.pc.toNat + 2 * (2 * xs.length + 1) < UInt16.size →
      ∃ stored,
        machine.executeWords inputs (xs.map fun x => (Instruction.store x).word) = .ok stored ∧
        machine.Stored xs stored ∧
        ∀ (otherInputs : Nat → Input) (v : Registers),
          ∃ restored,
            executeWords { stored with v } otherInputs
              ((Instruction.setIndex machine.indexAddress).word ::
                xs.map fun x => (Instruction.restore x).word) = .ok restored ∧
            (∀ register, (∃ x ∈ xs, register ≤ x) →
              restored.v.read register = machine.v.read register) ∧
            (∀ register, (∀ x ∈ xs, x < register) →
              restored.v.read register = v.read register) ∧
            restored.memory = stored.memory ∧ restored.i = stored.i) ∧
    (∀ (inputs : Nat → Input) (x : Register),
      machine.i.toNat + (x.val + 1) ≤ Memory.size → machine.pc.toNat + 6 < UInt16.size →
      ∃ next,
        machine.executeWords inputs [(Instruction.restore x).word,
          (Instruction.setIndex machine.indexAddress).word, (Instruction.store x).word] =
            .ok next ∧
        next.memory = machine.memory) ∧
    ∀ (inputs : Nat → Input) (x : Register),
      machine.i.toNat + 3 ≤ Memory.size → machine.pc.toNat + 4 < UInt16.size →
      ∃ next,
        machine.executeWords inputs [(Instruction.decimal x).word, (Instruction.restore 2).word] =
          .ok next ∧
        (next.v.read 0).toNat ≤ 9 ∧ (next.v.read 1).toNat ≤ 9 ∧ (next.v.read 2).toNat ≤ 9 ∧
        100 * (next.v.read 0).toNat + 10 * (next.v.read 1).toNat + (next.v.read 2).toNat =
          (machine.v.read x).toNat := by
  refine ⟨?_, fun inputs x => store_after_restore x, fun inputs x => restore_after_decimal x⟩
  intro inputs xs nonempty fits room
  obtain ⟨stored, executed, stores⟩ :=
    executeWords_stores inputs fits (by omega)
  have counter := stores.counter
  exact ⟨stored, executed, stores, fun _ v => stores.restores nonempty fits (by omega) v⟩

/-- Two blocks fill memory to its end. They are stored, taken back into blank registers, taken and
stored again, and overwritten by the digits of a register. -/
theorem transfers_inverse_at_end :
    let machine :=
      { ((fresh.setRegister 0 7).setRegister 1 8).setRegister 2 254 with i := 0xFFB }
    let inputs : Nat → Input := fun _ => ⟨Keypad.released, 0⟩
    let xs : List Register := [2, 1]
    let blank : Registers := Vector.replicate 16 0
    xs ≠ [] ∧ machine.i.toNat + extent xs = Memory.size ∧
      machine.pc.toNat + 2 * (2 * xs.length + 1) < UInt16.size ∧
      (∃ stored restored,
        machine.executeWords inputs (xs.map fun x => (Instruction.store x).word) = .ok stored ∧
        stored.memory[0xFFF]? = some 8 ∧
        executeWords { stored with v := blank } inputs
          ((Instruction.setIndex machine.indexAddress).word ::
            xs.map fun x => (Instruction.restore x).word) = .ok restored ∧
        restored.v.read 2 = 254 ∧ restored.v.read 3 = 0) ∧
      (∃ next,
        machine.executeWords inputs [(Instruction.restore 4).word,
          (Instruction.setIndex machine.indexAddress).word, (Instruction.store 4).word] =
            .ok next ∧
        next.memory = machine.memory) ∧
      ∃ next,
        machine.executeWords inputs [(Instruction.decimal 2).word, (Instruction.restore 2).word] =
          .ok next ∧
        100 * (next.v.read 0).toNat + 10 * (next.v.read 1).toNat + (next.v.read 2).toNat =
          254 := by
  intro machine inputs xs blank
  have nonempty : xs ≠ [] := List.cons_ne_nil 2 [1]
  have whole : machine.i.toNat + extent xs = Memory.size := by decide
  have room : machine.pc.toNat + 2 * (2 * xs.length + 1) < UInt16.size := by decide
  obtain ⟨there, again, digits⟩ := transfers_inverse machine
  obtain ⟨stored, executed, stores, back⟩ := there inputs xs nonempty (Nat.le_of_eq whole) room
  obtain ⟨restored, executedBack, taken, kept, -, -⟩ := back inputs blank
  obtain ⟨written, executedDigits, -, -, -, value⟩ := digits inputs 2 (by decide) (by decide)
  have last : stored.memory[0xFFF]? = some 8 := stores.blocks [2] 1 [] rfl 1 (by decide)
  have second : restored.v.read 2 = 254 := taken 2 ⟨2, by decide, by decide⟩
  have third : restored.v.read 3 = 0 := kept 3 (by decide)
  exact ⟨nonempty, whole, room, ⟨stored, restored, executed, last, executedBack, second, third⟩,
    again inputs 4 (by decide) (by decide), written, executedDigits, value⟩

end Machine

end Chip8
