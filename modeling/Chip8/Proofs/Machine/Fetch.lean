import Chip8.Proofs.Machine.Cycle

/-!
# Reading a byte, a range and a word

Three reads check their addresses, each in its own way. A range that is not empty is read
exactly if each of its bytes is, and gives these bytes (`load_eq_ok_iff`); else its fault is
that of the first byte that cannot be read (`load_eq_error_iff`). A fetch goes with the range
of its two bytes.

An empty range has no byte that could be refused. It may still begin too far out: the end of
memory is the last address where it can stand (`load_zero`).
-/

namespace Chip8

namespace Memory

variable {memory : Memory} {address count : Nat} {fault : Fault}

/-! ## One byte -/

theorem byteAt_eq_ok_iff {byte : UInt8} :
    memory.byteAt address = .ok byte ↔ memory[address]? = some byte := by
  unfold byteAt
  split <;> simp [*]

theorem byteAt_eq_error_iff :
    memory.byteAt address = .error fault ↔ size ≤ address ∧ fault = .outOfBounds address := by
  rw [byteAt_eq, outcome_eq_error_iff]
  by_cases inside : address < size
  · simp [inside, Nat.not_le.mpr inside]
  · simp [inside, Nat.not_lt.mp inside, eq_comm]

theorem exists_byteAt_eq_ok (memory : Memory) (inside : address < size) :
    ∃ byte, memory.byteAt address = .ok byte :=
  ⟨memory[address], byteAt_eq_ok_iff.mpr (Vector.getElem?_eq_getElem inside)⟩

/-- A byte can be read as long as memory goes on. -/
theorem exists_byteAt_eq_ok_iff :
    (∃ byte, memory.byteAt address = .ok byte) ↔ address < size := by
  refine ⟨fun ⟨byte, read⟩ => ?_, exists_byteAt_eq_ok memory⟩
  exact (Vector.getElem?_eq_some_iff.mp (byteAt_eq_ok_iff.mp read)).1

/-! ## A range -/

/-- In a range, the byte at an offset is the first one that cannot be read. -/
structure FirstMissing (memory : Memory) (address count offset : Nat) : Prop where
  inside : offset < count
  readable : ∀ earlier < offset, ∃ byte, memory.byteAt (address + earlier) = .ok byte
  missing : memory.byteAt (address + offset) = .error (.outOfBounds (address + offset))

/-- The first address of a range that cannot be read is the end of memory, or the start of the
range if that is later. -/
theorem firstMissing_iff {offset : Nat} :
    FirstMissing memory address count offset ↔
      offset < count ∧ address + offset = max size address := by
  constructor
  · intro first
    refine ⟨first.inside, ?_⟩
    obtain ⟨beyond, -⟩ := byteAt_eq_error_iff.mp first.missing
    cases offset with
    | zero => omega
    | succ earlier =>
      have before := exists_byteAt_eq_ok_iff.mp (first.readable earlier (Nat.lt_succ_self earlier))
      omega
  · rintro ⟨inside, place⟩
    refine ⟨inside, fun earlier before => ?_, byteAt_eq_error_iff.mpr ⟨by omega, rfl⟩⟩
    exact exists_byteAt_eq_ok memory (by omega)

/-- A range that is not empty is refused for its first byte that cannot be read. -/
theorem load_eq_error_iff (positive : 0 < count) :
    memory.load address count = .error fault ↔
      ∃ offset, FirstMissing memory address count offset ∧
        fault = .outOfBounds (address + offset) := by
  rw [load_eq, outcome_eq_error_iff, excess?_eq_some_iff]
  constructor
  · rintro ⟨exceeds, rfl⟩
    have place : address + (max size address - address) = max size address := by omega
    refine ⟨max size address - address, firstMissing_iff.mpr ⟨by omega, place⟩, ?_⟩
    rw [place]
  · rintro ⟨offset, first, rfl⟩
    obtain ⟨inside, place⟩ := firstMissing_iff.mp first
    exact ⟨by omega, by rw [place]⟩

/-- A range that is not empty gives its bytes in order, if each of them can be read. -/
theorem load_eq_ok_iff (positive : 0 < count) {bytes : List UInt8} :
    memory.load address count = .ok bytes ↔
      bytes.length = count ∧
        ∀ offset (inside : offset < bytes.length),
          memory.byteAt (address + offset) = .ok bytes[offset] := by
  rw [load_eq, outcome_eq_ok_iff]
  constructor
  · rintro ⟨whole, rfl⟩
    have fits : address + count ≤ size := by simpa [excess?] using whole
    refine ⟨length_block fits, fun offset inside => byteAt_eq_ok_iff.mpr ?_⟩
    have within : offset < count := length_block fits ▸ inside
    rw [← getElem?_block memory fits within, List.getElem?_eq_getElem inside]
  · rintro ⟨rfl, read⟩
    have last := exists_byteAt_eq_ok_iff.mp ⟨_, read (bytes.length - 1) (by omega)⟩
    have fits : address + bytes.length ≤ size := by omega
    refine ⟨if_pos fits, List.ext_getElem (length_block fits).symm fun offset inside inside' => ?_⟩
    have same : (memory.block address bytes.length)[offset]? = some bytes[offset] :=
      (getElem?_block memory fits inside).trans (byteAt_eq_ok_iff.mp (read offset inside))
    rw [List.getElem?_eq_getElem inside', Option.some_inj] at same
    exact same.symm

/-- A range that is not empty is refused if one of its bytes is. -/
theorem exists_load_eq_error_iff (memory : Memory) (address : Nat) (positive : 0 < count) :
    (∃ fault, memory.load address count = .error fault) ↔
      ∃ offset < count, ∃ fault, memory.byteAt (address + offset) = .error fault := by
  constructor
  · rintro ⟨fault, refused⟩
    obtain ⟨offset, first, -⟩ := (load_eq_error_iff positive).mp refused
    exact ⟨offset, first.inside, _, first.missing⟩
  · rintro ⟨offset, inside, fault, refused⟩
    obtain ⟨beyond, -⟩ := byteAt_eq_error_iff.mp refused
    refine ⟨.outOfBounds (max size address), ?_⟩
    rw [load_eq, outcome_eq_error_iff, excess?_eq_some_iff]
    exact ⟨by omega, rfl⟩

/-- An empty range may begin at any address up to the end of memory. -/
theorem load_zero (memory : Memory) (address : Nat) :
    memory.load address 0 =
      if size < address then .error (.outOfBounds address) else .ok [] := by
  rw [load_eq, excess?, Nat.add_zero]
  by_cases fits : address ≤ size
  · rw [if_pos fits, if_neg (Nat.not_lt.mpr fits), outcome_none,
      List.length_eq_zero_iff.mp (length_block fits)]
  · have beyond : size < address := Nat.not_le.mp fits
    rw [if_neg fits, if_pos beyond, outcome_some, Nat.max_eq_right (Nat.le_of_lt beyond)]

end Memory

namespace Machine

/-! ## A word -/

/-- The two bytes at the counter, read as a range. -/
theorem load_pending (machine : Machine) :
    machine.memory.load machine.pc.toNat 2 =
      outcome
        (if machine.OnWord then none
          else some (.outOfBounds (max Memory.size machine.pc.toNat)))
        [machine.memory[machine.pc.toNat]?.getD 0,
          machine.memory[machine.pc.toNat + 1]?.getD 0] := by
  by_cases onWord : machine.OnWord
  · obtain ⟨high, highRead⟩ := machine.memory.exists_byteAt_eq_ok (Nat.lt_of_succ_lt onWord)
    obtain ⟨low, lowRead⟩ := machine.memory.exists_byteAt_eq_ok onWord
    rw [if_pos onWord, outcome_none, Memory.byteAt_eq_ok_iff.mp highRead,
      Memory.byteAt_eq_ok_iff.mp lowRead, Memory.load_eq_ok_iff (by decide)]
    refine ⟨rfl, fun offset inside => ?_⟩
    match offset, inside with
    | 0, _ => exact highRead
    | 1, _ => exact lowRead
  · have exceeds : ¬ machine.pc.toNat + 2 ≤ Memory.size := by omega
    rw [if_neg onWord, Memory.load_eq, Memory.excess?, if_neg exceeds]
    rfl

theorem fetch_eq_error_iff {machine : Machine} {fault : Fault} :
    machine.fetch = .error fault ↔ machine.memory.load machine.pc.toNat 2 = .error fault := by
  rw [fetch_eq, load_pending, outcome_eq_error_iff, outcome_eq_error_iff]

theorem fetch_eq_ok_iff {machine : Machine} {word : Word} :
    machine.fetch = .ok word ↔
      ∃ high low, machine.memory.load machine.pc.toNat 2 = .ok [high, low] ∧
        word.toNat = 256 * high.toNat + low.toNat := by
  rw [fetch_eq, load_pending]
  constructor
  · intro fetched
    obtain ⟨onWord, rfl⟩ := outcome_eq_ok_iff.mp fetched
    exact ⟨_, _, outcome_eq_ok_iff.mpr ⟨onWord, rfl⟩, Word.toNat_ofBytes _ _⟩
  · rintro ⟨high, low, read, big⟩
    obtain ⟨onWord, same⟩ := outcome_eq_ok_iff.mp read
    obtain ⟨rfl, rfl⟩ : high = _ ∧ low = _ := by simpa using same
    exact outcome_eq_ok_iff.mpr
      ⟨onWord, UInt16.toNat_inj.mp (big.trans (Word.toNat_ofBytes _ _).symm)⟩

/-- The three reads agree. A range that is not empty is refused exactly if one of its bytes is,
for the first such byte and with its fault, and else gives its bytes in order. An empty range
is refused past the end of memory, at its own address. A fetch is refused exactly if the range
of two bytes at the counter is, with the same fault, and else gives the word of these bytes. -/
theorem reads_agree (machine : Machine) :
    (∀ address count, 0 < count →
      ((∃ fault, machine.memory.load address count = .error fault) ↔
        ∃ offset < count, ∃ fault, machine.memory.byteAt (address + offset) = .error fault) ∧
      (∀ fault, machine.memory.load address count = .error fault ↔
        ∃ offset < count,
          (∀ earlier < offset, ∃ byte, machine.memory.byteAt (address + earlier) = .ok byte) ∧
          machine.memory.byteAt (address + offset) = .error fault ∧
          fault = .outOfBounds (address + offset)) ∧
      (∀ bytes, machine.memory.load address count = .ok bytes ↔
        bytes.length = count ∧ ∀ offset (inside : offset < bytes.length),
          machine.memory.byteAt (address + offset) = .ok bytes[offset])) ∧
    (∀ address, machine.memory.load address 0 =
      if 4096 < address then .error (.outOfBounds address) else .ok []) ∧
    (∀ fault, machine.fetch = .error fault ↔
      machine.memory.load machine.pc.toNat 2 = .error fault) ∧
    (∀ word, machine.fetch = .ok word ↔
      ∃ high low, machine.memory.load machine.pc.toNat 2 = .ok [high, low] ∧
        word.toNat = 256 * high.toNat + low.toNat) := by
  refine ⟨fun address count positive => ⟨?_, fun fault => ?_, fun bytes => ?_⟩,
    machine.memory.load_zero, fun fault => fetch_eq_error_iff, fun word => fetch_eq_ok_iff⟩
  · exact machine.memory.exists_load_eq_error_iff address positive
  · rw [Memory.load_eq_error_iff positive]
    constructor
    · rintro ⟨offset, first, rfl⟩
      exact ⟨offset, first.inside, first.readable, first.missing, rfl⟩
    · rintro ⟨offset, inside, readable, missing, rfl⟩
      exact ⟨offset, ⟨inside, readable, missing⟩, rfl⟩
  · exact Memory.load_eq_ok_iff positive

/-- On the last byte of memory, a range of two bytes and a fetch are refused for the byte behind
it. One address further a range is refused for its own start, also if it is empty. -/
theorem reads_agree_on_last_byte :
    let machine := { fresh with pc := 4095 }
    0 < 2 ∧ machine.memory.load 4095 2 = .error (.outOfBounds 4096) ∧
      machine.fetch = .error (.outOfBounds 4096) ∧
      machine.memory.load 4097 0 = .error (.outOfBounds 4097) := by
  obtain ⟨ranges, empty, fetches, -⟩ := reads_agree { fresh with pc := 4095 }
  have refused : fresh.memory.load 4095 2 = .error (.outOfBounds 4096) := by
    refine ((ranges 4095 2 (by decide)).2.1 _).mpr ⟨1, by decide, fun earlier before => ?_, ?_, rfl⟩
    · exact fresh.memory.exists_byteAt_eq_ok (by simp only [Memory.size]; omega)
    · exact Memory.byteAt_eq_error_iff.mpr ⟨by decide, rfl⟩
  exact ⟨by decide, refused, (fetches _).mpr refused, empty 4097⟩

end Machine

end Chip8
