import Chip8.Keypad
import Chip8.Memory

/-!
# Outcomes

An `outcome` is a value under the proviso that no fault stands in its way. The
operations that can fault are brought into this form, in which the condition of
the fault and the value stand side by side and neither has to be looked for in
the other.
-/

namespace Chip8

variable {α β : Type}

@[simp] theorem ok_bind (value : α) (next : α → Except Fault β) :
    (Except.ok value >>= next) = next value := rfl

@[simp] theorem error_bind (fault : Fault) (next : α → Except Fault β) :
    (Except.error fault >>= next) = .error fault := rfl

theorem bind_eq_ok_iff {first : Except Fault α} {next : α → Except Fault β} {result : β} :
    (first >>= next) = .ok result ↔ ∃ value, first = .ok value ∧ next value = .ok result := by
  cases first <;> simp

/-- The fault, if there is one, and else the value. -/
def outcome (fault? : Option Fault) (value : α) : Except Fault α :=
  match fault? with
  | some fault => .error fault
  | none => .ok value

@[simp] theorem outcome_none (value : α) : outcome none value = .ok value := rfl

@[simp] theorem outcome_some (fault : Fault) (value : α) :
    outcome (some fault) value = .error fault := rfl

theorem outcome_eq_ok_iff {fault? : Option Fault} {value result : α} :
    outcome fault? value = .ok result ↔ fault? = none ∧ result = value := by
  cases fault? with
  | none => simp [eq_comm]
  | some fault => simp

theorem outcome_eq_error_iff {fault? : Option Fault} {value : α} {fault : Fault} :
    outcome fault? value = .error fault ↔ fault? = some fault := by
  cases fault? <;> simp

/-- What is computed from an outcome without fault has the same fault. -/
theorem outcome_bind_ok (fault? : Option Fault) (value : α) (next : α → β) :
    (outcome fault? value >>= fun result => .ok (next result)) = outcome fault? (next value) := by
  cases fault? <;> rfl

namespace Checked

/-- The defect of a sum of two words. -/
def overflow? (left right : UInt16) : Option Fault :=
  if left.toNat + right.toNat < UInt16.size then none else some (.defect .overflow)

theorem add_eq (left right : UInt16) :
    add left right = outcome (overflow? left right) (left + right) := by
  unfold add overflow?
  split <;> rfl

/-- A sum that does not overflow is the sum of the numbers. -/
theorem toNat_add_of_overflow? {left right : UInt16} (fits : overflow? left right = none) :
    (left + right).toNat = left.toNat + right.toNat := by
  rw [overflow?] at fits
  split at fits
  · next small => exact (UInt16.toNat_add left right).trans (Nat.mod_eq_of_lt small)
  · cases fits

end Checked

namespace Keypad

/-- The fault of a register that should name a key. -/
def beyond? (key : UInt8) : Option Fault :=
  if key.toNat < size then none else some (.noSuchKey key)

/-- Whether a key is down, which no key past the last one is. -/
def holds (keys : Keypad) (key : UInt8) : Bool :=
  keys[key.toNat]?.getD false

theorem beyond?_eq_some_iff {key : UInt8} {fault : Fault} :
    beyond? key = some fault ↔ 15 < key.toNat ∧ fault = .noSuchKey key := by
  by_cases inside : key.toNat < size
  · have notBeyond : ¬ 15 < key.toNat := Nat.not_lt.mpr (Nat.le_of_lt_succ inside)
    simp [beyond?, inside, notBeyond]
  · have past : 15 < key.toNat := Nat.not_lt.mp inside
    simp [beyond?, inside, past, eq_comm]

theorem beyond?_eq_none_iff {key : UInt8} : beyond? key = none ↔ key.toNat < size := by
  simp [beyond?]

theorem isDown_eq (keys : Keypad) (key : UInt8) :
    keys.isDown key = outcome (beyond? key) (keys.holds key) := by
  by_cases inside : key.toNat < 16
  · simp [isDown, beyond?, holds, size, inside]
  · simp [isDown, beyond?, size, inside]

end Keypad

namespace Memory

/-- The fault of a range of `count` addresses. -/
def excess? (address count : Nat) : Option Fault :=
  if address + count ≤ size then none else some (.outOfBounds (max size address))

/-- The bytes from an address on, `count` of them if there are so many. -/
def block (memory : Memory) (address count : Nat) : List UInt8 :=
  (memory.extract address (address + count)).toList

theorem excess?_eq_some_iff {address count : Nat} {fault : Fault} :
    excess? address count = some fault ↔
      size < address + count ∧ fault = .outOfBounds (max size address) := by
  by_cases fits : address + count ≤ size
  · simp [excess?, fits, Nat.not_lt.mpr fits]
  · simp [excess?, fits, Nat.not_le.mp fits, eq_comm]

theorem length_block {memory : Memory} {address count : Nat} (fits : address + count ≤ size) :
    (memory.block address count).length = count := by
  have whole : min (address + count) 4096 = address + count := Nat.min_eq_left fits
  simp [block, whole]

theorem getElem?_block (memory : Memory) {address count position : Nat}
    (fits : address + count ≤ size) (inside : position < count) :
    (memory.block address count)[position]? = memory[address + position]? := by
  have whole : min (address + count) 4096 = address + count := Nat.min_eq_left fits
  have reached : position < address + count - address := by omega
  simp only [block, Vector.getElem?_toList, Vector.getElem?_extract, whole, reached, if_true]

theorem byteAt_eq (memory : Memory) (address : Nat) :
    memory.byteAt address =
      outcome (if address < size then none else some (.outOfBounds address))
        (memory[address]?.getD 0) := by
  by_cases inside : address < 4096
  · simp [byteAt, size, inside]
  · simp [byteAt, size, inside]

/-- Reading a range gives its bytes, or the fault of the range. -/
theorem load_eq (memory : Memory) (address count : Nat) :
    memory.load address count = outcome (excess? address count) (memory.block address count) := by
  unfold load span excess?
  split <;> rfl

/-- Writing bytes lays them over memory, or has the fault of their range. -/
theorem store_eq (memory : Memory) (address : Nat) (bytes : List UInt8) :
    memory.store address bytes =
      outcome (excess? address bytes.length) (overlay memory address bytes) := by
  unfold store span excess?
  split
  · next fits => exact Checked.write_eq_ok fits
  · rfl

end Memory

end Chip8
