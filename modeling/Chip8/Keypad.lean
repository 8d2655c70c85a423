import Chip8.Fault

/-!
# The keypad

Sixteen keys, each down or up. The host presses and releases keys by number,
and numbers past the last key are ignored; a program that names such a key
faults instead.
-/

namespace Chip8

/-- Which keys are down, by number. -/
abbrev Keypad := Vector Bool 16

namespace Keypad

/-- The number of keys. -/
def size : Nat := 16

/-- The keypad with no key down. -/
def released : Keypad := Vector.replicate 16 false

/-- The keypad with one key down. A number past the last key changes nothing. -/
def press (keys : Keypad) (key : UInt8) : Keypad :=
  keys.setIfInBounds key.toNat true

/-- The keypad with one key up. A number past the last key changes nothing. -/
def release (keys : Keypad) (key : UInt8) : Keypad :=
  keys.setIfInBounds key.toNat false

/-- Whether the key that a register names is down. -/
def isDown (keys : Keypad) (key : UInt8) : Except Fault Bool :=
  match keys[key.toNat]? with
  | some down => .ok down
  | none => .error (.noSuchKey key)

/-- The greatest key that is down. -/
def greatestDown? (keys : Keypad) : Option (Fin 16) :=
  (List.finRange 16).findRev? fun key => keys[key]

/-- There is no greatest key exactly if every key is up. -/
theorem greatestDown?_eq_none_iff {keys : Keypad} :
    keys.greatestDown? = none ↔ ∀ key : Fin 16, keys[key] = false := by
  simp [greatestDown?, List.findRev?_eq_find?_reverse]

/-- The keys that are down, in ascending order. -/
def keysDown (keys : Keypad) : List (Fin 16) :=
  (List.finRange 16).filter fun key => keys[key]

theorem mem_keysDown {keys : Keypad} {key : Fin 16} :
    key ∈ keys.keysDown ↔ keys[key] = true := by
  simp [keysDown]

/-- The greatest key that is down comes last when the keys are gone through in ascending order. -/
theorem greatestDown?_eq_getLast?_keysDown (keys : Keypad) :
    keys.greatestDown? = keys.keysDown.getLast? := by
  rw [greatestDown?, List.findRev?_eq_find?_reverse, ← List.head?_filter, List.filter_reverse,
    List.head?_reverse, keysDown]

/-- The greatest key that is down is down, and no greater key is. -/
theorem greatest_of_greatestDown? {keys : Keypad} {key : Fin 16}
    (found : keys.greatestDown? = some key) :
    keys[key] = true ∧ ∀ other : Fin 16, keys[other] = true → other ≤ key := by
  rw [greatestDown?_eq_getLast?_keysDown, List.getLast?_eq_some_iff] at found
  obtain ⟨lesser, ascending⟩ := found
  have sorted : (lesser ++ [key]).Pairwise (· < ·) :=
    ascending ▸ (List.pairwise_lt_finRange 16).filter _
  have last : key ∈ keys.keysDown := by simp [ascending]
  refine ⟨mem_keysDown.mp last, fun other down => ?_⟩
  have member : other ∈ lesser ++ [key] := ascending ▸ mem_keysDown.mpr down
  rcases List.mem_append.mp member with before | same
  · exact Nat.le_of_lt ((List.pairwise_append.mp sorted).2.2 other before key List.mem_cons_self)
  · exact Nat.le_of_eq (congrArg Fin.val (List.mem_singleton.mp same))

/-- The keypad on which exactly the given keys are down. -/
def ofKeysDown (down : List (Fin 16)) : Keypad :=
  Vector.ofFn fun key => down.contains key

end Keypad

end Chip8
