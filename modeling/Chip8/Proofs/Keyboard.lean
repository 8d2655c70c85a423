import Chip8.Keyboard

/-!
# One keyboard key for each keypad key

The layout of the keyboard pairs sixteen codes with the sixteen keys of the keypad,
each of them once. `key?_eq_some_iff` says that looking up a code reads the layout,
and `exists_code` and `code_unique` that every key of the keypad has exactly one code.
-/

namespace Chip8.Keyboard

/-- No two entries of the layout have the same code. -/
theorem eq_of_code_eq : ∀ entry ∈ layout, ∀ other ∈ layout,
    entry.1.toNat = other.1.toNat → entry = other := by
  decide

/-- No two entries of the layout have the same key. -/
theorem eq_of_key_eq : ∀ entry ∈ layout, ∀ other ∈ layout,
    entry.2 = other.2 → entry = other := by
  decide

/-- A code is looked up in the layout. -/
theorem key?_eq_some_iff {code : Int} {key : Nibble} :
    key? code = some key ↔ ∃ entry ∈ layout, (entry.1.toNat : Int) = code ∧ entry.2 = key := by
  rw [key?, Option.map_eq_some_iff]
  constructor
  · rintro ⟨entry, found, same⟩
    have matching := List.find?_some found
    exact ⟨entry, List.mem_of_find?_eq_some found, of_decide_eq_true matching, same⟩
  · rintro ⟨entry, member, rfl, same⟩
    -- The look-up stops at some entry with this code, and there is only this one.
    have stops : (layout.find? fun other => (other.1.toNat : Int) = entry.1.toNat).isSome := by
      rw [List.find?_isSome]
      exact ⟨entry, member, decide_eq_true rfl⟩
    obtain ⟨first, found⟩ := Option.isSome_iff_exists.mp stops
    have matching := List.find?_some found
    obtain rfl := eq_of_code_eq first (List.mem_of_find?_eq_some found) entry member
      (Int.ofNat_inj.mp (of_decide_eq_true matching))
    exact ⟨first, found, same⟩

/-- Every keypad key has a keyboard key. -/
theorem exists_code (key : Nibble) : ∃ code, key? code = some key := by
  have listed : ∀ key : Nibble, ∃ entry ∈ layout, entry.2 = key := by decide
  obtain ⟨entry, member, same⟩ := listed key
  exact ⟨entry.1.toNat, key?_eq_some_iff.mpr ⟨entry, member, rfl, same⟩⟩

/-- Two keyboard keys never stand in for one keypad key. -/
theorem code_unique {code other : Int} {key : Nibble} (mapped : key? code = some key)
    (also : key? other = some key) : code = other := by
  obtain ⟨entry, member, rfl, same⟩ := key?_eq_some_iff.mp mapped
  obtain ⟨second, alsoMember, rfl, alsoSame⟩ := key?_eq_some_iff.mp also
  rw [eq_of_key_eq entry member second alsoMember (same.trans alsoSame.symm)]

end Chip8.Keyboard
