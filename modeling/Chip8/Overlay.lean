/-!
# Writing a run of values into a table

`overlay` lays a list of values over consecutive entries of a fixed-size table.
`getElem_overlay` is its law: an entry in the covered range is the value that
covers it, and every other entry is as before.
-/

namespace Chip8

variable {α : Type} {count : Nat}

/-- The table with the values written over its entries from `start` on. Values past the end of
the table are dropped. -/
def overlay (table : Vector α count) (start : Nat) : List α → Vector α count
  | [] => table
  | value :: rest => overlay (table.setIfInBounds start value) (start + 1) rest

/-- An entry is covered by the value at its distance from the start, if there is one. -/
theorem getElem_overlay (table : Vector α count) (start : Nat) (values : List α) (position : Nat)
    (inside : position < count) :
    (overlay table start values)[position] =
      if covered : start ≤ position ∧ position - start < values.length then
        values[position - start]
      else
        table[position] := by
  induction values generalizing table start with
  | nil => simp [overlay]
  | cons value rest inductionHypothesis =>
    rw [overlay, inductionHypothesis]
    by_cases first : position = start
    · subst first
      have notLater : ¬ position + 1 ≤ position := by omega
      simp [notLater]
    · by_cases after : start + 1 ≤ position
      · obtain ⟨distance, rfl⟩ : ∃ distance, position = start + 1 + distance :=
          ⟨position - (start + 1), by omega⟩
        have near : start + 1 + distance - (start + 1) = distance := by omega
        have far : start + 1 + distance - start = distance + 1 := by omega
        have differs : start ≠ start + 1 + distance := by omega
        simp [near, far, differs, show start ≤ start + 1 + distance by omega]
      · have before : ¬ start ≤ position := by omega
        have differs : start ≠ position := by omega
        simp [after, before, differs]

/-- Values that all fit are found where they were laid, and around them the table is as before. -/
theorem getElem?_overlay (table : Vector α count) (start : Nat) (values : List α)
    (fits : start + values.length ≤ count) (position : Nat) :
    (overlay table start values)[position]? =
      if start ≤ position ∧ position < start + values.length then
        values[position - start]?
      else
        table[position]? := by
  by_cases inside : position < count
  · rw [Vector.getElem?_eq_getElem inside, Vector.getElem?_eq_getElem inside, getElem_overlay]
    by_cases covered : start ≤ position ∧ position < start + values.length
    · have near : position - start < values.length := by omega
      rw [dif_pos ⟨covered.1, near⟩, if_pos covered, List.getElem?_eq_getElem near]
    · have apart : ¬ (start ≤ position ∧ position - start < values.length) := by omega
      rw [dif_neg apart, if_neg covered]
  · have apart : ¬ (start ≤ position ∧ position < start + values.length) := by omega
    rw [if_neg apart, Vector.getElem?_eq_none (Nat.le_of_not_lt inside),
      Vector.getElem?_eq_none (Nat.le_of_not_lt inside)]

/-- Only entries that a value covers change. -/
theorem covered_of_getElem_overlay_ne {table : Vector α count} {start position : Nat}
    {values : List α} (inside : position < count)
    (changed : (overlay table start values)[position] ≠ table[position]) :
    start ≤ position ∧ position < start + values.length := by
  refine Decidable.byContradiction fun outside => changed ?_
  have apart : ¬ (start ≤ position ∧ position - start < values.length) := by omega
  rw [getElem_overlay, dif_neg apart]

end Chip8
