import Chip8.Proofs.Dump.Lines

/-!
# A dump by looking back

What came before a row need not be kept: it is enough to know whether the last line is a
`*`, and else to look back at the row before. A row that reaches past the end cannot be
looked at; `scan?_eq_some` says that none ever is, and that the lines are the same.
-/

namespace Chip8.Dump

variable {bytes : List UInt8} {index : Nat}

/-- Whether the row with a number holds only zeros, unless it reaches past the end. -/
def blankRow? (bytes : List UInt8) (index : Nat) : Option Bool :=
  if rowWidth * (index + 1) ≤ bytes.length then
    some (isBlank ((bytes.drop (rowWidth * index)).take rowWidth))
  else
    none

/-- The lines for the rows from a number on, unless a row that reaches past the end is looked
at. The last line is a `*` while rows are skipped. -/
def scan? (bytes : List UInt8) (index : Nat) (skipping : Bool) :
    List (List UInt8) → Option (List Line)
  | [] => some []
  | row :: rest => do
    let follows := isBlank row && decide (0 < index)
    if follows && skipping then
      scan? bytes (index + 1) skipping rest
    else
      let again ← if follows then blankRow? bytes (index - 1) else some false
      if again then
        (scan? bytes (index + 1) true rest).map (.repeated :: ·)
      else
        (scan? bytes (index + 1) false rest).map (.row (index * rowWidth) row :: ·)

/-- A row before another can be looked at, and tells what came before that one. -/
theorem blankRow?_of_row? {row : List UInt8} (found : row? bytes (index + 1) = some row) :
    blankRow? bytes index = some (decide (beforeAt bytes (index + 1) ≠ .marked)) := by
  have inside : rowWidth * (index + 1) < bytes.length := (Option.ite_some_none_eq_some.mp found).1
  have before : row? bytes index = some ((bytes.drop (rowWidth * index)).take rowWidth) :=
    if_pos (Nat.lt_of_le_of_lt (Nat.mul_le_mul_left _ (Nat.le_succ index)) inside)
  rw [blankRow?, if_pos (Nat.le_of_lt inside), Option.some_inj, Bool.eq_iff_iff, decide_eq_true_iff, ne_eq,
    beforeAt_eq_marked_iff, ← blankAt_iff before]
  simp

/-- Looking back gives the line that goes with what came before, and leaves the same for the
row after. -/
theorem scan?_cons {row : List UInt8} (found : row? bytes index = some row)
    (rest : List (List UInt8)) :
    scan? bytes index (decide (beforeAt bytes index = .collapsed)) (row :: rest) =
      (scan? bytes (index + 1) (decide (beforeAt bytes (index + 1) = .collapsed)) rest).map
        (((beforeAt bytes index).line? (rowWidth * index) row).toList ++ ·) := by
  have next : beforeAt bytes (index + 1) = (beforeAt bytes index).next row := by
    rw [beforeAt, found, Option.elim_some]
  rw [next, Nat.mul_comm]
  by_cases blank : isBlank row = true
  · cases index with
    | zero => simp [scan?, beforeAt, Before.line?, Before.next, blank]
    | succ earlier =>
      have asked := blankRow?_of_row? found
      cases before : beforeAt bytes (earlier + 1) <;>
        simp [scan?, Before.line?, Before.next, blank, asked, before]
  · simp [scan?, Before.line?, Before.next, blank]

/-- Looking back gives the lines of every row from one on. -/
theorem scan?_drop (bytes : List UInt8) (index : Nat) :
    scan? bytes index (decide (beforeAt bytes index = .collapsed))
        ((rows rowWidth bytes).drop index) =
      some (linesFrom (rowWidth * index) (beforeAt bytes index)
        ((rows rowWidth bytes).drop index)) := by
  induction left : (rows rowWidth bytes).drop index generalizing index with
  | nil => rfl
  | cons row rest inductionHypothesis =>
    obtain ⟨found, behind⟩ := row?_of_drop_eq_cons left
    have later := inductionHypothesis (index + 1) behind
    rw [scan?_cons found, later, linesFrom_cons, beforeAt, found, Option.elim_some, Nat.mul_succ,
      Option.map_some]

/-- Looking back gives the lines of a dump, and never fails. -/
theorem scan?_eq_some (bytes : List UInt8) :
    scan? bytes 0 false (rows rowWidth bytes) = some (lines bytes) :=
  scan?_drop bytes 0

end Chip8.Dump
