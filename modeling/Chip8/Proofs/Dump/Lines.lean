import Chip8.Dump

/-!
# The lines of a dump, row by row

The lines of a dump stand for its rows in order, and each row has one line or none
(`lines_eq_filterMap`). Which line depends on what came before the row alone, and
`lineAt?_eq_row_iff` and `lineAt?_eq_repeated_iff` say it in terms of the bytes: a row is
shown unless it is blank and follows a blank one, and the second of a run is marked by a
`*`.
-/

namespace Chip8.Dump

variable {bytes row : List UInt8} {index : Nat}

/-! ## The rows of a sequence of bytes -/

/-- The row with a number, if the bytes go on so far. The last row may be shorter than the
others. -/
def row? (bytes : List UInt8) (index : Nat) : Option (List UInt8) :=
  if rowWidth * index < bytes.length then
    some ((bytes.drop (rowWidth * index)).take rowWidth)
  else
    none

/-- There is a row with this number, and it holds only zeros. -/
def BlankAt (bytes : List UInt8) (index : Nat) : Prop :=
  ∃ row, row? bytes index = some row ∧ ∀ byte ∈ row, byte = 0

/-- A run of blank rows begins with the row with this number. -/
def OpensRun (bytes : List UInt8) (index : Nat) : Prop :=
  BlankAt bytes index ∧ ∀ earlier, earlier + 1 = index → ¬ BlankAt bytes earlier

theorem getElem?_rows_rowWidth (bytes : List UInt8) (index : Nat) :
    (rows rowWidth bytes)[index]? = row? bytes index :=
  getElem?_rows (by decide) bytes index

theorem row?_ne_nil (found : row? bytes index = some row) : row ≠ [] := by
  obtain ⟨inside, rfl⟩ := Option.ite_some_none_eq_some.mp found
  rw [ne_eq, List.take_eq_nil_iff, List.drop_eq_nil_iff]
  rintro (none | outside)
  · cases none
  · exact Nat.not_lt.mpr outside inside

/-- The row with a number is in front of those that follow it. -/
theorem row?_of_drop_eq_cons {rest : List (List UInt8)}
    (left : (rows rowWidth bytes).drop index = row :: rest) :
    row? bytes index = some row ∧ (rows rowWidth bytes).drop (index + 1) = rest := by
  constructor
  · rw [← getElem?_rows_rowWidth, ← List.head?_drop, left, List.head?_cons]
  · rw [← List.tail_drop, left, List.tail_cons]

theorem isBlank_iff : isBlank row = true ↔ ∀ byte ∈ row, byte = 0 := by
  simp [isBlank]

theorem blankAt_iff (found : row? bytes index = some row) :
    BlankAt bytes index ↔ isBlank row = true := by
  simp [BlankAt, found, isBlank_iff]

/-! ## The line of a row -/

/-- What a row leaves for the next one. -/
def Before.next (before : Before) (row : List UInt8) : Before :=
  if isBlank row then
    match before with
    | .marked => .blank
    | .blank | .collapsed => .collapsed
  else
    .marked

/-- The line of a row, if it has one. -/
def Before.line? (before : Before) (address : Nat) (row : List UInt8) : Option Line :=
  if isBlank row then
    match before with
    | .marked => some (.row address row)
    | .blank => some .repeated
    | .collapsed => none
  else
    some (.row address row)

/-- What came before the row with a number. -/
def beforeAt (bytes : List UInt8) : Nat → Before
  | 0 => .marked
  | index + 1 => (row? bytes index).elim .marked (beforeAt bytes index).next

/-- The line of the row with a number, if it has one. -/
def lineAt? (bytes : List UInt8) (index : Nat) : Option Line :=
  (row? bytes index).bind ((beforeAt bytes index).line? (rowWidth * index))

theorem linesFrom_cons (address : Nat) (before : Before) (row : List UInt8)
    (later : List (List UInt8)) :
    linesFrom address before (row :: later) =
      (before.line? address row).toList ++
        linesFrom (address + rowWidth) (before.next row) later := by
  simp only [linesFrom, Before.line?, Before.next]
  split
  · cases before <;> rfl
  · rfl

/-- From each row on, the lines are those of the rows. -/
theorem linesFrom_drop (bytes : List UInt8) (index : Nat) :
    linesFrom (rowWidth * index) (beforeAt bytes index) ((rows rowWidth bytes).drop index) =
      (List.range' index ((rows rowWidth bytes).drop index).length).filterMap (lineAt? bytes) := by
  induction left : (rows rowWidth bytes).drop index generalizing index with
  | nil => rfl
  | cons row rest inductionHypothesis =>
    obtain ⟨found, behind⟩ := row?_of_drop_eq_cons left
    have later := inductionHypothesis (index + 1) behind
    rw [beforeAt, found, Option.elim_some, Nat.mul_succ] at later
    rw [linesFrom_cons, later, List.length_cons, List.range'_succ, List.filterMap_cons, lineAt?,
      found, Option.bind_some]
    cases (beforeAt bytes index).line? (rowWidth * index) row <;> rfl

theorem lines_eq_filterMap (bytes : List UInt8) :
    lines bytes = (List.range (rows rowWidth bytes).length).filterMap (lineAt? bytes) := by
  rw [List.range_eq_range']
  exact linesFrom_drop bytes 0

/-! ## What came before -/

/-- Nothing is to be marked exactly if there is no blank row right before. -/
theorem beforeAt_eq_marked_iff :
    beforeAt bytes index = .marked ↔ ∀ earlier, earlier + 1 = index → ¬ BlankAt bytes earlier := by
  cases index with
  | zero => simp [beforeAt]
  | succ index =>
    simp only [Nat.add_right_cancel_iff, forall_eq]
    cases found : row? bytes index with
    | none => simp [beforeAt, BlankAt, found]
    | some row =>
      rw [beforeAt, found, Option.elim_some, blankAt_iff found]
      unfold Before.next
      split
      · next blank => cases beforeAt bytes index <;> simp [blank]
      · next other => simp [other]

/-- The row right before is the first of its run exactly if a run begins there. -/
theorem beforeAt_eq_blank_iff :
    beforeAt bytes index = .blank ↔ ∃ earlier, earlier + 1 = index ∧ OpensRun bytes earlier := by
  cases index with
  | zero => simp [beforeAt]
  | succ index =>
    simp only [Nat.add_right_cancel_iff, exists_eq_left, OpensRun, ← beforeAt_eq_marked_iff]
    cases found : row? bytes index with
    | none => simp [beforeAt, BlankAt, found]
    | some row =>
      rw [beforeAt, found, Option.elim_some, blankAt_iff found]
      unfold Before.next
      split
      · next blank => cases beforeAt bytes index <;> simp [blank]
      · next other => simp [other]

/-! ## Which rows are shown or marked -/

theorem Before.line?_eq_row_iff {before : Before} {place address : Nat}
    {shown : List UInt8} :
    before.line? place shown = some (.row address row) ↔
      address = place ∧ shown = row ∧ (¬ isBlank shown = true ∨ before = .marked) := by
  unfold Before.line?
  split
  · next blank => cases before <;> simp [blank, eq_comm]
  · next other => simp [other, eq_comm]

theorem Before.line?_eq_repeated_iff {before : Before} {place : Nat} {shown : List UInt8} :
    before.line? place shown = some .repeated ↔ isBlank shown = true ∧ before = .blank := by
  unfold Before.line?
  split
  · next blank => cases before <;> simp [blank]
  · next other => simp [other]

/-- A row is shown if it has a byte other than zero, or is the first of a run. -/
theorem lineAt?_eq_row_iff {address : Nat} :
    lineAt? bytes index = some (.row address row) ↔
      address = rowWidth * index ∧ row? bytes index = some row ∧
        ((∃ byte ∈ row, byte ≠ 0) ∨ OpensRun bytes index) := by
  cases found : row? bytes index with
  | none => simp [lineAt?, found]
  | some shown =>
    rw [lineAt?, found, Option.bind_some, Before.line?_eq_row_iff, Option.some_inj, OpensRun,
      ← beforeAt_eq_marked_iff, blankAt_iff found]
    refine and_congr_right fun _ => and_congr_right fun same => ?_
    have other : (∃ byte ∈ row, byte ≠ 0) ↔ ¬ isBlank shown = true := by
      simp [isBlank_iff, same]
    rw [other]
    by_cases blank : isBlank shown = true <;> simp [blank]

/-- A row is marked if it is the second of a run. -/
theorem lineAt?_eq_repeated_iff :
    lineAt? bytes index = some .repeated ↔
      BlankAt bytes index ∧ ∃ earlier, earlier + 1 = index ∧ OpensRun bytes earlier := by
  cases found : row? bytes index with
  | none => simp [lineAt?, BlankAt, found]
  | some shown =>
    rw [lineAt?, found, Option.bind_some, Before.line?_eq_repeated_iff, blankAt_iff found,
      beforeAt_eq_blank_iff]

end Chip8.Dump
