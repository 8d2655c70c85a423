import Chip8.Proofs.Dump.Lines
import Mathlib.Data.List.Basic

/-!
# The form of a dump

`Canonical` says what a reader of a dump may rely on, in terms of the bytes: which rows
are shown and in which order, and where each `*` stands. The lines before one are those
of the rows before (`lines_split`), so every line can be traced to its row, and a `*` to
the first row of its run (`lines_canonical`).
-/

namespace Chip8.Dump

variable {bytes row : List UInt8} {index : Nat}

/-- The address that a line shows, if it shows one. -/
def Line.address? : Line → Option Nat
  | .row address _ => some address
  | .repeated => none

/-- Lines are the dump of bytes as a reader may expect it. -/
structure Canonical (bytes : List UInt8) (lines : List Line) : Prop where
  /-- The addresses grow. -/
  ascending : (lines.filterMap Line.address?).Pairwise (· < ·)
  /-- A row stands at a multiple of the width with all its bytes. Every row with a byte other
  than zero is shown, and of the others the first of every run. -/
  shown : ∀ address row, .row address row ∈ lines ↔
    ∃ index, address = rowWidth * index ∧ row? bytes index = some row ∧
      ((∃ byte ∈ row, byte ≠ 0) ∨ OpensRun bytes index)
  /-- A run of two blank rows or more has one `*`, right behind its first row. -/
  collapsed : ∀ index, OpensRun bytes index → BlankAt bytes (index + 1) →
    ∃! earlier, ∃ row later, lines = earlier ++ .row (rowWidth * index) row :: .repeated :: later
  /-- A `*` stands right behind the first row of such a run. -/
  marked : ∀ earlier later, lines = earlier ++ .repeated :: later →
    ∃ before index row, earlier = before ++ [.row (rowWidth * index) row] ∧
      OpensRun bytes index ∧ BlankAt bytes (index + 1)
  /-- There are no two `*` in succession. -/
  apart : ∀ earlier later, lines ≠ earlier ++ .repeated :: .repeated :: later

/-- The lines of the rows before one. -/
def linesBefore (bytes : List UInt8) (index : Nat) : List Line :=
  (List.range index).filterMap (lineAt? bytes)

theorem linesBefore_succ {line : Line} (found : lineAt? bytes index = some line) :
    linesBefore bytes (index + 1) = linesBefore bytes index ++ [line] := by
  simp [linesBefore, List.range_succ, found]

theorem lt_length_rows_of_lineAt? {line : Line} (found : lineAt? bytes index = some line) :
    index < (rows rowWidth bytes).length := by
  obtain ⟨row, shown, -⟩ := Option.bind_eq_some_iff.mp found
  rw [← getElem?_rows_rowWidth] at shown
  exact (List.getElem?_eq_some_iff.mp shown).1

/-- Each line is that of one row, behind the lines of the rows before. -/
theorem lines_split {earlier later : List Line} {line : Line}
    (split : lines bytes = earlier ++ line :: later) :
    ∃ index, lineAt? bytes index = some line ∧ earlier = linesBefore bytes index := by
  rw [lines_eq_filterMap, List.range_eq_range'] at split
  obtain ⟨first, second, numbers, rfl, rest⟩ := List.filterMap_eq_append_iff.mp split
  obtain ⟨silent, index, others, rfl, unmarked, found, -⟩ := List.filterMap_eq_cons_iff.mp rest
  -- The numbers in front of that of the row are those of the rows before.
  rw [← List.append_assoc] at numbers
  obtain ⟨count, -, front, back⟩ := List.range'_eq_append_iff.mp numbers
  obtain ⟨number, -, -⟩ := List.range'_eq_cons_iff.mp back.symm
  refine ⟨index, found, ?_⟩
  rw [linesBefore, List.range_eq_range', ← number, Nat.mul_one, Nat.zero_add, ← front,
    List.filterMap_append, List.filterMap_eq_nil_iff.mpr unmarked, List.append_nil]

/-- The line of a row stands behind the lines of the rows before. -/
theorem exists_lines_split {line : Line} (found : lineAt? bytes index = some line) :
    ∃ later, lines bytes = linesBefore bytes index ++ line :: later := by
  obtain ⟨further, count⟩ := Nat.exists_eq_add_of_lt (lt_length_rows_of_lineAt? found)
  refine ⟨(List.range' (index + 1) further).filterMap (lineAt? bytes), ?_⟩
  rw [lines_eq_filterMap, linesBefore, count, Nat.add_assoc, List.range_eq_range',
    List.range_eq_range', ← List.range'_append_1, Nat.zero_add, List.range'_succ,
    List.filterMap_append, List.filterMap_cons_some found]

theorem mem_lines_iff {line : Line} :
    line ∈ lines bytes ↔ ∃ index, lineAt? bytes index = some line := by
  constructor
  · intro member
    obtain ⟨earlier, later, split⟩ := List.append_of_mem member
    obtain ⟨index, found, -⟩ := lines_split split
    exact ⟨index, found⟩
  · rintro ⟨index, found⟩
    obtain ⟨later, split⟩ := exists_lines_split found
    rw [split]
    exact List.mem_append_right _ List.mem_cons_self

/-- The line of a row shows its own address or none. -/
theorem address_of_lineAt? {line : Line} {address : Nat} (found : lineAt? bytes index = some line)
    (shows : line.address? = some address) : address = rowWidth * index := by
  cases line with
  | row place row =>
    obtain ⟨rfl, -, -⟩ := lineAt?_eq_row_iff.mp found
    exact (Option.some.inj shows).symm
  | repeated => cases shows

theorem ascending_lines (bytes : List UInt8) :
    ((lines bytes).filterMap Line.address?).Pairwise (· < ·) := by
  rw [lines_eq_filterMap, List.pairwise_filterMap, List.pairwise_filterMap]
  refine List.pairwise_lt_range.imp ?_
  intro first second before line found another foundLater address shows later showsLater
  rw [address_of_lineAt? found shows, address_of_lineAt? foundLater showsLater]
  exact Nat.mul_lt_mul_of_pos_left before (by decide)

/-- The first row of a run is shown. -/
theorem exists_lineAt?_of_opensRun (opens : OpensRun bytes index) :
    ∃ row, lineAt? bytes index = some (.row (rowWidth * index) row) := by
  obtain ⟨⟨row, found, -⟩, -⟩ := id opens
  exact ⟨row, lineAt?_eq_row_iff.mpr ⟨rfl, found, .inr opens⟩⟩

/-- The lines of a dump have the form that a reader may expect. -/
theorem lines_canonical (bytes : List UInt8) : Canonical bytes (lines bytes) := by
  have marked : ∀ earlier later, lines bytes = earlier ++ .repeated :: later →
      ∃ before index row, earlier = before ++ [.row (rowWidth * index) row] ∧
        OpensRun bytes index ∧ BlankAt bytes (index + 1) := by
    intro earlier later split
    obtain ⟨second, found, rfl⟩ := lines_split split
    obtain ⟨blank, index, rfl, opens⟩ := lineAt?_eq_repeated_iff.mp found
    obtain ⟨row, first⟩ := exists_lineAt?_of_opensRun opens
    exact ⟨linesBefore bytes index, index, row, linesBefore_succ first, opens, blank⟩
  refine ⟨ascending_lines bytes, ?_, ?_, marked, ?_⟩
  · intro address row
    simp only [mem_lines_iff, lineAt?_eq_row_iff]
  · intro index opens blank
    obtain ⟨row, first⟩ := exists_lineAt?_of_opensRun opens
    have second := lineAt?_eq_repeated_iff.mpr ⟨blank, index, rfl, opens⟩
    obtain ⟨later, split⟩ := exists_lines_split second
    rw [linesBefore_succ first, List.append_assoc] at split
    refine ⟨linesBefore bytes index, ⟨row, later, split⟩, ?_⟩
    -- An address tells which row is shown, and so which lines are in front.
    rintro earlier ⟨another, rest, same⟩
    obtain ⟨other, found, rfl⟩ := lines_split same
    obtain ⟨address, -, -⟩ := lineAt?_eq_row_iff.mp found
    rw [Nat.eq_of_mul_eq_mul_left (by decide) address]
  · intro earlier later split
    rw [List.append_cons] at split
    obtain ⟨before, index, row, last, -, -⟩ := marked _ _ split
    cases (List.append_inj' last rfl).2

end Chip8.Dump
