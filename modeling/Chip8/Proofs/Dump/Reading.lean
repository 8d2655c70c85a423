import Chip8.Proofs.Dump.Canonical
import Chip8.Proofs.Dump.LookBack
import Chip8.Proofs.Text.Hexadecimal

/-!
# Reading a dump back

A dump and the number of bytes in it give all bytes back. The text of a line is read at
its blanks (`Line.ofText?`). Behind a `*` the bytes go on at the address of the next row
shown, or at the end, and all bytes up to there are zero (`bytesFrom`).

`bytesFrom_linesFrom` follows the dump row by row. While rows are skipped nothing has
been read of them yet, so it says how far behind the reader is.
-/

namespace Chip8.Dump

open Chip8.Text

/-! ## The text of a line -/

/-- Each text that is written for an item reads back, and so do all of them. -/
theorem mapM_map_eq_some {Item Text : Type} {write : Item → Text} {read? : Text → Option Item}
    {items : List Item} (reads : ∀ item ∈ items, read? (write item) = some item) :
    (items.map write).mapM read? = some items := by
  induction items with
  | nil => rfl
  | cons item rest inductionHypothesis =>
    obtain ⟨first, others⟩ := List.forall_mem_cons.mp reads
    rw [List.map_cons, List.mapM_cons, first, inductionHypothesis others]
    rfl

/-- The byte that digits stand for. -/
def byte? (text : List Char) : Option UInt8 :=
  (Hexadecimal.number? text).map UInt8.ofNat

theorem byte?_padded (byte : UInt8) : byte? (Hexadecimal.padded 2 byte.toNat) = some byte := by
  rw [byte?, Hexadecimal.number?_padded, Option.map_some, UInt8.ofNat_toNat]

/-- The line that a text stands for: a `*`, or an address with a mark behind it and bytes. -/
def Line.ofText? (text : String) : Option Line :=
  match text.toList.splitOn ' ' with
  | [] => none
  | [['*']] => some .repeated
  | place :: bytes => do
    return .row (← Hexadecimal.number? place.dropLast) (← bytes.mapM byte?)

/-- The text of a row has blanks between the address and the bytes, and nowhere else. -/
theorem splitOn_text_row (address : Nat) (byte : UInt8) (later : List UInt8) :
    (Line.row address (byte :: later)).text.toList.splitOn ' ' =
      (Hexadecimal.padded 3 address ++ [':']) ::
        (byte :: later).map fun byte => Hexadecimal.padded 2 byte.toNat := by
  have pieces : (Line.row address (byte :: later)).text.toList =
      [' '].intercalate ((Hexadecimal.padded 3 address ++ [':']) ::
        (byte :: later).map fun byte => Hexadecimal.padded 2 byte.toNat) := by
    simp [Line.text, Hexadecimal.text, Hexadecimal.byteText, String.toList_intercalate,
      List.intercalate_cons_cons, Function.comp_def]
  rw [pieces, List.splitOn_intercalate _ ?_ (List.cons_ne_nil _ _)]
  intro piece member
  rcases List.mem_cons.mp member with rfl | written
  · simpa using Hexadecimal.blank_not_mem_padded 3 address
  · obtain ⟨byte, -, rfl⟩ := List.mem_map.mp written
    exact Hexadecimal.blank_not_mem_padded 2 byte.toNat

theorem ofText?_text_row (address : Nat) {bytes : List UInt8} (filled : bytes ≠ []) :
    Line.ofText? (Line.row address bytes).text = some (.row address bytes) := by
  obtain ⟨byte, later, rfl⟩ := List.exists_cons_of_ne_nil filled
  have read : ((byte :: later).map fun byte => Hexadecimal.padded 2 byte.toNat).mapM byte? =
      some (byte :: later) := mapM_map_eq_some fun byte _ => byte?_padded byte
  rw [Line.ofText?, splitOn_text_row]
  split
  · next none => cases none
  · next mark => cases (List.cons.inj mark).2
  · next place bytes _ pieces =>
    obtain ⟨rfl, rfl⟩ := List.cons.inj pieces
    rw [List.dropLast_concat, Hexadecimal.number?_padded, read]
    rfl

/-- Every line of a dump reads back. -/
theorem ofText?_text {bytes : List UInt8} {line : Line} (member : line ∈ lines bytes) :
    Line.ofText? line.text = some line := by
  cases line with
  | row address row =>
    obtain ⟨index, -, found, -⟩ := ((lines_canonical bytes).shown address row).mp member
    exact ofText?_text_row address (row?_ne_nil found)
  | repeated => rfl

/-! ## The bytes that lines stand for -/

/-- Where the bytes go on: at the next address, or at the end. -/
def resumeAt (size : Nat) : List Line → Nat
  | [] => size
  | .row address _ :: _ => address
  | .repeated :: later => resumeAt size later

/-- The bytes from a position on that lines stand for, of so many in all. -/
def bytesFrom (size position : Nat) : List Line → List UInt8
  | [] => []
  | .row address row :: later => row ++ bytesFrom size (address + row.length) later
  | .repeated :: later =>
    let next := resumeAt size later
    List.replicate (next - position) 0 ++ bytesFrom size next later

/-- The `*` that stands for the rows that came before, if it is the last line. -/
def Before.pending : Before → List Line
  | .marked | .blank => []
  | .collapsed => [.repeated]

theorem Before.pending_of_ne_collapsed {before : Before} (fresh : before ≠ .collapsed) :
    before.pending = [] := by
  cases before with
  | marked | blank => rfl
  | collapsed => exact absurd rfl fresh

/-- A row is shown, or else it is blank and a `*` stands for it. -/
theorem Before.shown_or_skipped (before : Before) (address : Nat) (row : List UInt8) :
    (before.line? address row = some (.row address row) ∧ before.next row ≠ .collapsed) ∨
      (isBlank row = true ∧ before.pending ++ (before.line? address row).toList = [.repeated] ∧
        before.next row = .collapsed) := by
  unfold Before.line? Before.next
  by_cases blank : isBlank row = true
  · cases before <;> simp [blank, Before.pending]
  · simp [blank]

/-- A blank row holds as many zeros as it is long. -/
theorem eq_replicate_of_isBlank {row : List UInt8} (blank : isBlank row = true) :
    row = List.replicate row.length 0 :=
  List.eq_replicate_iff.mpr ⟨rfl, isBlank_iff.mp blank⟩

/-- Up to a row that is shown all bytes are zero. -/
theorem bytesFrom_pending_row {size start address : Nat} {before : Before} (row : List UInt8)
    (later : List Line) (level : before ≠ .collapsed → start = address) :
    bytesFrom size start (before.pending ++ .row address row :: later) =
      List.replicate (address - start) 0 ++ (row ++ bytesFrom size (address + row.length) later) := by
  cases before with
  | marked | blank => simp [Before.pending, bytesFrom, level]
  | collapsed => rfl

/-- Reading the lines of the bytes left gives those bytes behind the zeros not read so far. -/
theorem bytesFrom_linesFrom {size start position address : Nat} (before : Before)
    {bytes : List UInt8} (whole : position + bytes.length = size)
    (placed : bytes ≠ [] → address = position) (behind : start ≤ position)
    (level : before ≠ .collapsed → start = position) :
    bytesFrom size start (before.pending ++ linesFrom address before (rows rowWidth bytes)) =
      List.replicate (position - start) 0 ++ bytes := by
  fun_induction rows rowWidth bytes generalizing start position address before with
  | case1 =>
    subst whole
    cases before with
    | marked | blank => simp [Before.pending, linesFrom, bytesFrom, level]
    | collapsed => rfl
  | case2 item rest inductionHypothesis =>
    obtain rfl := placed (List.cons_ne_nil item rest)
    have cut : item :: rest = (item :: rest.take (rowWidth - 1)) ++ rest.drop (rowWidth - 1) := by
      rw [List.cons_append, List.take_append_drop]
    have full : rest.drop (rowWidth - 1) ≠ [] →
        (item :: rest.take (rowWidth - 1)).length = rowWidth :=
      length_row_of_more (by decide) item
    rw [cut, List.length_append, ← Nat.add_assoc] at whole
    rw [cut]
    generalize item :: rest.take (rowWidth - 1) = row at full whole ⊢
    generalize rest.drop (rowWidth - 1) = later at full whole inductionHypothesis ⊢
    have aligned : later ≠ [] → address + rowWidth = address + row.length := fun more => by
      rw [full more]
    rw [linesFrom_cons]
    rcases before.shown_or_skipped address row with ⟨shown, fresh⟩ | ⟨blank, star, skipped⟩
    · have read := inductionHypothesis (before.next row) whole aligned (Nat.le_refl _) fun _ => rfl
      rw [Before.pending_of_ne_collapsed fresh, List.nil_append, Nat.sub_self,
        List.replicate_zero, List.nil_append] at read
      rw [shown, Option.toList_some, List.singleton_append, bytesFrom_pending_row row _ level, read]
    · have read := inductionHypothesis .collapsed whole aligned
        (Nat.le_add_right_of_le behind) fun fresh => absurd rfl fresh
      rw [← List.append_assoc, star, skipped]
      refine read.trans ?_
      rw [Nat.sub_add_comm behind, ← List.replicate_append_replicate, List.append_assoc,
        ← eq_replicate_of_isBlank blank]

/-- The bytes that a dump of so many stands for. -/
def decode? (size : Nat) (texts : List String) : Option (List UInt8) := do
  return bytesFrom size 0 (← texts.mapM Line.ofText?)

/-- All lines of a dump read back from their texts. -/
theorem mapM_ofText?_text (bytes : List UInt8) :
    (text bytes).mapM Line.ofText? = some (lines bytes) :=
  mapM_map_eq_some fun _ => ofText?_text

/-- A dump reads back. -/
theorem decode?_text (bytes : List UInt8) : decode? bytes.length (text bytes) = some bytes := by
  have same : bytesFrom bytes.length 0 (lines bytes) = bytes :=
    bytesFrom_linesFrom .marked (Nat.zero_add _) (fun _ => rfl) (Nat.le_refl 0) fun _ => rfl
  rw [decode?, mapM_ofText?_text, Option.bind_eq_bind, Option.bind_some, same]
  rfl

/-- A dump and the number of its bytes give the bytes back, so that no two sequences of one
length have the same dump. Its lines have one form for all bytes, and to find them no row
that reaches past the end is looked at. -/
theorem text_recoverable (bytes : List UInt8) :
    decode? bytes.length (text bytes) = some bytes ∧
      (∀ other : List UInt8, other.length = bytes.length → text other = text bytes →
        other = bytes) ∧
      (text bytes).mapM Line.ofText? = some (lines bytes) ∧ Canonical bytes (lines bytes) ∧
      scan? bytes 0 false (rows rowWidth bytes) = some (lines bytes) := by
  refine ⟨decode?_text bytes, ?_, mapM_ofText?_text bytes, lines_canonical bytes,
    scan?_eq_some bytes⟩
  intro other length same
  have read := decode?_text other
  rw [length, same, decode?_text bytes] at read
  exact (Option.some.inj read).symm

/-- Three rows of zeros have one dump however long the last is, and the number of bytes tells
how long. A byte other than zero in the last row tells sequences of one length apart. -/
theorem text_recoverable_blank :
    text (List.replicate 33 0) = text (List.replicate 48 0) ∧
      decode? 33 (text (List.replicate 48 0)) = some (List.replicate 33 0) ∧
      decode? 48 (text (List.replicate 48 0)) = some (List.replicate 48 0) ∧
      text (List.replicate 47 0 ++ [1]) ≠ text (List.replicate 48 0) := by
  have same : text (List.replicate 33 0) = text (List.replicate 48 0) := by decide +kernel
  refine ⟨same, ?_, (text_recoverable (List.replicate 48 0)).1, ?_⟩
  · rw [← same]
    exact (text_recoverable (List.replicate 33 0)).1
  · intro alike
    have equal := (text_recoverable (List.replicate 48 0)).2.1 (List.replicate 47 0 ++ [1]) rfl alike
    revert equal
    decide

end Chip8.Dump
