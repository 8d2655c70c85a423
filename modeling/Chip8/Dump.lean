import Chip8.Rows
import Chip8.Text.Hexadecimal

/-!
# Memory dumps

A dump shows bytes in rows of sixteen behind their address. Of a run of rows
that hold only zeros the first is shown, and one `*` stands for all others.
-/

namespace Chip8.Dump

open Chip8.Text

/-- The number of bytes in a row. -/
def rowWidth : Nat := 16

/-- A line of a dump. -/
inductive Line where
  /-- The bytes from an address on. -/
  | row (address : Nat) (bytes : List UInt8)
  /-- More rows of zeros like the one before. -/
  | repeated
deriving DecidableEq, Repr

/-- The text of a line. -/
def Line.text : Line → String
  | .row address bytes =>
    Hexadecimal.text 3 address ++ ": " ++ " ".intercalate (bytes.map Hexadecimal.byteText)
  | .repeated => "*"

/-- Whether a row holds only zeros. -/
def isBlank (row : List UInt8) : Bool :=
  row.all (· == 0)

/-- What came before a row: a row with a byte other than zero, or no row; one blank row; or a
run of blank rows that a `*` already stands for. -/
inductive Before where
  | marked
  | blank
  | collapsed
deriving DecidableEq, Repr

/-- The lines for the rows from an address on. -/
def linesFrom (address : Nat) (before : Before) : List (List UInt8) → List Line
  | [] => []
  | row :: rest =>
    let later := address + rowWidth
    if isBlank row then
      match before with
      | .marked => .row address row :: linesFrom later .blank rest
      | .blank => .repeated :: linesFrom later .collapsed rest
      | .collapsed => linesFrom later .collapsed rest
    else
      .row address row :: linesFrom later .marked rest

/-- The lines of a dump of bytes that start at address zero. -/
def lines (bytes : List UInt8) : List Line :=
  linesFrom 0 .marked (rows rowWidth bytes)

/-- The text of a dump, line by line. -/
def text (bytes : List UInt8) : List String :=
  (lines bytes).map Line.text

end Chip8.Dump
