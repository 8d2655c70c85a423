/-!
# Decimal numbers

Numbers of one or more ASCII digits, with or without a sign in front. Leading
zeros are allowed, and nothing else is.
-/

namespace Chip8.Text.Decimal

/-- The value of an ASCII digit. -/
def digitValue? (character : Char) : Option Nat :=
  if character.isDigit then some (character.toNat - '0'.toNat) else none

/-- The number of digits that follow those already read. -/
def continued? (read : Nat) : List Char → Option Nat
  | [] => some read
  | character :: rest => do
    let value ← digitValue? character
    continued? (10 * read + value) rest

/-- A number without a sign. -/
def digits? : List Char → Option Nat
  | [] => none
  | text => continued? 0 text

/-- A number that may have a plus sign. -/
def natural? : List Char → Option Nat
  | '+' :: rest => digits? rest
  | text => digits? text

/-- A number that may have either sign. -/
def integer? : List Char → Option Int
  | '-' :: rest => (digits? rest).map fun value => -(value : Int)
  | text => (natural? text).map fun value => (value : Int)

end Chip8.Text.Decimal
