import Chip8.Nibble

/-!
# Hexadecimal text

Numbers written in upper-case hexadecimal digits with a least width, and the
value of a digit read in either case. `digitValue?_digit` says that every digit
written here reads back as its own value.
-/

namespace Chip8.Text.Hexadecimal

/-- The upper-case digit of a value below sixteen. -/
def digit (value : Nibble) : Char :=
  Char.ofNat (if value.val < 10 then '0'.toNat + value.val else 'A'.toNat + value.val - 10)

/-- The value of a hexadecimal digit in either case. -/
def digitValue? (character : Char) : Option Nibble :=
  if '0' ≤ character ∧ character ≤ '9' then
    some (Fin.ofNat 16 (character.toNat - '0'.toNat))
  else if 'A' ≤ character ∧ character ≤ 'F' then
    some (Fin.ofNat 16 (character.toNat - 'A'.toNat + 10))
  else if 'a' ≤ character ∧ character ≤ 'f' then
    some (Fin.ofNat 16 (character.toNat - 'a'.toNat + 10))
  else
    none

/-- A written digit reads back as its value. -/
@[simp] theorem digitValue?_digit (value : Nibble) : digitValue? (digit value) = some value := by
  revert value
  decide

/-- The digits of a number, most significant first and without leading zeros. -/
def digits (number : Nat) : List Char :=
  if number < 16 then
    [digit (Fin.ofNat 16 number)]
  else
    digits (number / 16) ++ [digit (Fin.ofNat 16 number)]
termination_by number
decreasing_by omega

/-- The digits of a number, filled up on the left with zeros to a least width. -/
def padded (width number : Nat) : List Char :=
  (digits number).leftpad width '0'

/-- The text of a number with at least `width` digits. -/
def text (width number : Nat) : String :=
  String.ofList (padded width number)

/-- The two digits of a byte. -/
def byteText (byte : UInt8) : String :=
  text 2 byte.toNat

/-- The four digits of a word. -/
def wordText (word : UInt16) : String :=
  text 4 word.toNat

/-- The digits of a byte sequence without separators. -/
def bytesText (bytes : List UInt8) : String :=
  String.join (bytes.map byteText)

end Chip8.Text.Hexadecimal
