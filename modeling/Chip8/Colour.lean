import Chip8.Text.Blank
import Chip8.Text.Hexadecimal

/-!
# Colours

A colour is written as six hexadecimal digits, two for each channel, behind an
optional `#` and between any blanks. A channel may also be one digit behind a
plus sign, as a signed number would be. The errors quote the text as it was
given, blanks and sign included.
-/

namespace Chip8

open Chip8.Text

/-- A colour by its three channels. -/
structure Colour where
  red : UInt8
  green : UInt8
  blue : UInt8
deriving DecidableEq, Repr

namespace Colour

/-- The default colour of lit pixels. -/
def white : Colour := ⟨0xFF, 0xFF, 0xFF⟩

/-- The default colour of unlit pixels. -/
def black : Colour := ⟨0x00, 0x00, 0x00⟩

/-- The channels in order. -/
def channels (colour : Colour) : List UInt8 :=
  [colour.red, colour.green, colour.blue]

/-- The six digits of a colour. -/
def text (colour : Colour) : String :=
  Hexadecimal.bytesText colour.channels

/-- Why a text is no colour. -/
inductive ParseError where
  /-- What is left of the text has not the six ASCII characters of a colour. -/
  | shape (raw : String)
  /-- A channel is not a hexadecimal number. -/
  | digits (raw : String)
deriving DecidableEq, Repr

/-- The wording of a parse error, with the text as it was given. -/
def ParseError.message : ParseError → String
  | .shape raw => "expected a colour like FFB000, got '" ++ raw ++ "'"
  | .digits raw => "invalid hex colour '" ++ raw ++ "'"

/-- The value of a channel: two digits, or a plus sign and one digit. -/
def channel? (first second : Char) : Option UInt8 := do
  let low ← Hexadecimal.digitValue? second
  if first = '+' then
    return UInt8.ofNat low.val
  else
    let high ← Hexadecimal.digitValue? first
    return UInt8.ofNat (16 * high.val + low.val)

/-- The colour of six characters. -/
def ofCharacters? : List Char → Option Colour
  | [r₁, r₂, g₁, g₂, b₁, b₂] => do
    let red ← channel? r₁ r₂
    let green ← channel? g₁ g₂
    let blue ← channel? b₁ b₂
    return ⟨red, green, blue⟩
  | _ => none

/-- The text without a leading number sign. -/
def dropSign : List Char → List Char
  | '#' :: rest => rest
  | text => text

/-- Whether a text has the shape of a colour: six characters, all of them ASCII. -/
def hasShape (text : List Char) : Bool :=
  text.length == 6 && text.all fun character => character.toNat < 128

/-- Reads a colour. -/
def parse (raw : String) : Except ParseError Colour :=
  let body := dropSign (Blank.trim raw.toList)
  if hasShape body then
    match ofCharacters? body with
    | some colour => .ok colour
    | none => .error (.digits raw)
  else
    .error (.shape raw)

end Colour

end Chip8
