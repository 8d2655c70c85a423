import Chip8.Frame

/-!
# Sprites

A sprite is a list of bytes, each of them a row of eight pixels with the most
significant bit at the left. Placed at a position it covers the pixels of its
set bits. What lies past the right or the bottom edge is clipped, not wrapped.
-/

namespace Chip8.Sprite

/-- Whether a row has its bit set in a column, counted from the left. -/
def isSet (row : UInt8) (column : Nat) : Bool :=
  row.toNat.testBit (7 - column)

/-- The pixels that a row covers, from left to right. -/
def rowPixels (left top : Nat) (row : UInt8) : List Pixel :=
  (List.range 8).filterMap fun column =>
    if isSet row column then Pixel.at? (left + column) top else none

/-- The pixels that a sprite covers, row by row. -/
def pixels (left top : Nat) : List UInt8 → List Pixel
  | [] => []
  | row :: rest => rowPixels left top row ++ pixels left (top + 1) rest

end Chip8.Sprite
