import Chip8.Memory

/-!
# The built-in font

Sixteen hexadecimal glyphs of five bytes each, at the start of memory. A glyph
is four pixels wide, so that only the high nibble of each byte is used.
-/

namespace Chip8.Font

/-- The address of the first glyph. -/
def start : Nat := 0

/-- The number of bytes of a glyph. -/
def glyphSize : UInt16 := 5

/-- The glyphs of the digits 0 to F, in order. -/
def glyphs : List UInt8 :=
  [0xF0, 0x90, 0x90, 0x90, 0xF0,
   0x20, 0x60, 0x20, 0x20, 0x70,
   0xF0, 0x10, 0xF0, 0x80, 0xF0,
   0xF0, 0x10, 0xF0, 0x10, 0xF0,
   0x90, 0x90, 0xF0, 0x10, 0x10,
   0xF0, 0x80, 0xF0, 0x10, 0xF0,
   0xF0, 0x80, 0xF0, 0x90, 0xF0,
   0xF0, 0x10, 0x20, 0x40, 0x40,
   0xF0, 0x90, 0xF0, 0x90, 0xF0,
   0xF0, 0x90, 0xF0, 0x10, 0xF0,
   0xF0, 0x90, 0xF0, 0x90, 0x90,
   0xE0, 0x90, 0xE0, 0x90, 0xE0,
   0xF0, 0x80, 0x80, 0x80, 0xF0,
   0xE0, 0x90, 0x90, 0x90, 0xE0,
   0xF0, 0x80, 0xF0, 0x80, 0xF0,
   0xF0, 0x80, 0xF0, 0x80, 0x80]

/-- Memory that holds the font and nothing else. -/
def memory : Memory := overlay Memory.blank start glyphs

end Chip8.Font
