import Chip8.Colour
import Chip8.Frame
import Chip8.Rows

/-!
# Textures

A texture is a frame as a flat sequence of colour channels, three for each
pixel, row by row from the top.
-/

namespace Chip8.Texture

/-- The colour in which a level is painted. -/
def paint (foreground background : Colour) (level : UInt8) : Colour :=
  if level = 0 then background else foreground

/-- The channels of all pixels. -/
def bytes (frame : Frame) (foreground background : Colour) : List UInt8 :=
  frame.toList.flatMap fun row =>
    row.toList.flatMap fun level => (paint foreground background level).channels

/-- The number of channels in a row of pixels. -/
def rowWidth : Nat := 3 * Frame.width

/-- The channels, cut into the rows in which they are handed to a display. -/
def rowsOf (frame : Frame) (foreground background : Colour) : List (List UInt8) :=
  rows rowWidth (bytes frame foreground background)

end Chip8.Texture
