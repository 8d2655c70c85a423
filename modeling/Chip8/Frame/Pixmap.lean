import Chip8.Frame.Texture

/-!
# Pixmaps

A frame as a portable pixmap, in which every pixel of the screen is a square of
the same size.
-/

namespace Chip8.Pixmap

/-- The header: the format, the size in points, and the greatest channel value. -/
def header (scale : Nat) : String :=
  "P6\n" ++ toString (scale * Frame.width) ++ " " ++ toString (scale * Frame.height) ++ "\n255\n"

/-- The channels of one row of points. -/
def line (scale : Nat) (foreground background : Colour) (row : List UInt8) : List UInt8 :=
  row.flatMap fun level =>
    (List.replicate scale (Texture.paint foreground background level).channels).flatten

/-- The whole picture. -/
def bytes (scale : Nat) (foreground background : Colour) (frame : Frame) : List UInt8 :=
  (header scale).toUTF8.toList ++
    frame.toList.flatMap fun row =>
      (List.replicate scale (line scale foreground background row.toList)).flatten

end Chip8.Pixmap
