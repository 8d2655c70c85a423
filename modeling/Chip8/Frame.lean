/-!
# The screen

A frame is 32 rows of 64 pixels, each of level 0 or 1. Drawing flips pixels one
after another and remembers whether a lit one was among them.
-/

namespace Chip8

/-- The levels of the pixels, by row and column. -/
abbrev Frame := Vector (Vector UInt8 64) 32

/-- A position on the screen. -/
structure Pixel where
  /-- The distance from the left edge. -/
  x : Fin 64
  /-- The distance from the top edge. -/
  y : Fin 32
deriving DecidableEq, Repr

/-- The pixel at the given distances from the left and the top edge, unless it is off screen. -/
def Pixel.at? (x y : Nat) : Option Pixel :=
  if onScreen : x < 64 ∧ y < 32 then
    some ⟨⟨x, onScreen.1⟩, ⟨y, onScreen.2⟩⟩
  else
    none

namespace Frame

/-- The number of pixels in a row. -/
def width : Nat := 64

/-- The number of rows. -/
def height : Nat := 32

/-- The frame with no pixel lit. -/
def blank : Frame := Vector.replicate 32 (Vector.replicate 64 0)

/-- The level of a pixel. -/
def level (frame : Frame) (pixel : Pixel) : UInt8 :=
  frame[pixel.y][pixel.x]

/-- The frame with one pixel flipped. -/
def flip (frame : Frame) (pixel : Pixel) : Frame :=
  frame.set pixel.y (frame[pixel.y].set pixel.x (frame.level pixel ^^^ 1))

/-- A frame in the course of drawing, and whether a lit pixel has been flipped. -/
structure Drawing where
  frame : Frame
  collided : Bool
deriving DecidableEq

/-- Flips one more pixel of a drawing. -/
def Drawing.plot (drawing : Drawing) (pixel : Pixel) : Drawing where
  frame := drawing.frame.flip pixel
  collided := drawing.collided || drawing.frame.level pixel == 1

/-- Flips pixels in order. -/
def draw (frame : Frame) (pixels : List Pixel) : Drawing :=
  pixels.foldl Drawing.plot ⟨frame, false⟩

end Frame

end Chip8
