import Chip8.Frame.Texture
import Chip8.Proofs.Frame

/-!
# A texture shows its frame

A texture comes apart into the rows of its frame (`rowsOf_eq`), and each pixel stands in it
at a place of its own (`bytes_at`). Where the two colours differ, the colour of a pixel tells
its level, so that the frame can be read off its texture (`eq_of_bytes_eq`).
-/

namespace Chip8.Texture

variable {frame other : Frame} {foreground background : Colour}

/-! ## The rows of a texture -/

/-- The channels of a row of pixels. -/
def paintedRow (foreground background : Colour) (row : Vector UInt8 64) : List UInt8 :=
  row.toList.flatMap fun level => (paint foreground background level).channels

theorem length_paintedRow (foreground background : Colour) (row : Vector UInt8 64) :
    (paintedRow foreground background row).length = rowWidth := by
  simp [paintedRow, Colour.channels, List.length_flatMap, List.map_const', rowWidth, Frame.width]

theorem bytes_eq (frame : Frame) (foreground background : Colour) :
    bytes frame foreground background =
      (frame.toList.map (paintedRow foreground background)).flatten := rfl

theorem length_of_mem_painted {row : List UInt8}
    (member : row ∈ frame.toList.map (paintedRow foreground background)) :
    row.length = rowWidth := by
  obtain ⟨pixels, -, rfl⟩ := List.mem_map.mp member
  exact length_paintedRow foreground background pixels

/-- A texture comes apart into the rows of its frame, in order. -/
theorem rowsOf_eq (frame : Frame) (foreground background : Colour) :
    rowsOf frame foreground background = frame.toList.map (paintedRow foreground background) :=
  rows_flatten (by decide) fun _ => length_of_mem_painted

theorem length_bytes (frame : Frame) (foreground background : Colour) :
    (bytes frame foreground background).length = 64 * 32 * 3 := by
  have widths : (frame.toList.map (paintedRow foreground background)).map List.length =
      List.replicate 32 rowWidth := by
    simp [Function.comp_def, length_paintedRow, List.map_const']
  rw [bytes_eq, List.length_flatten, widths]
  rfl

/-! ## The place of a pixel -/

/-- Where in a texture the channels of a pixel start. -/
def position (pixel : Pixel) : Nat :=
  (64 * pixel.y + pixel.x) * 3

theorem getElem?_paintedRow (foreground background : Colour) (row : Vector UInt8 64) (x : Fin 64)
    {channel : Nat} (inside : channel < 3) :
    (paintedRow foreground background row)[3 * x.val + channel]? =
      (paint foreground background row[x]).channels[channel]? := by
  have uniform : ∀ channels ∈ row.toList.map fun level =>
      (paint foreground background level).channels, channels.length = 3 := by
    simp [Colour.channels]
  rw [paintedRow, List.flatMap_def, getElem?_flatten uniform x.val inside]
  simp

theorem getElem?_bytes (frame : Frame) (foreground background : Colour) (pixel : Pixel)
    {channel : Nat} (inside : channel < 3) :
    (bytes frame foreground background)[position pixel + channel]? =
      (paint foreground background (frame.level pixel)).channels[channel]? := by
  obtain ⟨x, y⟩ := pixel
  have place : position ⟨x, y⟩ + channel = rowWidth * y.val + (3 * x.val + channel) := by
    simp only [position, rowWidth, Frame.width]
    omega
  have within : 3 * x.val + channel < rowWidth := by
    have onScreen : x.val < 64 := x.isLt
    simp only [rowWidth, Frame.width]
    omega
  rw [place, bytes_eq, getElem?_flatten (fun _ => length_of_mem_painted) y.val within]
  simp [getElem?_paintedRow, inside, Frame.level]

/-- The three channels of a pixel stand at its place. -/
theorem bytes_at (frame : Frame) (foreground background : Colour) (pixel : Pixel) :
    let colour := paint foreground background (frame.level pixel)
    (bytes frame foreground background)[position pixel]? = some colour.red ∧
      (bytes frame foreground background)[position pixel + 1]? = some colour.green ∧
        (bytes frame foreground background)[position pixel + 2]? = some colour.blue :=
  ⟨getElem?_bytes frame foreground background pixel (by decide : 0 < 3),
    getElem?_bytes frame foreground background pixel (by decide : 1 < 3),
    getElem?_bytes frame foreground background pixel (by decide : 2 < 3)⟩

/-! ## The frame of a texture -/

/-- Two colours tell whether a level is zero. -/
theorem paint_eq_iff (differ : foreground ≠ background) {level level' : UInt8} :
    paint foreground background level = paint foreground background level' ↔
      (level = 0 ↔ level' = 0) := by
  by_cases off : level = 0 <;> by_cases off' : level' = 0 <;>
    simp [paint, off, off', differ, differ.symm]

/-- Pixels that look the same in two textures have the same colour. -/
theorem paint_eq_of_bytes_eq
    (same : bytes other foreground background = bytes frame foreground background)
    (pixel : Pixel) :
    paint foreground background (other.level pixel) =
      paint foreground background (frame.level pixel) := by
  obtain ⟨red, green, blue⟩ := bytes_at other foreground background pixel
  rw [same] at red green blue
  obtain ⟨red', green', blue'⟩ := bytes_at frame foreground background pixel
  rw [red, Option.some_inj] at red'
  rw [green, Option.some_inj] at green'
  rw [blue, Option.some_inj] at blue'
  exact (Colour.mk.injEq ..).mpr ⟨red', green', blue'⟩

/-- Where the colours differ, a texture shows one frame only. -/
theorem eq_of_bytes_eq (binary : frame.Binary) (binary' : other.Binary)
    (differ : foreground ≠ background)
    (same : bytes other foreground background = bytes frame foreground background) :
    other = frame := by
  refine Frame.eq_of_level_eq fun pixel => ?_
  have dark := (paint_eq_iff differ).mp (paint_eq_of_bytes_eq same pixel)
  rcases binary' pixel with off | on
  · rw [off, dark.mp off]
  · rcases binary pixel with off' | on'
    · exact (dark.mpr off').trans off'.symm
    · rw [on, on']

/-! ## Faithfulness -/

/-- The colour of a pixel that is on or off. -/
def shown (foreground background : Colour) (level : UInt8) : Colour :=
  if level = 1 then foreground else background

theorem paint_eq_shown {level : UInt8} (bit : level = 0 ∨ level = 1) :
    paint foreground background level = shown foreground background level := by
  rcases bit with rfl | rfl
  · rfl
  · rfl

/-- The rows of a texture show the rows of its frame, each from left to right. -/
theorem rowsOf_eq_shown (binary : frame.Binary) (foreground background : Colour) :
    rowsOf frame foreground background =
      frame.toList.map fun row =>
        row.toList.flatMap fun level => (shown foreground background level).channels := by
  rw [rowsOf_eq]
  refine List.map_congr_left fun row inFrame => ?_
  rw [paintedRow, List.flatMap_def, List.flatMap_def]
  refine congrArg List.flatten (List.map_congr_left fun level inRow => ?_)
  rw [paint_eq_shown (binary.of_mem inFrame inRow)]

/-- A texture is the image of its frame: it has the three channels of each pixel at the place
of that pixel, in the one colour if the pixel is on and in the other if it is off. Cut into
rows it has the rows of the frame, and no other frame has the same texture in two colours
that differ. -/
theorem bytes_faithful {frame : Frame} (binary : frame.Binary) (foreground background : Colour) :
    (bytes frame foreground background).length = 64 * 32 * 3 ∧
      (∀ pixel : Pixel,
        let place := (64 * pixel.y.val + pixel.x.val) * 3
        let colour := if frame.level pixel = 1 then foreground else background
        (bytes frame foreground background)[place]? = some colour.red ∧
          (bytes frame foreground background)[place + 1]? = some colour.green ∧
            (bytes frame foreground background)[place + 2]? = some colour.blue) ∧
      (rowsOf frame foreground background =
          frame.toList.map fun row => row.toList.flatMap fun level =>
            (if level = 1 then foreground else background).channels) ∧
      (∀ row ∈ rowsOf frame foreground background, row.length = 192) ∧
      (foreground ≠ background → ∀ other : Frame, other.Binary →
        bytes other foreground background = bytes frame foreground background →
          other = frame) := by
  refine ⟨length_bytes frame foreground background, fun pixel => ?_,
    rowsOf_eq_shown binary foreground background, fun row member => ?_,
    fun differ other binary' same => eq_of_bytes_eq binary binary' differ same⟩
  · have placed := bytes_at frame foreground background pixel
    rwa [paint_eq_shown (binary pixel)] at placed
  · rw [rowsOf_eq] at member
    exact length_of_mem_painted member

/-- The last pixel of the screen, alone lit, in two colours that differ in one channel. -/
theorem bytes_faithful_last_pixel :
    let frame := Frame.blank.flip ⟨63, 31⟩
    let amber : Colour := ⟨0xFF, 0xB0, 0x00⟩
    let green : Colour := ⟨0x20, 0xB0, 0x00⟩
    frame.Binary ∧
      (bytes frame amber green)[6141]? = some 0xFF ∧
      (bytes frame amber green)[6138]? = some 0x20 ∧
      bytes Frame.blank amber green ≠ bytes frame amber green := by
  intro frame amber green
  have binary : frame.Binary := Frame.blank_binary.flip ⟨63, 31⟩
  obtain ⟨-, placed, -, -, one⟩ := bytes_faithful binary amber green
  have last : frame.level ⟨63, 31⟩ = 1 := by rw [Frame.level_flip]; decide
  have before : frame.level ⟨62, 31⟩ = 0 := by rw [Frame.level_flip]; decide
  refine ⟨binary, ?_, ?_, fun same => ?_⟩
  · exact (placed ⟨63, 31⟩).1.trans (by rw [last]; rfl)
  · exact (placed ⟨62, 31⟩).1.trans (by rw [before]; rfl)
  · have equal : Frame.blank = frame := one (by decide) Frame.blank Frame.blank_binary same
    rw [← equal] at last
    revert last
    decide

end Chip8.Texture
