import Chip8.Proofs.Machine.Sequence

/-!
# What a draw leaves on the screen

A word of family D draws a sprite. `Drawn` describes the machine after it pixel
by pixel, without the order in which pixels are flipped: `covers` tells for each
pixel of the screen whether the sprite has a set bit there, and the flag tells
whether one of these pixels was lit. `draw_pixelwise` says that every draw whose
sprite lies in memory comes out like this.

Position and sprite are those before the word, also where one of its registers
is the flag register. Nothing wraps at an edge of the screen, and the levels of
the frame may be any bytes.
-/

namespace Chip8.Machine

/-- Whether the sprite of a word puts a set bit on a pixel. Its left upper corner is held by two
registers, it is eight columns wide and as high as the word says, and the most significant bit of
a byte is at the left. -/
def covers (machine : Machine) (word : Word) (pixel : Pixel) : Bool :=
  let left := (machine.v.read word.x).toNat
  let top := (machine.v.read word.y).toNat
  let row := machine.memory[machine.i.toNat + (pixel.y.val - top)]?.getD 0
  decide (left ≤ pixel.x.val ∧ pixel.x.val < left + 8) &&
    decide (top ≤ pixel.y.val ∧ pixel.y.val < top + word.low.val) &&
    row.toNat.testBit (7 - (pixel.x.val - left))

/-- The next machine differs from a machine by the sprite that a word has drawn. -/
structure Drawn (machine : Machine) (word : Word) (next : Machine) : Prop where
  /-- A pixel is flipped exactly if the sprite covers it. -/
  level (pixel : Pixel) :
    next.frame.level pixel = machine.frame.level pixel ^^^ flag (machine.covers word pixel)
  /-- A lit pixel goes out. -/
  collision :
    (∃ pixel, machine.frame.level pixel = 1 ∧ machine.covers word pixel = true) →
      next.v.read flagRegister = 1
  /-- No lit pixel goes out. -/
  no_collision :
    (¬ ∃ pixel, machine.frame.level pixel = 1 ∧ machine.covers word pixel = true) →
      next.v.read flagRegister = 0
  registers (register : Register) :
    register ≠ flagRegister → next.v.read register = machine.v.read register
  /-- All else is as before, but for the counter and the flag for the host. -/
  others :
    next = { machine with
      pc := machine.pc + 2
      v := next.v
      frame := next.frame
      redraw := true }

variable {machine next : Machine} {input : Input} {word : Word}

/-- The pixels with a set bit are those that the sprite in memory covers. -/
theorem covers_iff_mem_pixels (fits : machine.i.toNat + word.low.val ≤ Memory.size)
    (pixel : Pixel) :
    machine.covers word pixel = true ↔
      pixel ∈ Sprite.pixels (machine.v.read word.x).toNat (machine.v.read word.y).toNat
        (machine.memory.block machine.i.toNat word.low.val) := by
  simp only [covers, Sprite.mem_pixels, Bool.and_eq_true, decide_eq_true_eq]
  generalize (machine.v.read word.x).toNat = left
  generalize (machine.v.read word.y).toNat = top
  constructor
  · rintro ⟨⟨⟨right, near⟩, below, above⟩, set⟩
    have inside : pixel.y.val - top < word.low.val := by omega
    have found := Memory.getElem?_block machine.memory fits inside
    have bound : machine.i.toNat + (pixel.y.val - top) < 4096 := by
      simp only [Memory.size] at fits
      omega
    rw [Vector.getElem?_eq_getElem bound] at found set
    exact ⟨below, right, near, _, found, set⟩
  · rintro ⟨below, right, near, row, found, set⟩
    have inside : pixel.y.val - top < word.low.val := by
      obtain ⟨inside, -⟩ := List.getElem?_eq_some_iff.mp found
      rwa [Memory.length_block fits] at inside
    rw [Memory.getElem?_block machine.memory fits inside] at found
    rw [found]
    exact ⟨⟨⟨right, near⟩, below, by omega⟩, set⟩

/-- A flip of a level is a flip of its lowest bit. -/
theorem ite_xor_one (level : UInt8) (set : Bool) :
    (if set = true then level ^^^ 1 else level) = level ^^^ flag set := by
  cases set
  · exact (UInt8.xor_zero (a := level)).symm
  · rfl

/-- The effect of a draw is as `Drawn` describes it. -/
theorem drawn_effect (machine : Machine) (input : Input) (word : Word)
    (fits : machine.i.toNat + word.low.val ≤ Memory.size) :
    machine.Drawn word (machine.effect input (.draw word.x word.y word.low)) := by
  let pixels := Sprite.pixels (machine.v.read word.x).toNat (machine.v.read word.y).toNat
    (machine.memory.block machine.i.toNat word.low.val)
  have distinct : pixels.Nodup := Sprite.nodup_pixels _ _ _
  have flagged : (machine.effect input (.draw word.x word.y word.low)).v.read flagRegister =
      flag (machine.frame.draw pixels).collided :=
    (machine.v.read_write flagRegister flagRegister _).trans (if_pos rfl)
  have collided : (machine.frame.draw pixels).collided = true ↔
      ∃ pixel, machine.frame.level pixel = 1 ∧ machine.covers word pixel = true := by
    rw [Frame.collided_draw_iff machine.frame distinct]
    exact exists_congr fun pixel => by rw [covers_iff_mem_pixels fits pixel, and_comm]
  exact
    { level pixel := by
        refine (Frame.level_draw machine.frame distinct pixel).trans ?_
        rw [← ite_xor_one]
        exact ite_congr (propext (covers_iff_mem_pixels fits pixel).symm) (fun _ => rfl)
          fun _ => rfl
      collision lit := by
        rw [flagged, collided.mpr lit]
        rfl
      no_collision dark := by
        rw [flagged, Bool.eq_false_iff.mpr (mt collided.mp dark)]
        rfl
      registers register other :=
        (machine.v.read_write flagRegister register _).trans (if_neg (Ne.symm other))
      others := rfl }

theorem encodes_draw (family : word.family = 0xD) :
    word.Encodes (.draw word.x word.y word.low) :=
  ⟨family, rfl, rfl, rfl⟩

/-- A draw whose sprite lies in memory succeeds if there is room for the counter. -/
theorem executeWord_draw (input : Input) (family : word.family = 0xD)
    (fits : machine.i.toNat + word.low.val ≤ Memory.size)
    (room : machine.pc.toNat + 2 < UInt16.size) :
    ∃ next, machine.executeWord input word = .ok next ∧ machine.Drawn word next := by
  have harmless : machine.fault? (.draw word.x word.y word.low) = none := if_pos fits
  exact ⟨_, executeWord_of_room (encodes_draw family) harmless room,
    drawn_effect machine input word fits⟩

/-- A draw whose sprite lies in memory succeeds if there is room for the counter, and whenever it
succeeds it flips the pixels that the sprite covers and tells in the flag whether one of them was
lit. -/
theorem draw_pixelwise (machine : Machine) (input : Input) (word : Word)
    (family : word.family = 0xD) (fits : machine.i.toNat + word.low.val ≤ Memory.size) :
    (machine.pc.toNat + 2 < UInt16.size →
      ∃ next, machine.executeWord input word = .ok next) ∧
    ∀ next, machine.executeWord input word = .ok next → machine.Drawn word next := by
  constructor
  · intro room
    obtain ⟨next, executed, -⟩ := executeWord_draw input family fits room
    exact ⟨next, executed⟩
  · intro next executed
    rw [eq_effect_of_encodes (encodes_draw family) executed]
    exact drawn_effect machine input word fits

/-- The flag register holds the left edge of a glyph that is clipped at the right. The lit pixel in
the corner of the screen goes out, and the flag register tells so. -/
theorem draw_pixelwise_corner :
    let machine := { fresh.setRegister 0xF 62 with frame := Frame.blank.flip ⟨63, 0⟩ }
    Word.family 0xDF05 = 0xD ∧ machine.i.toNat + (Word.low 0xDF05).val ≤ Memory.size ∧
      ∃ next, machine.executeWord ⟨Keypad.released, 0⟩ 0xDF05 = .ok next ∧
        machine.Drawn 0xDF05 next ∧ next.frame.level ⟨62, 0⟩ = 1 ∧
        next.frame.level ⟨63, 0⟩ = 0 ∧ next.frame.level ⟨0, 0⟩ = 0 ∧ next.v.read 0xF = 1 := by
  intro machine
  have family : Word.family 0xDF05 = 0xD := by decide
  have fits : machine.i.toNat + (Word.low 0xDF05).val ≤ Memory.size := by decide
  have drawn := draw_pixelwise machine ⟨Keypad.released, 0⟩ 0xDF05 family fits
  obtain ⟨next, executed⟩ := drawn.1 (by decide)
  have law := drawn.2 next executed
  refine ⟨family, fits, next, executed, law, ?_, ?_, ?_, law.collision ⟨⟨63, 0⟩, ?_⟩⟩
  · exact (law.level _).trans (by decide +kernel)
  · exact (law.level _).trans (by decide +kernel)
  · exact (law.level _).trans (by decide +kernel)
  · decide +kernel

end Chip8.Machine
