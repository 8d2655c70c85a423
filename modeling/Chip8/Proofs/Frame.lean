import Chip8.Frame

/-!
# Pixels of a drawn frame

`Frame.level_flip` says what a flip does to every pixel, and `Frame.level_draw`
what drawing pixels that are all different does. Frames are binary: every pixel
of them is off or on, and no drawing changes that.
-/

namespace Chip8.Frame

/-- Every pixel is off or on. -/
def Binary (frame : Frame) : Prop :=
  ∀ pixel, frame.level pixel = 0 ∨ frame.level pixel = 1

/-- Every level in the rows of a binary frame is off or on. -/
theorem Binary.of_mem {frame : Frame} (binary : frame.Binary) {row : Vector UInt8 64}
    (inFrame : row ∈ frame.toList) {level : UInt8} (inRow : level ∈ row.toList) :
    level = 0 ∨ level = 1 := by
  obtain ⟨y, yBound, rfl⟩ := List.getElem_of_mem inFrame
  obtain ⟨x, xBound, rfl⟩ := List.getElem_of_mem inRow
  rw [Vector.length_toList] at yBound xBound
  exact binary ⟨⟨x, xBound⟩, ⟨y, yBound⟩⟩

/-- A flip changes one pixel and leaves all others. -/
theorem level_flip (frame : Frame) (flipped pixel : Pixel) :
    (frame.flip flipped).level pixel =
      if pixel = flipped then frame.level pixel ^^^ 1 else frame.level pixel := by
  obtain ⟨x, y⟩ := pixel
  obtain ⟨flippedX, flippedY⟩ := flipped
  by_cases sameRow : flippedY = y
  · subst sameRow
    by_cases sameColumn : flippedX = x
    · subst sameColumn
      simp [flip, level]
    · have differs : flippedX.val ≠ x.val := fun equal => sameColumn (Fin.ext equal)
      simp [flip, level, differs, Ne.symm sameColumn]
  · have differs : flippedY.val ≠ y.val := fun equal => sameRow (Fin.ext equal)
    simp [flip, level, differs, Ne.symm sameRow]

/-- Frames with the same levels are the same. -/
theorem eq_of_level_eq {frame other : Frame}
    (same : ∀ pixel, frame.level pixel = other.level pixel) : frame = other := by
  apply Vector.ext
  intro row rowBound
  apply Vector.ext
  intro column columnBound
  exact same ⟨⟨column, columnBound⟩, ⟨row, rowBound⟩⟩

/-- Drawing pixels that are all different flips each of them and leaves all others. -/
theorem level_draw (frame : Frame) {pixels : List Pixel} (distinct : pixels.Nodup)
    (pixel : Pixel) :
    (frame.draw pixels).frame.level pixel =
      if pixel ∈ pixels then frame.level pixel ^^^ 1 else frame.level pixel := by
  suffices plotted : ∀ drawing : Drawing,
      (pixels.foldl Drawing.plot drawing).frame.level pixel =
        if pixel ∈ pixels then drawing.frame.level pixel ^^^ 1 else drawing.frame.level pixel from
    plotted ⟨frame, false⟩
  induction pixels with
  | nil => exact fun _ => rfl
  | cons first rest inductionHypothesis =>
    obtain ⟨once, later⟩ := List.nodup_cons.mp distinct
    intro drawing
    have flipped : (drawing.plot first).frame.level pixel =
        if pixel = first then drawing.frame.level pixel ^^^ 1 else drawing.frame.level pixel :=
      drawing.frame.level_flip first pixel
    rw [List.foldl_cons, inductionHypothesis later, flipped]
    by_cases same : pixel = first
    · subst same
      simp [once]
    · simp [same]

/-- Drawing changes none but the given pixels. -/
theorem mem_of_level_draw_ne {frame : Frame} {pixels : List Pixel} {pixel : Pixel}
    (distinct : pixels.Nodup)
    (changed : (frame.draw pixels).frame.level pixel ≠ frame.level pixel) : pixel ∈ pixels := by
  refine Classical.byContradiction fun outside => changed ?_
  rw [level_draw frame distinct, if_neg outside]

/-- Drawing pixels that are all different puts a lit one out exactly if one of them was lit. -/
theorem collided_draw_iff (frame : Frame) {pixels : List Pixel} (distinct : pixels.Nodup) :
    (frame.draw pixels).collided = true ↔ ∃ pixel ∈ pixels, frame.level pixel = 1 := by
  suffices plotted : ∀ drawing : Drawing,
      (pixels.foldl Drawing.plot drawing).collided = true ↔
        drawing.collided = true ∨ ∃ pixel ∈ pixels, drawing.frame.level pixel = 1 by
    simpa [draw] using plotted ⟨frame, false⟩
  induction pixels with
  | nil => simp
  | cons first rest inductionHypothesis =>
    obtain ⟨once, later⟩ := List.nodup_cons.mp distinct
    intro drawing
    -- The first pixel is not flipped again, so the others still have their old levels.
    have untouched : ∀ pixel ∈ rest,
        (drawing.plot first).frame.level pixel = drawing.frame.level pixel := by
      intro pixel member
      have differs : pixel ≠ first := fun same => once (same ▸ member)
      exact (drawing.frame.level_flip first pixel).trans (if_neg differs)
    have remaining : (∃ pixel ∈ rest, (drawing.plot first).frame.level pixel = 1) ↔
        ∃ pixel ∈ rest, drawing.frame.level pixel = 1 :=
      exists_congr fun pixel =>
        and_congr_right fun member => by rw [untouched pixel member]
    rw [List.foldl_cons, inductionHypothesis later, remaining]
    simp [Drawing.plot, or_assoc]

theorem blank_binary : blank.Binary := by
  intro pixel
  left
  simp [level, blank]

/-- A flip turns a pixel that is off on, and one that is on off. -/
theorem Binary.flip {frame : Frame} (binary : frame.Binary) (flipped : Pixel) :
    (frame.flip flipped).Binary := by
  intro pixel
  rw [level_flip]
  split
  · rcases binary pixel with off | on
    · right
      rw [off]
      rfl
    · left
      rw [on]
      rfl
  · exact binary pixel

/-- Flipping pixels one after another keeps a frame binary. -/
theorem Binary.draw {frame : Frame} (binary : frame.Binary) (pixels : List Pixel) :
    (frame.draw pixels).frame.Binary := by
  suffices plotted : ∀ drawing : Drawing, drawing.frame.Binary →
      (pixels.foldl Drawing.plot drawing).frame.Binary from plotted ⟨frame, false⟩ binary
  induction pixels with
  | nil => exact fun _ start => start
  | cons pixel rest inductionHypothesis =>
    intro drawing start
    exact inductionHypothesis (drawing.plot pixel) (start.flip pixel)

end Chip8.Frame
