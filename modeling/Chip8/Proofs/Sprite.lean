import Chip8.Frame.Sprite

/-!
# The pixels of a sprite

`mem_pixels` says which pixels a sprite covers: those of its set bits that are on
the screen. It covers each of them once (`nodup_pixels`), so that none is flipped
back when the sprite is drawn.
-/

namespace Chip8

/-- The pixel at two distances is on the screen and has these distances. -/
theorem Pixel.at?_eq_some_iff {x y : Nat} {pixel : Pixel} :
    Pixel.at? x y = some pixel ↔ x = pixel.x.val ∧ y = pixel.y.val := by
  unfold Pixel.at?
  constructor
  · intro found
    split at found
    · cases found
      exact ⟨rfl, rfl⟩
    · cases found
  · rintro ⟨rfl, rfl⟩
    rw [dif_pos ⟨pixel.x.isLt, pixel.y.isLt⟩]

namespace Sprite

/-- A row covers the pixels of its set bits, eight columns from the left edge on. -/
theorem mem_rowPixels {left top : Nat} {row : UInt8} {pixel : Pixel} :
    pixel ∈ rowPixels left top row ↔
      pixel.y.val = top ∧ left ≤ pixel.x.val ∧ pixel.x.val < left + 8 ∧
        isSet row (pixel.x.val - left) = true := by
  simp only [rowPixels, List.mem_filterMap, List.mem_range, Option.ite_none_right_eq_some,
    Pixel.at?_eq_some_iff]
  constructor
  · rintro ⟨column, inside, set, onColumn, onRow⟩
    have distance : pixel.x.val - left = column := by omega
    rw [distance]
    exact ⟨onRow.symm, by omega, by omega, set⟩
  · rintro ⟨onRow, after, before, set⟩
    exact ⟨pixel.x.val - left, by omega, set, by omega, onRow.symm⟩

/-- A sprite covers a pixel if its row at that height has the bit of that column set. -/
theorem mem_pixels {left top : Nat} {sprite : List UInt8} {pixel : Pixel} :
    pixel ∈ pixels left top sprite ↔
      top ≤ pixel.y.val ∧ left ≤ pixel.x.val ∧ pixel.x.val < left + 8 ∧
        ∃ row, sprite[pixel.y.val - top]? = some row ∧
          isSet row (pixel.x.val - left) = true := by
  induction sprite generalizing top with
  | nil => simp [pixels]
  | cons row rest inductionHypothesis =>
    rw [pixels, List.mem_append, mem_rowPixels, inductionHypothesis]
    rcases Nat.lt_trichotomy pixel.y.val top with above | onRow | below
    · omega
    · have notBelow : ¬ top + 1 ≤ top := Nat.not_succ_le_self top
      simp [onRow, notBelow]
    · obtain ⟨distance, height⟩ := Nat.exists_eq_add_of_lt below
      have later : pixel.y.val - top = distance + 1 := by omega
      have offset : pixel.y.val - (top + 1) = distance := by omega
      have notOnRow : pixel.y.val ≠ top := by omega
      have under : top + 1 ≤ pixel.y.val := below
      have reached : top ≤ pixel.y.val := Nat.le_of_lt below
      simp [later, offset, notOnRow, under, reached]

/-- A row covers no pixel twice. -/
theorem nodup_rowPixels (left top : Nat) (row : UInt8) : (rowPixels left top row).Nodup := by
  rw [rowPixels, List.Nodup, List.pairwise_filterMap]
  refine List.nodup_range.imp fun differs pixel covered other alsoCovered same => differs ?_
  subst same
  rw [Option.ite_none_right_eq_some, Pixel.at?_eq_some_iff] at covered alsoCovered
  exact Nat.add_left_cancel (covered.2.1.trans alsoCovered.2.1.symm)

/-- A sprite covers no pixel twice, for its rows lie at different heights. -/
theorem nodup_pixels (left top : Nat) (sprite : List UInt8) : (pixels left top sprite).Nodup := by
  induction sprite generalizing top with
  | nil => exact List.nodup_nil
  | cons row rest inductionHypothesis =>
    refine List.nodup_append.mpr
      ⟨nodup_rowPixels left top row, inductionHypothesis (top + 1), ?_⟩
    rintro pixel onRow other below rfl
    have height : pixel.y.val = top := (mem_rowPixels.mp onRow).1
    have lower : top + 1 ≤ pixel.y.val := (mem_pixels.mp below).1
    omega

end Sprite

end Chip8
