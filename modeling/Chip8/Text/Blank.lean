/-!
# White space at the ends of a text

The characters with the Unicode property `White_Space`, and the removal of such
characters from both ends of a character sequence. `trim_append` says that
between blanks a text without blanks is kept whole.
-/

namespace Chip8.Text.Blank

/-- The code point ranges of the Unicode property `White_Space`, ends included. -/
def ranges : List (Nat × Nat) :=
  [(0x0009, 0x000D), (0x0020, 0x0020), (0x0085, 0x0085), (0x00A0, 0x00A0),
   (0x1680, 0x1680), (0x2000, 0x200A), (0x2028, 0x2029), (0x202F, 0x202F),
   (0x205F, 0x205F), (0x3000, 0x3000)]

/-- Whether a character has the property `White_Space`. -/
def isBlank (character : Char) : Bool :=
  ranges.any fun range => range.1 ≤ character.toNat && character.toNat ≤ range.2

/-- The text without the blanks at its end. -/
def trimEnd (text : List Char) : List Char :=
  (text.reverse.dropWhile isBlank).reverse

/-- The text without the blanks at either end. -/
def trim (text : List Char) : List Char :=
  trimEnd (text.dropWhile isBlank)

theorem trimEnd_append {text after : List Char}
    (solid : ∀ character ∈ text, isBlank character = false)
    (blank : ∀ character ∈ after, isBlank character = true) : trimEnd (text ++ after) = text := by
  have dropped : ∀ character ∈ after.reverse, isBlank character = true := fun character member =>
    blank character (List.mem_reverse.mp member)
  have kept : text.reverse.dropWhile isBlank = text.reverse := by
    cases reversed : text.reverse with
    | nil => rfl
    | cons last rest =>
      have member : last ∈ text := List.mem_reverse.mp (reversed ▸ List.mem_cons_self)
      exact List.dropWhile_cons_of_neg (Bool.eq_false_iff.mp (solid last member))
  rw [trimEnd, List.reverse_append, List.dropWhile_append_of_pos dropped, kept,
    List.reverse_reverse]

/-- A text without blanks is what is left of it between blanks. -/
theorem trim_append {before text after : List Char}
    (blankBefore : ∀ character ∈ before, isBlank character = true)
    (solid : ∀ character ∈ text, isBlank character = false)
    (blankAfter : ∀ character ∈ after, isBlank character = true) :
    trim (before ++ text ++ after) = text := by
  rw [trim, List.append_assoc, List.dropWhile_append_of_pos blankBefore]
  cases text with
  | nil =>
    rw [List.nil_append, ← List.append_nil after, List.dropWhile_append_of_pos blankAfter]
    rfl
  | cons first rest =>
    have kept : ¬ isBlank first = true := Bool.eq_false_iff.mp (solid first List.mem_cons_self)
    rw [List.cons_append, List.dropWhile_cons_of_neg kept, ← List.cons_append]
    exact trimEnd_append solid blankAfter

end Chip8.Text.Blank
