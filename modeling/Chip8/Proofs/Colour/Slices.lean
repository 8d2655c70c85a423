import Chip8.Colour
import Chip8.Proofs.Text.Hexadecimal
import Mathlib.Data.String.Basic

/-!
# Reading a colour by byte positions

A reader that counts the bytes of a text and cuts out two at a time has to stay off the
positions inside a character, where no text can be cut (`slice?`). `run_parseSliced` says
that a colour read in this way never asks for such a position, whatever the text: it is the
colour, or the error, that is read character by character.

Each slice is read as a number of any length that may have a plus sign. On two characters
this is how a channel is read (`signedByte?_pair`).
-/

namespace Chip8.Colour

open Chip8.Text

/-! ## Slices -/

/-- The characters between two byte positions of a text, unless one of these lies inside a
character or past the end. -/
def slice? (text : String) (first stop : Nat) : Option (List Char) :=
  if first ≤ stop ∧ String.Pos.Raw.isValid text ⟨first⟩ ∧ String.Pos.Raw.isValid text ⟨stop⟩ then
    some (String.Pos.Raw.extract text ⟨first⟩ ⟨stop⟩).toList
  else
    none

/-- The characters are all from ASCII. -/
def Ascii (text : List Char) : Prop :=
  ∀ character ∈ text, character.toNat < 128

instance (text : List Char) : Decidable (Ascii text) :=
  decidable_of_iff (text.all fun character => character.toNat < 128) (by simp [Ascii])

theorem Ascii.utf8Len_eq {text : List Char} (ascii : Ascii text) :
    String.utf8Len text = text.length := by
  induction text with
  | nil => rfl
  | cons character rest inductionHypothesis =>
    obtain ⟨first, others⟩ := List.forall_mem_cons.mp ascii
    have single : character.utf8Size = 1 := Char.utf8Size_eq_one_iff.mpr (Nat.le_of_lt_succ first)
    rw [String.utf8Len_cons, inductionHypothesis others, single, List.length_cons]

/-- The bytes of a beginning lead to a position where the text can be cut. -/
theorem isValid_append (before after : List Char) :
    String.Pos.Raw.isValid (String.ofList (before ++ after)) ⟨String.utf8Len before⟩ := by
  rw [String.Pos.Raw.isValid_eq_true_iff, String.Pos.Raw.isValid_iff_exists_append]
  refine ⟨String.ofList before, String.ofList after, String.ofList_append, ?_⟩
  rw [String.rawEndPos, String.utf8ByteSize_ofList]

/-- Among ASCII characters every position is that of a character. -/
theorem slice?_of_ascii (before middle after : List Char)
    (ascii : Ascii (before ++ middle ++ after)) :
    slice? (String.ofList (before ++ middle ++ after)) before.length
      (before.length + middle.length) = some middle := by
  have lengthBefore : String.utf8Len before = before.length :=
    Ascii.utf8Len_eq fun character member => ascii character (by simp [member])
  have lengthMiddle : String.utf8Len middle = middle.length :=
    Ascii.utf8Len_eq fun character member => ascii character (by simp [member])
  have first := isValid_append before (middle ++ after)
  have stop := isValid_append (before ++ middle) after
  have cut := String.extract_of_valid before middle after
  rw [← List.append_assoc] at first
  rw [String.utf8Len_append, lengthMiddle] at stop
  rw [lengthMiddle] at cut
  rw [lengthBefore] at first stop cut
  rw [slice?, if_pos ⟨Nat.le_add_right _ _, first, stop⟩, cut, String.toList_ofList]

example : slice? "F\u00e9" 1 2 = none := by decide

/-! ## Channels -/

/-- Two characters are read as a number that may have a plus sign. -/
theorem signedByte?_pair (first second : Char) :
    Hexadecimal.signedByte? [first, second] = channel? first second := by
  by_cases sign : first = '+'
  · simp only [Hexadecimal.signedByte?, channel?, if_pos sign, Hexadecimal.unsigned?,
      Hexadecimal.number?_single]
    cases Hexadecimal.digitValue? second with
    | none => rfl
    | some low => exact Hexadecimal.toByte?_digit low
  · simp only [Hexadecimal.signedByte?, channel?, if_neg sign, Hexadecimal.unsigned?,
      Hexadecimal.number?_pair]
    cases Hexadecimal.digitValue? first with
    | none => cases Hexadecimal.digitValue? second <;> rfl
    | some high =>
      cases Hexadecimal.digitValue? second with
      | none => rfl
      | some low => exact Hexadecimal.toByte?_digits high low

/-- What was read of a text, or the error that there is no number. -/
def orNoNumber {α : Type} (raw : String) : Option α → Except ParseError α
  | some value => .ok value
  | none => .error (.digits raw)

/-- The channel whose two bytes follow those of so many others. -/
def channelAt (raw text : String) (others : Nat) : ExceptT ParseError Option UInt8 :=
  (slice? text (2 * others) (2 * others + 2)).map fun pair =>
    orNoNumber raw (Hexadecimal.signedByte? pair)

theorem channelAt_eq {raw text : String} {others : Nat} {first second : Char}
    (cut : slice? text (2 * others) (2 * others + 2) = some [first, second]) :
    channelAt raw text others = ExceptT.mk (some (orNoNumber raw (channel? first second))) := by
  rw [channelAt, cut, Option.map_some, signedByte?_pair]
  rfl

/-! ## Colours -/

/-- What is left of a text without blanks at its ends and a number sign in front. -/
def body (raw : String) : List Char :=
  dropSign (Blank.trim raw.toList)

/-- Reads the channels of a colour by the byte positions of a text. -/
def channelsAt (raw text : String) : ExceptT ParseError Option Colour := do
  let red ← channelAt raw text 0
  let green ← channelAt raw text 1
  let blue ← channelAt raw text 2
  return ⟨red, green, blue⟩

/-- Reads a colour by the byte positions of its text. -/
def parseSliced (raw : String) : ExceptT ParseError Option Colour :=
  let text := String.ofList (body raw)
  if text.utf8ByteSize = 6 ∧ Ascii text.toList then
    channelsAt raw text
  else
    throw (.shape raw)

theorem hasShape_iff {text : List Char} :
    hasShape text = true ↔ text.length = 6 ∧ Ascii text := by
  simp [hasShape, Ascii]

/-- Six ASCII characters are six bytes. -/
theorem hasShape_iff_utf8ByteSize {text : List Char} :
    hasShape text = true ↔
      (String.ofList text).utf8ByteSize = 6 ∧ Ascii (String.ofList text).toList := by
  rw [hasShape_iff, String.utf8ByteSize_ofList, String.toList_ofList]
  exact and_congr_left fun ascii => by rw [ascii.utf8Len_eq]

/-- The channels of six ASCII characters are read two characters at a time. -/
theorem channelsAt_eq (raw : String) {text : List Char} (shape : hasShape text = true) :
    channelsAt raw (String.ofList text) =
      ExceptT.mk (some (orNoNumber raw (ofCharacters? text))) := by
  obtain ⟨length, ascii⟩ := hasShape_iff.mp shape
  match text, length with
  | [r₁, r₂, g₁, g₂, b₁, b₂], _ =>
    have red : channelAt raw (String.ofList [r₁, r₂, g₁, g₂, b₁, b₂]) 0 = _ :=
      channelAt_eq (slice?_of_ascii [] [r₁, r₂] [g₁, g₂, b₁, b₂] ascii)
    have green : channelAt raw (String.ofList [r₁, r₂, g₁, g₂, b₁, b₂]) 1 = _ :=
      channelAt_eq (slice?_of_ascii [r₁, r₂] [g₁, g₂] [b₁, b₂] ascii)
    have blue : channelAt raw (String.ofList [r₁, r₂, g₁, g₂, b₁, b₂]) 2 = _ :=
      channelAt_eq (slice?_of_ascii [r₁, r₂, g₁, g₂] [b₁, b₂] [] ascii)
    rw [channelsAt, red, green, blue, ofCharacters?]
    -- The first channel that cannot be read ends the reading.
    cases channel? r₁ r₂ with
    | none => rfl
    | some red =>
      cases channel? g₁ g₂ with
      | none => rfl
      | some green => cases channel? b₁ b₂ <;> rfl

/-- What is read of a text depends on its body, but for the text in an error. -/
theorem parse_eq (raw : String) :
    parse raw =
      if hasShape (body raw) then orNoNumber raw (ofCharacters? (body raw))
      else .error (.shape raw) := by
  rw [parse, body]
  split
  · cases ofCharacters? (dropSign (Blank.trim raw.toList)) <;> rfl
  · rfl

/-- No text makes the reader cut inside a character. -/
theorem run_parseSliced (raw : String) : (parseSliced raw).run = some (parse raw) := by
  by_cases shape : hasShape (body raw) = true
  · rw [parseSliced, if_pos (hasShape_iff_utf8ByteSize.mp shape), channelsAt_eq raw shape,
      parse_eq, if_pos shape]
    rfl
  · rw [parseSliced, if_neg (mt hasShape_iff_utf8ByteSize.mpr shape), parse_eq, if_neg shape]
    rfl

end Chip8.Colour
