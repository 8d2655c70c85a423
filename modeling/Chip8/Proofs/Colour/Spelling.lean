import Chip8.Proofs.Colour.Slices

/-!
# Which texts are colours

A colour is six digits, two for each channel, in either case (`IsDigits`). All of these are
read, between any blanks and behind an optional number sign (`parse_of_spells`). So are some
texts that are no such digits: a plus sign may stand in for the first digit of a channel
(`IsSigned`), as `inPairs_digits_iff` tells apart.

`parse_exact` has both, and the error of every other text.
-/

namespace Chip8.Colour

open Chip8.Text

/-! ## Channels -/

/-- Two characters are the digits of a channel. -/
def IsDigits (first second : Char) (value : UInt8) : Prop :=
  ∃ high low : Nibble, Hexadecimal.Writes first high ∧ Hexadecimal.Writes second low ∧
    value.toNat = 16 * high.val + low.val

/-- Two characters are a plus sign and the one digit of a channel. -/
def IsSigned (first second : Char) (value : UInt8) : Prop :=
  first = '+' ∧ ∃ low : Nibble, Hexadecimal.Writes second low ∧ value.toNat = low.val

/-- Two characters stand for a channel. -/
def IsChannel (first second : Char) (value : UInt8) : Prop :=
  IsDigits first second value ∨ IsSigned first second value

theorem not_writes_plus (value : Nibble) : ¬ Hexadecimal.Writes '+' value := by
  revert value
  decide

theorem ofNat_eq_iff {number : Nat} (small : number < UInt8.size) {value : UInt8} :
    UInt8.ofNat number = value ↔ value.toNat = number := by
  rw [← UInt8.toNat_inj, UInt8.toNat_ofNat_of_lt' small, eq_comm]

/-- A channel is read from the characters that stand for it, and from no others. -/
theorem channel?_eq_some_iff {first second : Char} {value : UInt8} :
    channel? first second = some value ↔ IsChannel first second value := by
  by_cases sign : first = '+'
  · subst sign
    have single (low : Nibble) : UInt8.ofNat low.val = value ↔ value.toNat = low.val :=
      ofNat_eq_iff (Nat.lt_trans low.isLt (by decide))
    simp only [channel?, if_true, Option.bind_eq_bind, Option.bind_eq_some_iff, Option.pure_def,
      Option.some_inj, Hexadecimal.digitValue?_eq_some_iff, single]
    constructor
    · exact fun read => .inr ⟨rfl, read⟩
    · rintro (⟨high, _, written, _⟩ | ⟨_, read⟩)
      · exact absurd written (not_writes_plus high)
      · exact read
  · have double (high low : Nibble) :
        UInt8.ofNat (16 * high.val + low.val) = value ↔
          value.toNat = 16 * high.val + low.val := by
      have highBound : high.val < 16 := high.isLt
      have lowBound : low.val < 16 := low.isLt
      refine ofNat_eq_iff ?_
      simp only [UInt8.size]
      omega
    simp only [channel?, if_neg sign, Option.bind_eq_bind, Option.bind_eq_some_iff,
      Option.pure_def, Option.some_inj, Hexadecimal.digitValue?_eq_some_iff, double]
    constructor
    · rintro ⟨low, writtenLow, high, writtenHigh, same⟩
      exact .inl ⟨high, low, writtenHigh, writtenLow, same⟩
    · rintro (⟨high, low, writtenHigh, writtenLow, same⟩ | ⟨plus, _⟩)
      · exact ⟨low, writtenLow, high, writtenHigh, same⟩
      · exact absurd plus sign

/-- Digits hold no plus sign. -/
theorem IsDigits.ne_plus {first second : Char} {value : UInt8}
    (digits : IsDigits first second value) : first ≠ '+' ∧ second ≠ '+' := by
  obtain ⟨high, low, writtenHigh, writtenLow, -⟩ := digits
  constructor
  · rintro rfl
    exact not_writes_plus high writtenHigh
  · rintro rfl
    exact not_writes_plus low writtenLow

theorem IsChannel.isDigits {first second : Char} {value : UInt8}
    (channel : IsChannel first second value) (unsigned : first ≠ '+') :
    IsDigits first second value :=
  channel.resolve_right fun signed => unsigned signed.1

theorem IsChannel.ascii {first second : Char} {value : UInt8}
    (channel : IsChannel first second value) : first.toNat < 128 ∧ second.toNat < 128 := by
  have digit {character : Char} {nibble : Nibble} (written : Hexadecimal.Writes character nibble) :
      character.toNat < 128 :=
    Hexadecimal.toNat_lt_of_digitValue? (Hexadecimal.digitValue?_eq_some_iff.mpr written)
  rcases channel with ⟨high, low, writtenHigh, writtenLow, -⟩ | ⟨rfl, low, writtenLow, -⟩
  · exact ⟨digit writtenHigh, digit writtenLow⟩
  · exact ⟨by decide, digit writtenLow⟩

/-! ## Colours -/

/-- A text is made of three pairs of characters, one for each channel of a colour. -/
def InPairs (pair : Char → Char → UInt8 → Prop) (text : List Char) (colour : Colour) : Prop :=
  ∃ r₁ r₂ g₁ g₂ b₁ b₂, text = [r₁, r₂, g₁, g₂, b₁, b₂] ∧
    pair r₁ r₂ colour.red ∧ pair g₁ g₂ colour.green ∧ pair b₁ b₂ colour.blue

variable {text : List Char} {colour : Colour}

theorem ofCharacters?_eq_some_iff :
    ofCharacters? text = some colour ↔ InPairs IsChannel text colour := by
  constructor
  · intro read
    unfold ofCharacters? at read
    split at read
    · next r₁ r₂ g₁ g₂ b₁ b₂ =>
      simp only [Option.bind_eq_bind, Option.bind_eq_some_iff, Option.pure_def, Option.some_inj,
        channel?_eq_some_iff] at read
      obtain ⟨red, isRed, green, isGreen, blue, isBlue, rfl⟩ := read
      exact ⟨r₁, r₂, g₁, g₂, b₁, b₂, rfl, isRed, isGreen, isBlue⟩
    · cases read
  · rintro ⟨r₁, r₂, g₁, g₂, b₁, b₂, rfl, isRed, isGreen, isBlue⟩
    rw [ofCharacters?, channel?_eq_some_iff.mpr isRed, channel?_eq_some_iff.mpr isGreen,
      channel?_eq_some_iff.mpr isBlue]
    rfl

theorem InPairs.hasShape (pairs : InPairs IsChannel text colour) : hasShape text = true := by
  obtain ⟨r₁, r₂, g₁, g₂, b₁, b₂, rfl, isRed, isGreen, isBlue⟩ := pairs
  refine hasShape_iff.mpr ⟨rfl, ?_⟩
  simp only [Ascii, List.forall_mem_cons, List.not_mem_nil, false_implies, implies_true, and_true]
  exact ⟨isRed.ascii.1, isRed.ascii.2, isGreen.ascii.1, isGreen.ascii.2, isBlue.ascii⟩

/-- A text is six digits if it stands for a colour and holds no plus sign. -/
theorem inPairs_digits_iff :
    InPairs IsDigits text colour ↔ InPairs IsChannel text colour ∧ '+' ∉ text := by
  constructor
  · rintro ⟨r₁, r₂, g₁, g₂, b₁, b₂, rfl, isRed, isGreen, isBlue⟩
    refine ⟨⟨r₁, r₂, g₁, g₂, b₁, b₂, rfl, .inl isRed, .inl isGreen, .inl isBlue⟩, ?_⟩
    simp [isRed.ne_plus.1.symm, isRed.ne_plus.2.symm, isGreen.ne_plus.1.symm,
      isGreen.ne_plus.2.symm, isBlue.ne_plus.1.symm, isBlue.ne_plus.2.symm]
  · rintro ⟨⟨r₁, r₂, g₁, g₂, b₁, b₂, rfl, isRed, isGreen, isBlue⟩, unsigned⟩
    simp only [List.mem_cons, not_or] at unsigned
    obtain ⟨red, -, green, -, blue, -⟩ := unsigned
    exact ⟨r₁, r₂, g₁, g₂, b₁, b₂, rfl, isRed.isDigits (Ne.symm red),
      isGreen.isDigits (Ne.symm green), isBlue.isDigits (Ne.symm blue)⟩

theorem orNoNumber_eq_ok_iff {raw : String} {read? : Option Colour} :
    orNoNumber raw read? = .ok colour ↔ read? = some colour := by
  cases read? <;> simp [orNoNumber]

theorem orNoNumber_eq_error_iff {raw : String} {read? : Option Colour} {error : ParseError} :
    orNoNumber raw read? = .error error ↔ read? = none ∧ error = .digits raw := by
  cases read? <;> simp [orNoNumber, eq_comm]

/-- A text is read as the colour that its body stands for. -/
theorem parse_eq_ok_iff {raw : String} :
    parse raw = .ok colour ↔ InPairs IsChannel (body raw) colour := by
  rw [parse_eq]
  split
  · rw [orNoNumber_eq_ok_iff, ofCharacters?_eq_some_iff]
  · next shapeless =>
    simp only [reduceCtorEq, false_iff]
    exact fun pairs => shapeless pairs.hasShape

/-- A text whose body stands for no colour is refused, with an error that quotes the text. -/
theorem parse_eq_error_iff {raw : String} {error : ParseError} :
    parse raw = .error error ↔
      (∀ colour, ¬ InPairs IsChannel (body raw) colour) ∧
        error = if (body raw).length = 6 ∧ Ascii (body raw) then .digits raw else .shape raw := by
  rw [parse_eq]
  by_cases shape : hasShape (body raw) = true
  · have unread : ofCharacters? (body raw) = none ↔
        ∀ colour, ¬ InPairs IsChannel (body raw) colour := by
      simp only [Option.eq_none_iff_forall_ne_some, ne_eq, ofCharacters?_eq_some_iff]
    rw [if_pos shape, if_pos (hasShape_iff.mp shape), orNoNumber_eq_error_iff, unread]
  · have none : ∀ colour, ¬ InPairs IsChannel (body raw) colour :=
      fun colour pairs => shape pairs.hasShape
    rw [if_neg shape, if_neg (mt hasShape_iff.mpr shape), Except.error.injEq, eq_comm]
    exact ⟨fun same => ⟨none, same⟩, And.right⟩

/-! ## Writing a colour -/

/-- The six digits of a colour, two for each channel. -/
theorem toList_text (colour : Colour) :
    colour.text.toList = colour.channels.flatMap fun channel =>
      [Hexadecimal.digit (Fin.ofNat 16 (channel.toNat / 16)),
        Hexadecimal.digit (Fin.ofNat 16 channel.toNat)] := by
  simp only [text, Hexadecimal.bytesText, String.toList_join, List.flatMap_map,
    Hexadecimal.byteText, Hexadecimal.text, String.toList_ofList, Hexadecimal.padded_byte]

/-- The digits of a channel in either case stand for it. -/
theorem isDigits_of_written {first second : Char} {value : UInt8}
    (high : Hexadecimal.Writes first (Fin.ofNat 16 (value.toNat / 16)))
    (low : Hexadecimal.Writes second (Fin.ofNat 16 value.toNat)) : IsDigits first second value := by
  have bound : value.toNat < 256 := value.toNat_lt
  refine ⟨_, _, high, low, ?_⟩
  simp only [Fin.val_ofNat]
  omega

/-- The digits of a colour, each in either case. -/
def Spells (written : List Char) (colour : Colour) : Prop :=
  List.Forall₂ (fun character digit => character = digit ∨ character = digit.toLower) written
    colour.text.toList

theorem Spells.inPairs {written : List Char} (spells : Spells written colour) :
    InPairs IsDigits written colour := by
  rw [Spells, toList_text] at spells
  match written, spells with
  | _, .cons r₁ (.cons r₂ (.cons g₁ (.cons g₂ (.cons b₁ (.cons b₂ .nil))))) =>
    exact ⟨_, _, _, _, _, _, rfl, isDigits_of_written r₁ r₂, isDigits_of_written g₁ g₂,
      isDigits_of_written b₁ b₂⟩

/-- A digit is neither a blank nor a number sign. -/
theorem solid_of_writes {character : Char} {value : Nibble}
    (written : Hexadecimal.Writes character value) :
    Blank.isBlank character = false ∧ character ≠ '#' := by
  rcases written with rfl | rfl <;>
  · revert value
    decide

theorem InPairs.exists_writes (pairs : InPairs IsDigits text colour) :
    ∀ character ∈ text, ∃ value, Hexadecimal.Writes character value := by
  obtain ⟨r₁, r₂, g₁, g₂, b₁, b₂, rfl, ⟨_, _, red, red', _⟩, ⟨_, _, green, green', _⟩,
    ⟨_, _, blue, blue', _⟩⟩ := pairs
  simp only [List.forall_mem_cons, List.not_mem_nil, false_implies, implies_true, and_true]
  exact ⟨⟨_, red⟩, ⟨_, red'⟩, ⟨_, green⟩, ⟨_, green'⟩, ⟨_, blue⟩, ⟨_, blue'⟩⟩

theorem dropSign_cons {first : Char} (differs : first ≠ '#') (rest : List Char) :
    dropSign (first :: rest) = first :: rest := by
  unfold dropSign
  split
  · next same => exact absurd (List.cons.inj same).1 differs
  · rfl

/-- The body of digits between blanks and behind an optional number sign are these digits. -/
theorem body_of_digits {raw : String} {before sign after : List Char}
    (pairs : InPairs IsDigits text colour)
    (blankBefore : ∀ character ∈ before, Blank.isBlank character = true)
    (optional : sign = [] ∨ sign = ['#'])
    (blankAfter : ∀ character ∈ after, Blank.isBlank character = true)
    (given : raw.toList = before ++ (sign ++ text) ++ after) : body raw = text := by
  have solidText : ∀ character ∈ text, Blank.isBlank character = false := by
    intro character member
    obtain ⟨value, written⟩ := pairs.exists_writes character member
    exact (solid_of_writes written).1
  have solid : ∀ character ∈ sign ++ text, Blank.isBlank character = false := by
    intro character member
    rcases List.mem_append.mp member with inSign | inText
    · rcases optional with rfl | rfl
      · cases inSign
      · rw [List.mem_singleton.mp inSign]
        decide
    · exact solidText character inText
  rw [body, given, Blank.trim_append blankBefore solid blankAfter]
  rcases optional with rfl | rfl
  · obtain ⟨r₁, r₂, g₁, g₂, b₁, b₂, rfl, -⟩ := id pairs
    obtain ⟨value, written⟩ := pairs.exists_writes r₁ List.mem_cons_self
    exact dropSign_cons (solid_of_writes written).2 _
  · rfl

/-- What is written for a colour reads back. -/
theorem parse_of_spells {raw : String} {before sign written after : List Char}
    (spells : Spells written colour)
    (blankBefore : ∀ character ∈ before, Blank.isBlank character = true)
    (optional : sign = [] ∨ sign = ['#'])
    (blankAfter : ∀ character ∈ after, Blank.isBlank character = true)
    (given : raw.toList = before ++ (sign ++ written) ++ after) : parse raw = .ok colour := by
  have pairs := spells.inPairs
  rw [parse_eq_ok_iff, body_of_digits pairs blankBefore optional blankAfter given]
  exact (inPairs_digits_iff.mp pairs).1

/-! ## All texts -/

/-- Which texts are read as a colour, and what comes of all others. The texts that are six digits
between blanks and behind an optional number sign are those that are read and hold no plus sign
there; each channel whose first digit is replaced by a plus sign is read as well. No text is cut
inside a character, and what is written for a colour reads back. -/
theorem parse_exact (raw : String) :
    (∀ colour, InPairs IsDigits (body raw) colour ↔ parse raw = .ok colour ∧ '+' ∉ body raw) ∧
      (∀ colour, parse raw = .ok colour ↔ InPairs IsChannel (body raw) colour) ∧
      (∀ error, parse raw = .error error ↔
        (∀ colour, ¬ InPairs IsChannel (body raw) colour) ∧
          error =
            if (body raw).length = 6 ∧ Ascii (body raw) then .digits raw else .shape raw) ∧
      (parseSliced raw).run = some (parse raw) ∧
      (∀ (colour : Colour) (before sign written after : List Char), Spells written colour →
        (∀ character ∈ before, Blank.isBlank character = true) → (sign = [] ∨ sign = ['#']) →
          (∀ character ∈ after, Blank.isBlank character = true) →
            raw.toList = before ++ (sign ++ written) ++ after → parse raw = .ok colour) := by
  refine ⟨fun colour => ?_, fun colour => parse_eq_ok_iff, fun error => parse_eq_error_iff,
    run_parseSliced raw, fun colour before sign written after => parse_of_spells⟩
  rw [parse_eq_ok_iff, inPairs_digits_iff]

/-- Digits in mixed case behind a number sign, between blanks of several bytes. -/
theorem parse_exact_mixed_case :
    Spells ['f', 'F', 'b', '0', '0', '0'] ⟨0xFF, 0xB0, 0x00⟩ ∧
      parse "\u3000#fFb000\u00A0\n" = .ok ⟨0xFF, 0xB0, 0x00⟩ := by
  have spells : Spells ['f', 'F', 'b', '0', '0', '0'] ⟨0xFF, 0xB0, 0x00⟩ := by
    rw [Spells, toList_text]
    decide
  have blankBefore := List.all_eq_true.mp (by decide : ['\u3000'].all Blank.isBlank = true)
  have blankAfter := List.all_eq_true.mp (by decide : ['\u00A0', '\n'].all Blank.isBlank = true)
  refine ⟨spells, ?_⟩
  exact (parse_exact "\u3000#fFb000\u00A0\n").2.2.2.2 ⟨0xFF, 0xB0, 0x00⟩ ['\u3000'] ['#'] _
    ['\u00A0', '\n'] spells blankBefore (.inr rfl) blankAfter (by decide)

/-- Three channels of a plus sign and one digit each are a colour, and not six digits. -/
theorem parse_signed_channels :
    parse "+1+2+3" = .ok ⟨1, 2, 3⟩ ∧
      ∀ colour, ¬ InPairs IsDigits (body "+1+2+3") colour := by
  have read : parse "+1+2+3" = .ok ⟨1, 2, 3⟩ := by decide
  refine ⟨read, fun colour pairs => ?_⟩
  have plus : '+' ∈ body "+1+2+3" := by decide
  exact (inPairs_digits_iff.mp pairs).2 plus

end Chip8.Colour
