import Chip8.Text.Hexadecimal

/-!
# Reading hexadecimal numbers back

`number?` reads the number that digits stand for. It reads back what `text` writes at
any width (`number?_padded`), so no two numbers are written alike. What is written
holds no blank, so that numbers in a row can be told apart. The last digit stands behind
all others (`padded_succ`), so that a word is written with the digits of its four nibbles
(`wordText_eq_fourDigits`).

The characters that read as a digit are the ones that write it in upper or lower case
(`digitValue?_eq_some_iff`). `signedByte?` reads a number that may have a plus sign.
-/

namespace Chip8.Text.Hexadecimal

/-! ## Single digits -/

/-- A character writes a digit, in either case. -/
def Writes (character : Char) (value : Nibble) : Prop :=
  character = digit value ∨ character = (digit value).toLower

instance (character : Char) (value : Nibble) : Decidable (Writes character value) :=
  inferInstanceAs (Decidable (_ ∨ _))

/-- Every digit is an ASCII character. -/
theorem toNat_lt_of_digitValue? {character : Char} {value : Nibble}
    (read : digitValue? character = some value) : character.toNat < 128 := by
  have upTo {last : Char} (small : last.toNat < 128) (le : character ≤ last) :
      character.toNat < 128 := Nat.lt_of_le_of_lt le small
  unfold digitValue? at read
  split at read
  · next range => exact upTo (by decide) range.2
  · split at read
    · next range => exact upTo (by decide) range.2
    · split at read
      · next range => exact upTo (by decide) range.2
      · cases read

theorem writes_of_digitValue?_ofNat :
    ∀ code : Fin 128, ∀ value : Nibble, digitValue? (Char.ofNat code) = some value →
      Writes (Char.ofNat code) value := by
  decide +kernel

theorem digitValue?_toLower (value : Nibble) : digitValue? (digit value).toLower = some value := by
  revert value
  decide

/-- The characters that read as a digit are those that write it. -/
theorem digitValue?_eq_some_iff {character : Char} {value : Nibble} :
    digitValue? character = some value ↔ Writes character value := by
  constructor
  · intro read
    have ascii := toNat_lt_of_digitValue? read
    rw [← Char.ofNat_toNat character] at read ⊢
    exact writes_of_digitValue?_ofNat ⟨character.toNat, ascii⟩ value read
  · rintro (rfl | rfl)
    · exact digitValue?_digit value
    · exact digitValue?_toLower value

/-! ## Numbers -/

/-- The number of digits that follow those already read. -/
def continued? (read : Nat) : List Char → Option Nat
  | [] => some read
  | character :: rest => do
    let value ← digitValue? character
    continued? (16 * read + value.val) rest

/-- The number that digits in either case stand for, most significant first. -/
def number? (text : List Char) : Option Nat :=
  continued? 0 text

theorem continued?_append (read : Nat) (first rest : List Char) :
    continued? read (first ++ rest) =
      (continued? read first).bind fun number => continued? number rest := by
  induction first generalizing read with
  | nil => rfl
  | cons character later inductionHypothesis =>
    rw [List.cons_append, continued?, continued?]
    cases digitValue? character with
    | none => rfl
    | some value => exact inductionHypothesis _

theorem continued?_digit (read : Nat) (value : Nibble) :
    continued? read [digit value] = some (16 * read + value.val) := by
  simp [continued?]

theorem continued?_digits (number : Nat) : continued? 0 (digits number) = some number := by
  fun_induction digits number with
  | case1 number small =>
    rw [continued?_digit, Fin.val_ofNat, Nat.mod_eq_of_lt small, Nat.mul_zero, Nat.zero_add]
  | case2 number large inductionHypothesis =>
    rw [continued?_append, inductionHypothesis, Option.bind_some, continued?_digit, Fin.val_ofNat,
      Nat.div_add_mod]

/-- Zeros in front change nothing. -/
theorem continued?_replicate_zero (count : Nat) (text : List Char) :
    continued? 0 (List.replicate count '0' ++ text) = continued? 0 text := by
  induction count with
  | zero => rfl
  | succ count inductionHypothesis => exact inductionHypothesis

/-- A number that is written reads back. -/
theorem number?_padded (width number : Nat) : number? (padded width number) = some number := by
  rw [number?, padded, List.leftpad, continued?_replicate_zero, continued?_digits]

theorem number?_single (character : Char) :
    number? [character] = (digitValue? character).map fun value => value.val := by
  simp only [number?, continued?]
  cases digitValue? character with
  | none => rfl
  | some value => simp

theorem number?_pair (first second : Char) :
    number? [first, second] = (do
      let high ← digitValue? first
      let low ← digitValue? second
      return 16 * high.val + low.val) := by
  simp only [number?, continued?]
  cases digitValue? first with
  | none => rfl
  | some high =>
    cases digitValue? second with
    | none => rfl
    | some low => simp

/-! ## Bytes and words -/

theorem padded_one {number : Nat} (small : number < 16) :
    padded 1 number = [digit (Fin.ofNat 16 number)] := by
  rw [padded, digits, if_pos small]
  rfl

/-- With room for more than one digit, the last digit stands behind the others. -/
theorem padded_succ {width : Nat} (positive : 0 < width) (number : Nat) :
    padded (width + 1) number = padded width (number / 16) ++ [digit (Fin.ofNat 16 number)] := by
  by_cases small : number < 16
  · -- What is in front of a single digit is all filled up, and so is a zero.
    obtain ⟨more, rfl⟩ := Nat.exists_eq_add_one_of_ne_zero (Nat.ne_of_gt positive)
    have zero : digits 0 = ['0'] := by
      rw [digits]
      rfl
    rw [padded, padded, digits, if_pos small, Nat.div_eq_of_lt small, zero]
    simp only [List.leftpad, List.length_singleton, Nat.add_sub_cancel, List.replicate_succ',
      List.append_assoc]
  · rw [padded, padded, digits, if_neg small]
    simp only [List.leftpad, List.length_append, List.length_singleton, Nat.add_sub_add_right,
      List.append_assoc]

/-- The two digits of a byte. -/
theorem padded_byte (byte : UInt8) :
    padded 2 byte.toNat =
      [digit (Fin.ofNat 16 (byte.toNat / 16)), digit (Fin.ofNat 16 byte.toNat)] := by
  have bound : byte.toNat < 256 := byte.toNat_lt
  rw [padded_succ (by decide), padded_one (by omega)]
  rfl

/-- The digits in the order of their values. -/
def alphabet : Vector Char 16 :=
  #v['0', '1', '2', '3', '4', '5', '6', '7', '8', '9', 'A', 'B', 'C', 'D', 'E', 'F']

/-- The digits of the four nibbles of a word, from the most significant one on. -/
def fourDigits (word : UInt16) : String :=
  String.ofList
    ([word.toNat / 4096, word.toNat / 256, word.toNat / 16, word.toNat].map fun number =>
      alphabet.get (Fin.ofNat 16 number))

theorem digit_eq_get (value : Nibble) : digit value = alphabet.get value := by
  revert value
  decide

/-- The text of a word has one digit for each of its nibbles. -/
theorem wordText_eq_fourDigits (word : UInt16) : wordText word = fourDigits word := by
  have bound : word.toNat < 65536 := word.toNat_lt
  have second : word.toNat / 16 / 16 = word.toNat / 256 := by omega
  have first : word.toNat / 256 / 16 = word.toNat / 4096 := by omega
  rw [wordText, text, padded_succ (by decide), padded_succ (by decide), padded_succ (by decide),
    second, first, padded_one (by omega)]
  simp only [fourDigits, digit_eq_get, List.map_cons, List.map_nil, List.cons_append,
    List.nil_append]

/-! ## Numbers with a sign -/

/-- The number of digits, of which there is at least one. -/
def unsigned? : List Char → Option Nat
  | [] => none
  | first :: rest => number? (first :: rest)

/-- The byte with a number, if there is one. -/
def toByte? (number : Nat) : Option UInt8 :=
  if number < UInt8.size then some (UInt8.ofNat number) else none

/-- The byte that digits stand for, with or without a plus sign in front of them. -/
def signedByte? : List Char → Option UInt8
  | [] => none
  | first :: rest => (unsigned? (if first = '+' then rest else first :: rest)).bind toByte?

/-- One digit is a byte. -/
theorem toByte?_digit (value : Nibble) : toByte? value.val = some (UInt8.ofNat value.val) :=
  if_pos (Nat.lt_trans value.isLt (by decide))

/-- Two digits are a byte. -/
theorem toByte?_digits (high low : Nibble) :
    toByte? (16 * high.val + low.val) = some (UInt8.ofNat (16 * high.val + low.val)) := by
  have highBound : high.val < 16 := high.isLt
  have lowBound : low.val < 16 := low.isLt
  refine if_pos ?_
  simp only [UInt8.size]
  omega

/-! ## No blanks -/

/-- A digit is no blank. -/
theorem digit_ne_blank (value : Nibble) : digit value ≠ ' ' := by
  revert value
  decide

theorem ne_blank_of_mem_digits {number : Nat} {character : Char}
    (member : character ∈ digits number) : character ≠ ' ' := by
  fun_induction digits number with
  | case1 number small =>
    rw [List.mem_singleton.mp member]
    exact digit_ne_blank _
  | case2 number large inductionHypothesis =>
    rcases List.mem_append.mp member with before | last
    · exact inductionHypothesis before
    · rw [List.mem_singleton.mp last]
      exact digit_ne_blank _

/-- There is no blank in a number. -/
theorem blank_not_mem_padded (width number : Nat) : ' ' ∉ padded width number := by
  intro member
  rcases List.mem_append.mp member with filled | written
  · cases List.eq_of_mem_replicate filled
  · exact ne_blank_of_mem_digits written rfl

end Chip8.Text.Hexadecimal
