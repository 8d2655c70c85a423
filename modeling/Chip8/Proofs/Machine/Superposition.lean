import Chip8.Proofs.Machine.Drawing

/-!
# Sprites over one another

Draws whose position the flag cannot move do not get in each other's way: none of
them moves the sprite of another. What they leave on the screen depends only on
how many of them cover each pixel. `executeWords_stamps` says so for a list of
draws, by induction from `executeWord_draw` for one.

The order of the draws therefore does not matter, and two equal ones cancel. The
flag is another matter: it tells what the last draw found on the screen.
-/

namespace Chip8.Machine

/-- A word draws a sprite that lies in memory, at a position that the flag does not move. -/
structure Stamps (machine : Machine) (word : Word) : Prop where
  family : word.family = 0xD
  column : word.x ≠ flagRegister
  row : word.y ≠ flagRegister
  fits : machine.i.toNat + word.low.val ≤ Memory.size

/-- Whether an odd number of words have a sprite with a set bit on a pixel. -/
def coversOddly (machine : Machine) (words : List Word) (pixel : Pixel) : Bool :=
  decide (words.countP (machine.covers · pixel) % 2 = 1)

/-- Two machines have the same sprites at the same positions. -/
structure Aligned (machine next : Machine) : Prop where
  registers (register : Register) :
    register ≠ flagRegister → next.v.read register = machine.v.read register
  index : next.i = machine.i
  memory : next.memory = machine.memory

variable {machine next : Machine} {word : Word} {words : List Word}

/-! ## Counting sprites -/

theorem flag_xor (first second : Bool) : flag first ^^^ flag second = flag (first ^^ second) := by
  cases first <;> cases second <;> rfl

theorem coversOddly_cons (machine : Machine) (word : Word) (later : List Word) (pixel : Pixel) :
    machine.coversOddly (word :: later) pixel =
      (machine.covers word pixel ^^ machine.coversOddly later pixel) := by
  simp only [coversOddly, List.countP_cons]
  cases machine.covers word pixel
  · simp
  · rcases Nat.mod_two_eq_zero_or_one (later.countP (machine.covers · pixel)) with even | odd
    · simp [even, Nat.add_mod]
    · simp [odd, Nat.add_mod]

/-- The order of words does not matter to their number. -/
theorem coversOddly_of_perm {others : List Word} (permuted : others.Perm words) (pixel : Pixel) :
    machine.coversOddly others pixel = machine.coversOddly words pixel := by
  simp only [coversOddly, permuted.countP_eq]

/-- A word that comes twice does not matter. -/
theorem coversOddly_cancel (machine : Machine) (earlier between later : List Word) (word : Word)
    (pixel : Pixel) :
    machine.coversOddly (earlier ++ word :: between ++ word :: later) pixel =
      machine.coversOddly (earlier ++ between ++ later) pixel := by
  -- Both can be brought to the front, where they count twice.
  have together : (earlier ++ word :: between ++ word :: later).Perm
      (word :: word :: (earlier ++ between ++ later)) := by
    refine (List.perm_middle).trans (.cons word ?_)
    rw [List.append_assoc, List.cons_append, List.append_assoc]
    exact List.perm_middle
  rw [coversOddly_of_perm together, coversOddly_cons, coversOddly_cons, ← Bool.xor_assoc,
    Bool.xor_self, Bool.false_xor]

/-! ## One draw after another -/

/-- A draw leaves all other sprites where they are. -/
theorem Drawn.aligned (drawn : machine.Drawn word next) : machine.Aligned next where
  registers := drawn.registers
  index := by rw [drawn.others]
  memory := by rw [drawn.others]

theorem Aligned.covers_eq (aligned : machine.Aligned next) (stamps : machine.Stamps word)
    (pixel : Pixel) : next.covers word pixel = machine.covers word pixel := by
  simp only [covers, aligned.registers word.x stamps.column, aligned.registers word.y stamps.row,
    aligned.index, aligned.memory]

theorem Aligned.stamps (aligned : machine.Aligned next) (stamps : machine.Stamps word) :
    next.Stamps word :=
  { stamps with fits := aligned.index ▸ stamps.fits }

theorem Aligned.coversOddly_eq (aligned : machine.Aligned next)
    (stamps : ∀ word ∈ words, machine.Stamps word) (pixel : Pixel) :
    next.coversOddly words pixel = machine.coversOddly words pixel := by
  have same : words.countP (next.covers · pixel) = words.countP (machine.covers · pixel) :=
    List.countP_congr fun word member => by rw [aligned.covers_eq (stamps word member)]
  simp only [coversOddly, same]

/-- A draw leaves room for as many words as there was room for behind it. -/
theorem Drawn.room (drawn : machine.Drawn word next) (count : Nat)
    (room : machine.pc.toNat + 2 * (count + 1) < UInt16.size) :
    next.pc.toNat + 2 * count < UInt16.size := by
  have counter : next.pc = machine.pc + 2 := congrArg Machine.pc drawn.others
  rw [counter, toNat_counter_add_two (by omega)]
  omega

/-- Draws that the flag does not move succeed one after another, and flip each pixel as often as
they cover it. -/
theorem executeWords_stamps (inputs : Nat → Input)
    (room : machine.pc.toNat + 2 * words.length < UInt16.size)
    (stamps : ∀ word ∈ words, machine.Stamps word) :
    ∃ next, machine.executeWords inputs words = .ok next ∧
      ∀ pixel, next.frame.level pixel =
        machine.frame.level pixel ^^^ flag (machine.coversOddly words pixel) := by
  induction words generalizing machine inputs with
  | nil => exact ⟨machine, rfl, fun pixel => (UInt8.xor_zero).symm⟩
  | cons word later inductionHypothesis =>
    obtain ⟨first, laterStamps⟩ := List.forall_mem_cons.mp stamps
    have roomForFirst : machine.pc.toNat + 2 < UInt16.size := by
      rw [List.length_cons] at room
      omega
    obtain ⟨reached, executed, drawn⟩ :=
      executeWord_draw (inputs 0) first.family first.fits roomForFirst
    have aligned := drawn.aligned
    obtain ⟨next, executedLater, level⟩ :=
      @inductionHypothesis reached (fun step => inputs (step + 1)) (drawn.room later.length room)
        fun other member => aligned.stamps (laterStamps other member)
    refine ⟨next, (executeWords_cons executed later).trans executedLater, fun pixel => ?_⟩
    calc next.frame.level pixel
      _ = reached.frame.level pixel ^^^ flag (machine.coversOddly later pixel) := by
        rw [level, aligned.coversOddly_eq laterStamps]
      _ = machine.frame.level pixel ^^^
            (flag (machine.covers word pixel) ^^^ flag (machine.coversOddly later pixel)) := by
        rw [drawn.level, UInt8.xor_assoc]
      _ = machine.frame.level pixel ^^^ flag (machine.coversOddly (word :: later) pixel) := by
        rw [flag_xor, coversOddly_cons]

/-- Draws that cover each pixel equally often, up to pairs, leave the same frame. -/
theorem executeWords_stamps_of_coversOddly_eq {inputs : Nat → Input} {others : List Word}
    (room : machine.pc.toNat + 2 * others.length < UInt16.size)
    (stamps : ∀ word ∈ others, machine.Stamps word)
    (level : ∀ pixel, next.frame.level pixel =
      machine.frame.level pixel ^^^ flag (machine.coversOddly words pixel))
    (alike : ∀ pixel, machine.coversOddly others pixel = machine.coversOddly words pixel) :
    ∃ same, machine.executeWords inputs others = .ok same ∧ same.frame = next.frame := by
  obtain ⟨same, executed, levelOfSame⟩ := executeWords_stamps inputs room stamps
  refine ⟨same, executed, Frame.eq_of_level_eq fun pixel => ?_⟩
  rw [levelOfSame, level, alike]

/-! ## The same draw twice -/

/-- The flag is raised exactly if a lit pixel goes out. -/
theorem Drawn.flag_iff (drawn : machine.Drawn word next) :
    next.v.read flagRegister = 1 ↔
      ∃ pixel, machine.frame.level pixel = 1 ∧ machine.covers word pixel = true := by
  constructor
  · intro raised
    refine Classical.byContradiction fun dark => ?_
    rw [drawn.no_collision dark] at raised
    exact absurd raised (by decide)
  · exact drawn.collision

theorem xor_one_eq_one_iff (level : UInt8) : level ^^^ 1 = 1 ↔ level = 0 := by
  rw [← UInt8.xor_left_inj (c := 1), UInt8.xor_assoc]
  simp

/-- The second of two equal draws takes back what the first did to the frame. -/
theorem Drawn.frame_twice {once twice : Machine} (stamps : machine.Stamps word)
    (first : machine.Drawn word once) (second : once.Drawn word twice) :
    twice.frame = machine.frame := by
  apply Frame.eq_of_level_eq
  intro pixel
  rw [second.level, first.level, first.aligned.covers_eq stamps, UInt8.xor_assoc, UInt8.xor_self,
    UInt8.xor_zero]

/-- The second of two equal draws puts out what the first has lit. -/
theorem Drawn.flag_twice_iff {once twice : Machine} (stamps : machine.Stamps word)
    (first : machine.Drawn word once) (second : once.Drawn word twice) :
    twice.v.read flagRegister = 1 ↔
      ∃ pixel, machine.covers word pixel = true ∧ machine.frame.level pixel = 0 := by
  rw [second.flag_iff]
  refine exists_congr fun pixel => ?_
  rw [first.aligned.covers_eq stamps, first.level, and_comm]
  refine and_congr_right fun covered => ?_
  rw [covered]
  exact xor_one_eq_one_iff _

/-- One of two equal draws puts out a pixel, unless they cover none. -/
theorem Drawn.flag_once_or_twice_iff {once twice : Machine} (binary : machine.frame.Binary)
    (stamps : machine.Stamps word) (first : machine.Drawn word once)
    (second : once.Drawn word twice) :
    once.v.read flagRegister = 1 ∨ twice.v.read flagRegister = 1 ↔
      ∃ pixel, machine.covers word pixel = true := by
  rw [first.flag_iff, first.flag_twice_iff stamps second]
  constructor
  · rintro (⟨pixel, -, covered⟩ | ⟨pixel, covered, -⟩)
    · exact ⟨pixel, covered⟩
    · exact ⟨pixel, covered⟩
  · rintro ⟨pixel, covered⟩
    rcases binary pixel with off | on
    · exact .inr ⟨pixel, covered, off⟩
    · exact .inl ⟨pixel, on, covered⟩

/-- Draws that the flag does not move succeed one after another and flip each pixel as often as they
cover it, in any order, and also without two equal ones among them. A draw that is repeated takes
itself back: the second time the flag is raised if the sprite covers a pixel that was off, and one
of the two times if it covers a pixel at all. -/
theorem stamps_superpose (machine : Machine) (binary : machine.frame.Binary) :
    (∀ (inputs : Nat → Input) (words : List Word),
      machine.pc.toNat + 2 * words.length < UInt16.size →
      (∀ word ∈ words, machine.Stamps word) →
      ∃ next, machine.executeWords inputs words = .ok next ∧
        (∀ pixel, next.frame.level pixel =
          machine.frame.level pixel ^^^
            flag (decide (words.countP (machine.covers · pixel) % 2 = 1))) ∧
        (∀ (otherInputs : Nat → Input) (permuted : List Word), permuted.Perm words →
          ∃ same, machine.executeWords otherInputs permuted = .ok same ∧
            same.frame = next.frame) ∧
        ∀ (otherInputs : Nat → Input) (earlier between later : List Word) (word : Word),
          words = earlier ++ word :: between ++ word :: later →
          ∃ same, machine.executeWords otherInputs (earlier ++ between ++ later) = .ok same ∧
            same.frame = next.frame) ∧
    ∀ (input again : Input) (word : Word),
      machine.pc.toNat + 4 < UInt16.size → machine.Stamps word →
      ∃ once twice, machine.executeWord input word = .ok once ∧
        once.executeWord again word = .ok twice ∧ twice.frame = machine.frame ∧
        (twice.v.read flagRegister = 1 ↔
          ∃ pixel, machine.covers word pixel = true ∧ machine.frame.level pixel = 0) ∧
        (once.v.read flagRegister = 1 ∨ twice.v.read flagRegister = 1 ↔
          ∃ pixel, machine.covers word pixel = true) := by
  constructor
  · intro inputs words room stamps
    obtain ⟨next, executed, level⟩ := executeWords_stamps inputs room stamps
    refine ⟨next, executed, level, ?_, ?_⟩
    · intro otherInputs permuted perm
      exact executeWords_stamps_of_coversOddly_eq (perm.length_eq ▸ room)
        (fun word member => stamps word (perm.mem_iff.mp member)) level
        (coversOddly_of_perm perm)
    · rintro otherInputs earlier between later word rfl
      have fewer : (earlier ++ between ++ later).length ≤
          (earlier ++ word :: between ++ word :: later).length := by
        simp only [List.length_append, List.length_cons]
        omega
      exact executeWords_stamps_of_coversOddly_eq (by omega)
        (fun other member => stamps other (by grind)) level
        fun pixel => (coversOddly_cancel machine earlier between later word pixel).symm
  · intro input again word room stamps
    obtain ⟨once, executed, first⟩ :=
      executeWord_draw input stamps.family stamps.fits (by omega)
    have onceStamps := first.aligned.stamps stamps
    obtain ⟨twice, executedAgain, second⟩ :=
      executeWord_draw again onceStamps.family onceStamps.fits (first.room 1 room)
    exact ⟨once, twice, executed, executedAgain, first.frame_twice stamps second,
      first.flag_twice_iff stamps second, first.flag_once_or_twice_iff binary stamps second⟩

/-- Of three draws the first and the last are the same, and the frame is that of the one between
them. The row that they draw ends at the right edge and is lit at the start, so it goes out when it
is drawn once, and comes back without a collision when it is drawn again. -/
theorem stamps_superpose_lit :
    let lit : List Pixel := [⟨60, 0⟩, ⟨61, 0⟩, ⟨62, 0⟩, ⟨63, 0⟩]
    let machine := { fresh.setRegister 1 60 with frame := (Frame.blank.draw lit).frame }
    let inputs : Nat → Input := fun _ => ⟨Keypad.released, 0⟩
    machine.frame.Binary ∧ machine.pc.toNat + 2 * 3 < UInt16.size ∧
      machine.Stamps 0xD101 ∧ machine.Stamps 0xD005 ∧
      (∃ next same, machine.executeWords inputs [0xD101, 0xD005, 0xD101] = .ok next ∧
        machine.executeWords inputs [0xD005] = .ok same ∧ same.frame = next.frame) ∧
      ∃ once twice, machine.executeWord (inputs 0) 0xD101 = .ok once ∧
        once.executeWord (inputs 1) 0xD101 = .ok twice ∧ twice.frame = machine.frame ∧
        once.v.read 0xF = 1 ∧ twice.v.read 0xF ≠ 1 := by
  intro lit machine inputs
  have binary : machine.frame.Binary := Frame.blank_binary.draw lit
  have room : machine.pc.toNat + 2 * 3 < UInt16.size := by decide
  have row : machine.Stamps 0xD101 := ⟨by decide, by decide, by decide, by decide⟩
  have glyph : machine.Stamps 0xD005 := ⟨by decide, by decide, by decide, by decide⟩
  have stamps : ∀ word ∈ [0xD101, 0xD005, 0xD101], machine.Stamps word := by
    simp only [List.forall_mem_cons, row, glyph, List.not_mem_nil, false_implies, implies_true,
      and_self]
  have superpose := stamps_superpose machine binary
  obtain ⟨next, executed, -, -, cancel⟩ := superpose.1 inputs [0xD101, 0xD005, 0xD101] room stamps
  obtain ⟨same, between, frame⟩ := cancel inputs [] [0xD005] [] 0xD101 rfl
  obtain ⟨once, twice, first, second, back, again, either⟩ :=
    superpose.2 (inputs 0) (inputs 1) 0xD101 (by decide) row
  have wasLit : ∀ x y, machine.covers 0xD101 ⟨x, y⟩ = true →
      machine.frame.level ⟨x, y⟩ ≠ 0 := by
    decide +kernel
  have still : twice.v.read 0xF ≠ 1 := fun raised => by
    obtain ⟨pixel, covered, off⟩ := again.mp raised
    exact wasLit pixel.x pixel.y covered off
  have collided : once.v.read 0xF = 1 :=
    (either.mpr ⟨⟨60, 0⟩, by decide +kernel⟩).resolve_right still
  exact ⟨binary, room, row, glyph, ⟨next, same, executed, between, frame⟩, once, twice, first,
    second, back, collided, still⟩

end Chip8.Machine
