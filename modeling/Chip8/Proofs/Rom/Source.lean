import Chip8.Rom.Source

/-!
# Programs from a source

A source may cut its data into pieces as it likes and interrupt between them.
`drain_of_gives` says that none of this matters: what is taken from a source
depends on the bytes that it gives alone, and a failure comes to light exactly if
it comes before the limit. So a program from a source is installed like the data
itself (`run_installFrom_of_unnoticed`), but that the size of one that does not fit
is not known beyond the limit.

Whatever a machine was, loading renews it (`Renews`): a failure leaves a fresh machine,
and a success leaves one that is fresh but for the bytes of the program (`Carries`).
-/

namespace Chip8

namespace Source

/-- A source gives some bytes, and then it ends or fails for a reason. -/
inductive Gives : Source → List UInt8 → Option String → Prop where
  /-- There are no more replies. -/
  | exhausted : Gives [] [] none
  /-- No bytes at all mark the end. -/
  | ended (unread : Source) : Gives (.chunk [] :: unread) [] none
  | failed (reason : String) (unread : Source) :
      Gives (.failed reason :: unread) [] (some reason)
  | interrupted {later : Source} {bytes : List UInt8} {failure : Option String}
      (rest : Gives later bytes failure) : Gives (.interrupted :: later) bytes failure
  | chunk {piece : List UInt8} {later : Source} {bytes : List UInt8} {failure : Option String}
      (nonempty : piece ≠ []) (rest : Gives later bytes failure) :
      Gives (.chunk piece :: later) (piece ++ bytes) failure

/-- A failure that a source has in store, for when it has given so many bytes. -/
structure Failure where
  after : Nat
  reason : String
deriving DecidableEq, Repr

/-- A source delivers data. If it has a failure in store, it fails unless the data ends before. -/
def Delivers (source : Source) (data : List UInt8) : Option Failure → Prop
  | none => source.Gives data none
  | some failure =>
    if failure.after ≤ data.length then
      source.Gives (data.take failure.after) (some failure.reason)
    else
      source.Gives data none

@[simp] theorem drain_zero (source : Source) : source.drain 0 = ⟨[], none⟩ := by
  cases source <;> rfl

/-- What is taken from a source depends on the bytes that it gives alone. Its failure is noticed if
it comes before the limit. -/
theorem drain_of_gives {source : Source} {bytes : List UInt8} {failure : Option String}
    (gives : source.Gives bytes failure) (limit : Nat) :
    source.drain limit =
      if bytes.length < limit then ⟨bytes, failure⟩ else ⟨bytes.take limit, none⟩ := by
  induction gives generalizing limit with
  | exhausted => simp [drain]
  | ended unread | failed reason unread =>
    cases limit with
    | zero => simp
    | succ more => simp [drain]
  | interrupted rest inductionHypothesis =>
    cases limit with
    | zero => simp
    | succ more => simpa [drain] using inductionHypothesis (more + 1)
  | @chunk piece later bytes failure nonempty rest inductionHypothesis =>
    have filled : piece.isEmpty = false := List.isEmpty_eq_false_iff.mpr nonempty
    by_cases enough : limit < piece.length
    · -- The limit is reached within the piece, and nothing after it is looked at.
      have cut : (piece.take limit).length = limit := List.length_take_of_le (Nat.le_of_lt enough)
      have beyond : ¬ (piece ++ bytes).length < limit := by
        rw [List.length_append]
        omega
      rw [if_neg beyond, List.take_append_of_le_length (Nat.le_of_lt enough)]
      cases limit with
      | zero => simp
      | succ more => simp [drain, filled, cut]
    · have whole : piece.take limit = piece := List.take_of_length_le (Nat.not_lt.mp enough)
      have more : limit ≠ 0 := by
        have positive : 0 < piece.length := List.length_pos_iff.mpr nonempty
        omega
      have room : bytes.length < limit - piece.length ↔ (piece ++ bytes).length < limit := by
        rw [List.length_append]
        omega
      simp only [drain, more, filled, whole, inductionHypothesis, room, Bool.false_eq_true,
        if_false]
      split
      · rfl
      · rw [List.take_append, whole]

end Source

/-- A failure comes before the data ends and before as many bytes are taken as are asked for. -/
def Source.Failure.Noticed (failure : Failure) (data : List UInt8) : Prop :=
  failure.after ≤ data.length ∧ failure.after ≤ Rom.capacity

namespace Rom

variable {source : Source} {data : List UInt8} {failure : Option Source.Failure}

/-- A failure that is noticed comes after as many bytes as the source has given. -/
theorem drain_of_noticed {late : Source.Failure} (delivers : source.Delivers data (some late))
    (noticed : late.Noticed data) : drain source = ⟨data.take late.after, some late.reason⟩ := by
  obtain ⟨within, early⟩ := noticed
  rw [Source.Delivers, if_pos within] at delivers
  have given : (data.take late.after).length = late.after := List.length_take_of_le within
  rw [drain, Source.drain_of_gives delivers, given, if_pos (Nat.lt_succ_of_le early)]

/-- Without one, the data is taken up to the limit. -/
theorem drain_of_unnoticed (delivers : source.Delivers data failure)
    (unnoticed : ∀ late ∈ failure, ¬ late.Noticed data) :
    drain source = ⟨data.take (capacity + 1), none⟩ := by
  have unfailing (gives : source.Gives data none) :
      drain source = ⟨data.take (capacity + 1), none⟩ := by
    rw [drain, Source.drain_of_gives gives]
    split
    · next short => rw [List.take_of_length_le (Nat.le_of_lt short)]
    · rfl
  cases failure with
  | none => exact unfailing delivers
  | some late =>
    by_cases within : late.after ≤ data.length
    · -- The failure is past the limit.
      have past : capacity < late.after :=
        Nat.not_le.mp fun early => unnoticed late rfl ⟨within, early⟩
      rw [Source.Delivers, if_pos within] at delivers
      have given : (data.take late.after).length = late.after := List.length_take_of_le within
      rw [drain, Source.drain_of_gives delivers, given, if_neg (Nat.not_lt.mpr past),
        List.take_take, Nat.min_eq_left past]
    · rw [Source.Delivers, if_neg within] at delivers
      exact unfailing delivers

theorem run_installFrom_of_noticed {late : Source.Failure}
    (delivers : source.Delivers data (some late)) (noticed : late.Noticed data)
    (machine : Machine) :
    (installFrom source).run machine = (.error (.unreadable late.reason), Machine.fresh) := by
  rw [run_installFrom, drain_of_noticed delivers noticed]

/-- Data from a source is installed like data at hand, but that its size is not known beyond the
limit. -/
theorem run_installFrom_of_unnoticed (delivers : source.Delivers data failure)
    (unnoticed : ∀ late ∈ failure, ¬ late.Noticed data) (machine : Machine) :
    (installFrom source).run machine =
      if data.length ≤ capacity then (install data).run machine
      else (.error (.tooLarge (capacity + 1) capacity), Machine.fresh) := by
  rw [run_installFrom, drain_of_unnoticed delivers unnoticed]
  show (install (data.take (capacity + 1))).run Machine.fresh = _
  by_cases fits : data.length ≤ capacity
  · rw [if_pos fits, List.take_of_length_le (Nat.le_succ_of_le fits), run_install, run_install]
  · have limit : (data.take (capacity + 1)).length = capacity + 1 :=
      List.length_take_of_le (Nat.not_le.mp fits)
    rw [if_neg fits, run_install, limit, if_neg (Nat.not_succ_le_self capacity)]

end Rom

/-- A machine is fresh but for a program in its memory, from the program start on. -/
structure Machine.Carries (machine : Machine) (rom : List UInt8) : Prop where
  program : ∀ offset, ∀ inside : offset < rom.length,
    machine.memory[programStart + offset]? = some rom[offset]
  outside : ∀ address, address < programStart ∨ programStart + rom.length ≤ address →
    machine.memory[address]? = fresh.memory[address]?
  elsewhere : machine = { fresh with memory := machine.memory }

/-- A program that fits is carried by the machine that it is laid into. -/
theorem Machine.carries_overlay {rom : List UInt8} (fits : rom.length ≤ Rom.capacity) :
    Carries { fresh with memory := overlay fresh.memory programStart rom } rom where
  program offset inside := by
    have ends : programStart + rom.length ≤ 4096 := Nat.add_le_of_le_sub' (by decide) fits
    have covered : programStart ≤ programStart + offset ∧
        programStart + offset < programStart + rom.length := by omega
    rw [getElem?_overlay _ _ _ ends, if_pos covered, Nat.add_sub_cancel_left,
      List.getElem?_eq_getElem inside]
  outside address apart := by
    have ends : programStart + rom.length ≤ 4096 := Nat.add_le_of_le_sub' (by decide) fits
    have uncovered : ¬ (programStart ≤ address ∧ address < programStart + rom.length) := by omega
    rw [getElem?_overlay _ _ _ ends, if_neg uncovered]
  elsewhere := rfl

namespace Rom

/-- What may be told of an attempt to load a program, and left behind by it. If it fails, a fresh
machine is left, and else one that carries the program. -/
inductive Renews (rom : List UInt8) : Except LoadError Nat × Machine → Prop where
  | failed (error : LoadError) : Renews rom (.error error, Machine.fresh)
  | loaded {machine : Machine} (carries : machine.Carries rom) :
      Renews rom (.ok rom.length, machine)

theorem Renews.eq_fresh {rom : List UInt8} {ended : Except LoadError Nat × Machine}
    (renews : Renews rom ended) {error : LoadError} (told : ended.1 = .error error) :
    ended.2 = Machine.fresh := by
  cases renews with
  | failed cause => rfl
  | loaded carries => cases told

theorem Renews.carries {rom : List UInt8} {ended : Except LoadError Nat × Machine}
    (renews : Renews rom ended) {size : Nat} (told : ended.1 = .ok size) :
    size = rom.length ∧ ended.2.Carries rom := by
  cases renews with
  | failed cause => cases told
  | loaded carries =>
    cases told
    exact ⟨rfl, carries⟩

theorem renews_install (rom : List UInt8) (machine : Machine) :
    Renews rom ((install rom).run machine) := by
  rw [run_install]
  split
  · next fits => exact .loaded (Machine.carries_overlay fits)
  · exact .failed _

/-- A program that comes from a source is loaded like one at hand, whatever the machine was. -/
theorem renews_installFrom {source : Source} {data : List UInt8}
    {failure : Option Source.Failure} (delivers : source.Delivers data failure)
    (machine : Machine) : Renews data ((installFrom source).run machine) := by
  by_cases fails : ∃ late ∈ failure, late.Noticed data
  · obtain ⟨late, rfl, noticed⟩ := fails
    rw [run_installFrom_of_noticed delivers noticed]
    exact .failed _
  · have unnoticed : ∀ late ∈ failure, ¬ late.Noticed data :=
      fun late stored noticed => fails ⟨late, stored, noticed⟩
    rw [run_installFrom_of_unnoticed delivers unnoticed]
    split
    · exact renews_install data machine
    · exact .failed _

end Rom

end Chip8
