import Chip8.Rom

/-!
# Loading from a source of bytes

A source answers each request with some of its bytes, with an interruption or
with a failure. Interrupted requests are repeated. Reading ends at the end of
the data, at the first failure, or once a limit is reached, after which the
source is not asked again.

The limit for a program is one byte more than fits, which is enough to tell that
a program is too large.
-/

namespace Chip8

/-- One answer of a source to a request for bytes. -/
inductive Source.Reply where
  /-- Bytes of the data. None at all marks the end of the data. -/
  | chunk (bytes : List UInt8)
  /-- No bytes this time; the request may be repeated. -/
  | interrupted
  /-- The source fails, for a reason. -/
  | failed (reason : String)
deriving DecidableEq, Repr

/-- The answers of a source to one request after another. After the last one the data ends. -/
abbrev Source := List Source.Reply

/-- What has been taken from a source, and the reason if it failed. -/
structure Source.Drained where
  bytes : List UInt8
  failure : Option String
deriving DecidableEq, Repr

/-- Takes at most `limit` bytes from a source. -/
def Source.drain (limit : Nat) : Source → Source.Drained
  | [] => ⟨[], none⟩
  | reply :: rest =>
    if limit = 0 then
      ⟨[], none⟩
    else
      match reply with
      | .interrupted => Source.drain limit rest
      | .failed reason => ⟨[], some reason⟩
      | .chunk bytes =>
        if bytes.isEmpty then
          ⟨[], none⟩
        else
          let taken := bytes.take limit
          let later := Source.drain (limit - taken.length) rest
          ⟨taken ++ later.bytes, later.failure⟩

namespace Rom

/-- What the loader takes from a source: one byte more than fits. -/
def drain (source : Source) : Source.Drained :=
  source.drain (capacity + 1)

/-- Resets a machine and places the program that a source gives in its memory. -/
def installFrom (source : Source) : Loading := do
  modify Machine.reset
  let drained := drain source
  match drained.failure with
  | some reason => throw (.unreadable reason)
  | none => install drained.bytes

/-- A program from a source is what has been taken from the source, and a source that fails leaves
a fresh machine. -/
theorem run_installFrom (source : Source) (machine : Machine) :
    (installFrom source).run machine =
      match (drain source).failure with
      | some reason => (.error (.unreadable reason), Machine.fresh)
      | none => (install (drain source).bytes).run Machine.fresh := by
  simp only [installFrom, Attempt.run_bind, Attempt.run_modify, Machine.reset_eq_fresh]
  cases (drain source).failure with
  | some reason => rfl
  | none => rfl

end Rom

end Chip8
