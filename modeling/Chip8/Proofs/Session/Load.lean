import Chip8.Proofs.Rom.Source
import Chip8.Session.Call

/-!
# Loading anew

Whatever a session was before, a load leaves a fresh machine behind, with the
program in its memory if there is one that fits. The history is gone, and only
the keypad stays (`Renewed`).

`loadFrom_of_delivers` says that a source makes no difference. However it cuts its
data into pieces, and whenever it interrupts, the load is that of the data, unless
the source fails in time.
-/

namespace Chip8.Session

/-- What a load that has this result makes of a session. -/
structure Renewed (before : Session) (rom : List UInt8) (result : Except LoadError Nat)
    (after : Session) : Prop where
  history : after.history = History.empty before.history.depth
  keys : after.keys = before.keys
  failed : ∀ error, result = .error error → after.machine = Machine.fresh
  loaded : ∀ size, result = .ok size → size = rom.length ∧ after.machine.Carries rom

/-- A load that fails leaves nothing but the keypad and the room for a history. -/
theorem Renewed.eq_of_error {before after : Session} {rom : List UInt8}
    {result : Except LoadError Nat} {error : LoadError}
    (renewed : before.Renewed rom result after) (reported : result = .error error) :
    after = ⟨Machine.fresh, History.empty before.history.depth, before.keys⟩ := by
  rw [← renewed.failed error reported, ← renewed.history, ← renewed.keys]

theorem renewed_afterLoad (session : Session) {rom : List UInt8} {loading : Rom.Loading}
    (renews : Rom.Renews rom (loading.run session.machine)) :
    session.Renewed rom (session.afterLoad loading).1 (session.afterLoad loading).2 where
  history := rfl
  keys := rfl
  failed _ told := renews.eq_fresh told
  loaded _ told := renews.carries told

theorem renewed_load (session : Session) (rom : List UInt8) :
    session.Renewed rom (session.load rom).1 (session.load rom).2 :=
  session.renewed_afterLoad (Rom.renews_install rom session.machine)

/-- The size of a program is told, and also if it does not fit. -/
theorem result_load (session : Session) (rom : List UInt8) :
    (session.load rom).1 =
      if rom.length ≤ Rom.capacity then .ok rom.length
      else .error (.tooLarge rom.length Rom.capacity) := by
  show ((Rom.install rom).run session.machine).1 = _
  rw [Rom.run_install]
  split
  · rfl
  · rfl

variable {source : Source} {data : List UInt8} {failure : Option Source.Failure}

theorem renewed_loadFrom (session : Session) (delivers : source.Delivers data failure) :
    session.Renewed data (session.loadFrom source).1 (session.loadFrom source).2 :=
  session.renewed_afterLoad (Rom.renews_installFrom delivers session.machine)

/-- A source that does not fail in time is loaded as its data is, but for the size that is told. -/
theorem loadFrom_of_unnoticed (session : Session) (delivers : source.Delivers data failure)
    (unnoticed : ∀ late ∈ failure, ¬ late.Noticed data) :
    (session.loadFrom source).2 = (session.load data).2 ∧
      (session.loadFrom source).1 =
        if data.length ≤ Rom.capacity then (session.load data).1
        else .error (.tooLarge (Rom.capacity + 1) Rom.capacity) := by
  simp only [loadFrom, load, afterLoad, Rom.reportedSize, Rom.machineAfter,
    Rom.run_installFrom_of_unnoticed delivers unnoticed]
  split
  · exact ⟨rfl, rfl⟩
  · next excess =>
    rw [Rom.run_install, if_neg excess]
    exact ⟨rfl, rfl⟩

/-- A load from a source is the load of its data, whatever the pieces and interruptions in which the
data comes. Only a failure that comes with the data and before the limit is reported, and the size
of data past the limit is not known.

Either load leaves a fresh machine, with the program in memory if there is one that fits, no
history, and the keypad as it was. -/
theorem loadFrom_of_delivers (session : Session) (source : Source) (data : List UInt8)
    (failure : Option Source.Failure) (delivers : source.Delivers data failure) :
    (∀ late ∈ failure, late.after ≤ data.length ∧ late.after < 3585 →
      (Rom.drain source).bytes = data.take late.after ∧
        (session.loadFrom source).1 = .error (.unreadable late.reason)) ∧
    ((∀ late ∈ failure, ¬ (late.after ≤ data.length ∧ late.after < 3585)) →
      (Rom.drain source).bytes = data.take 3585 ∧
        (session.loadFrom source).2 = (session.load data).2 ∧
        (session.loadFrom source).1 =
          if data.length ≤ 3584 then (session.load data).1 else .error (.tooLarge 3585 3584)) ∧
    (session.load data).1 =
      (if data.length ≤ 3584 then .ok data.length else .error (.tooLarge data.length 3584)) ∧
    session.Renewed data (session.load data).1 (session.load data).2 ∧
    session.Renewed data (session.loadFrom source).1 (session.loadFrom source).2 := by
  have early (late : Source.Failure) :
      late.Noticed data ↔ late.after ≤ data.length ∧ late.after < 3585 :=
    and_congr_right' Nat.lt_succ_iff.symm
  refine ⟨?_, ?_, session.result_load data, session.renewed_load data,
    session.renewed_loadFrom delivers⟩
  · rintro late rfl inTime
    have noticed : late.Noticed data := (early late).mpr inTime
    refine ⟨congrArg Source.Drained.bytes (Rom.drain_of_noticed delivers noticed), ?_⟩
    exact congrArg Prod.fst (Rom.run_installFrom_of_noticed delivers noticed session.machine)
  · intro inTime
    have unnoticed : ∀ late ∈ failure, ¬ late.Noticed data :=
      fun late stored noticed => inTime late stored ((early late).mp noticed)
    exact ⟨congrArg Source.Drained.bytes (Rom.drain_of_unnoticed delivers unnoticed),
      session.loadFrom_of_unnoticed delivers unnoticed⟩

/-- A program has run and a key is down when a source is loaded that fails right at the end of its
data, where it could as well have ended. -/
theorem loadFrom_of_delivers_end :
    let session := (start 2).afterAll [.load [0x12, 0x00], .cycle 0, .keys (.press 5)]
    let source : Source :=
      [.interrupted, .chunk [0x60], .interrupted, .interrupted, .chunk [0x01], .failed "unplugged"]
    session.history.saved.length = 1 ∧
      source.Delivers [0x60, 0x01] (some ⟨2, "unplugged"⟩) ∧
      (Rom.drain source).bytes = [0x60, 0x01] ∧
      (session.loadFrom source).1 = .error (.unreadable "unplugged") ∧
      (session.loadFrom source).2 =
        ⟨Machine.fresh, History.empty 2, Keypad.released.press 5⟩ := by
  intro session source
  obtain ⟨ran, depth, keys⟩ : session.history.saved.length = 1 ∧ session.history.depth = 2 ∧
      session.keys = Keypad.released.press 5 := by
    decide +kernel
  have delivers : source.Delivers [0x60, 0x01] (some ⟨2, "unplugged"⟩) := by
    rw [Source.Delivers, if_pos (by decide)]
    exact .interrupted (.chunk (by decide) (.interrupted (.interrupted (.chunk (by decide)
      (.failed "unplugged" [])))))
  obtain ⟨noticed, -, -, -, renewed⟩ :=
    loadFrom_of_delivers session source [0x60, 0x01] (some ⟨2, "unplugged"⟩) delivers
  obtain ⟨taken, reported⟩ := noticed ⟨2, "unplugged"⟩ rfl (by decide)
  have left := renewed.eq_of_error reported
  rw [depth, keys] at left
  exact ⟨ran, delivers, taken, reported, left⟩

end Chip8.Session
