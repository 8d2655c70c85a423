import Chip8.Proofs.Machine.Redraw
import Chip8.Proofs.Session.Call

/-!
# The screen of a host

A host sees nothing of the frame but what it is given, and it is given a frame only
if the redraw flag is up. That is enough. A host that paints every frame it is given
shows the frame of the machine whenever it has just asked for one
(`afterAll_start_frames`).

`Shows` is the invariant behind this: with the flag lowered, the frame last given is
the present one. Saved states need no part in it although their flags are old, for
going back raises the flag.
-/

namespace Chip8

/-- The frame that an answer hands over, if it does. -/
def Reply.frame? : Reply → Option Frame
  | .frame taken => taken
  | _ => none

namespace Session

/-- The frames that a host has been given, in order. -/
def frames (session : Session) (calls : List Call) : List Frame :=
  (session.replies calls).filterMap Reply.frame?

/-- A frame that was given last is the present one, unless the screen is to be painted again. -/
def Shows (session : Session) (shown : Option Frame) : Prop :=
  session.machine.redraw = false → shown = some session.machine.frame

/-- Only a host that asks for a frame is given one. -/
theorem frame?_reply {session : Session} {call : Call} (other : call ≠ .takeFrame) :
    (session.reply call).frame? = none := by
  cases call with
  | cycle random =>
    rcases session.cycle_runs_or_fails random with ⟨next, ran⟩ | ⟨fault, failed⟩
    · rw [reply_cycle_of_ok ran]
      rfl
    · rw [reply_cycle_of_fails failed]
      rfl
  | takeFrame => exact absurd rfl other
  | load rom | loadFrom source | reverse | keys change | takeTone => rfl

/-- The frame is given if the screen is to be painted again. -/
theorem reply_takeFrame (session : Session) :
    session.reply .takeFrame =
      .frame (if session.machine.redraw then some session.machine.frame else none) := by
  simp only [reply, call, takeFrame]
  split <;> rfl

theorem reply_takeFrame_eq_none_iff {session : Session} :
    session.reply .takeFrame = .frame none ↔ session.machine.redraw = false := by
  simp [reply_takeFrame]

/-- With the flag raised there is nothing to show. -/
theorem shows_of_redraw {session : Session} (raised : session.machine.redraw = true)
    (shown : Option Frame) : session.Shows shown := by
  intro lowered
  rw [raised] at lowered
  cases lowered

theorem Shows.cycle {session next : Session} {shown : Option Frame} (shows : session.Shows shown)
    {random : UInt8} (ran : session.cycle random = (.ok (), next)) : next.Shows shown := by
  intro lowered
  obtain ⟨before, same⟩ := Machine.frame_of_cycle (cycle_eq_ok_iff.mp ran).1 lowered
  rw [same]
  exact shows before

/-- After a call the host shows what it was given, or what it has shown before. -/
theorem Shows.after {session : Session} {shown : Option Frame} (shows : session.Shows shown)
    (call : Call) : (session.after call).Shows ((session.reply call).frame?.or shown) := by
  have reloaded := session.after_of_loads call
  cases call with
  | load rom | loadFrom source =>
    obtain ⟨memory, loaded⟩ := reloaded rfl
    rw [loaded]
    exact shows_of_redraw rfl _
  | cycle random =>
    rw [frame?_reply (by simp), Option.none_or]
    rcases session.cycle_runs_or_fails random with ⟨next, ran⟩ | ⟨fault, failed⟩
    · rw [after_cycle_of_ok ran]
      exact shows.cycle ran
    · rw [after_cycle_of_fails failed]
      exact shows
  | reverse =>
    cases saved : session.history.saved with
    | nil =>
      rw [after_reverse_of_nil saved]
      exact shows
    | cons state older =>
      rw [after_reverse_of_cons saved]
      exact shows_of_redraw rfl _
  | keys change =>
    rw [after_keys]
    exact shows
  | takeFrame =>
    rw [after_takeFrame, reply_takeFrame, Reply.frame?]
    intro
    split
    · rfl
    · next lowered => exact shows (Bool.eq_false_iff.mpr lowered)
  | takeTone =>
    rw [after_takeTone]
    exact shows

theorem getLast?_frames_cons (session : Session) (call : Call) (later : List Call) :
    (session.frames (call :: later)).getLast? =
      ((session.after call).frames later).getLast?.or (session.reply call).frame? := by
  rw [frames, replies, List.filterMap_cons]
  cases (session.reply call).frame? with
  | none => exact Option.or_none.symm
  | some frame =>
    rw [List.getLast?_cons, Option.or_some]
    rfl

theorem Shows.afterAll {session : Session} {shown : Option Frame} (shows : session.Shows shown)
    (calls : List Call) :
    (session.afterAll calls).Shows ((session.frames calls).getLast?.or shown) := by
  induction calls generalizing session shown with
  | nil => exact shows
  | cons call later inductionHypothesis =>
    rw [getLast?_frames_cons, Option.or_assoc]
    exact inductionHypothesis (shows.after call)

/-- Whatever calls a host makes, if it asks for a frame and is given none, then it has been given
one before, and the last one is the present frame. So the last frame it has been given, once it has
asked, is always the present one. -/
theorem afterAll_start_frames (depth : Nat) (calls : List Call) :
    let session := (start depth).afterAll calls
    (session.reply .takeFrame = .frame none →
      ((start depth).frames calls).getLast? = some session.machine.frame) ∧
    ((start depth).frames (calls ++ [.takeFrame])).getLast? =
      some (session.after .takeFrame).machine.frame := by
  intro session
  have shows (made : List Call) :
      ((start depth).afterAll made).Shows ((start depth).frames made).getLast? := by
    have started : (start depth).Shows none := shows_of_redraw rfl none
    have followed := started.afterAll made
    rw [Option.or_none] at followed
    exact followed
  constructor
  · intro unanswered
    exact shows calls (reply_takeFrame_eq_none_iff.mp unanswered)
  · have polled := shows (calls ++ [.takeFrame])
    rw [afterAll_append] at polled
    have lowered : (session.after .takeFrame).machine.redraw = false := by rw [after_takeFrame]
    exact polled lowered

/-- A program draws a glyph, and the host goes back to before that. Having been given the blank
screen, the glyph and the blank screen again, it is given no more. -/
theorem afterAll_start_frames_reverse :
    let calls : List Call :=
      [.load [0xD0, 0x05], .takeFrame, .cycle 0, .takeFrame, .reverse, .takeFrame]
    ((start 4).afterAll calls).reply .takeFrame = .frame none ∧
      ((start 4).frames calls).getLast? = some ((start 4).afterAll calls).machine.frame ∧
      ((start 4).frames calls).length = 3 ∧
      (start 4).frames calls ≠ List.replicate 3 Frame.blank := by
  intro calls
  obtain ⟨lowered, given, drawn⟩ : ((start 4).afterAll calls).machine.redraw = false ∧
      ((start 4).frames calls).length = 3 ∧
      (start 4).frames calls ≠ List.replicate 3 Frame.blank := by
    decide +kernel
  have unanswered : ((start 4).afterAll calls).reply .takeFrame = .frame none :=
    reply_takeFrame_eq_none_iff.mpr lowered
  exact ⟨unanswered, (afterAll_start_frames 4 calls).1 unanswered, given, drawn⟩

end Session

end Chip8
