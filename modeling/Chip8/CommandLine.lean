import Chip8.Colour
import Chip8.CommandLine.Token
import Chip8.History
import Chip8.Text.Decimal

/-!
# The command line

A command line names one program and may set the scale, the tick rate, the depth
of the history, the colours and whether tones are muted. Arguments are read from
left to right, and the first fault that is found decides the answer. A request
for help or for the version ends the reading in the same way.

A setting takes its value from the same argument, behind the first equals sign,
or from the next one, unless that looks like an option itself. After `--` every
argument is a program name, and so is a lone dash.

A program name, and a value that is an argument of its own, are put aside until
the next argument is known to have a place on the command line. So an argument
that has none, such as an unknown option, is refused before a value to its left
is found to be unreadable.
-/

namespace Chip8

open Chip8.Text

/-- The settings of a session at a host. -/
structure Options where
  /-- The name of the program. -/
  rom : String
  /-- The size of a pixel on the host's screen. -/
  scale : UInt32
  /-- The number of cycles in a second. -/
  tickRate : UInt32
  /-- The number of cycles that can be rewound. -/
  history : UInt64
  /-- Whether tones are muted. -/
  mute : Bool
  /-- The colour of lit pixels. -/
  foreground : Colour
  /-- The colour of unlit pixels. -/
  background : Colour
deriving DecidableEq, Repr

namespace CommandLine

/-- The size of a pixel unless the command line sets another. -/
def defaultScale : UInt32 := 10

/-- The number of cycles in a second unless the command line sets another. -/
def defaultTickRate : UInt32 := 60

/-- Why a command line yields no options. -/
inductive Refusal where
  /-- The help text is asked for. -/
  | helpRequested
  /-- The version is asked for. -/
  | versionRequested
  /-- No option has this name, or a program is already named. -/
  | unknownArgument (argument : String)
  /-- The value of a setting is missing. -/
  | missingValue (setting : Setting)
  /-- The name of the program is empty. -/
  | emptyRom
  /-- The value of a setting cannot be read. -/
  | unreadableValue (setting : Setting) (value : String)
  /-- A switch is given a value. -/
  | unexpectedValue (switch : Switch)
  /-- A setting is given twice. -/
  | repeatedSetting (setting : Setting)
  /-- A switch is given twice. -/
  | repeatedSwitch (switch : Switch)
  /-- No program is named. -/
  | missingRom
deriving DecidableEq, Repr

/-- The wording of a refusal. -/
def Refusal.message : Refusal → String
  | .helpRequested => "help requested"
  | .versionRequested => "version requested"
  | .unknownArgument argument => "unexpected argument '" ++ argument ++ "' found"
  | .missingValue setting => "a value is required for '--" ++ setting.name ++ "'"
  | .emptyRom => "a value is required for '<ROM>'"
  | .unreadableValue setting value =>
    "invalid value '" ++ value ++ "' for '--" ++ setting.name ++ "'"
  | .unexpectedValue switch => "unexpected value for '--" ++ switch.name ++ "'"
  | .repeatedSetting setting =>
    "the argument '--" ++ setting.name ++ "' cannot be used multiple times"
  | .repeatedSwitch switch =>
    "the argument '--" ++ switch.name ++ "' cannot be used multiple times"
  | .missingRom => "the argument '<ROM>' was not provided"

/-- The options that have been read so far. -/
structure Draft where
  rom : Option String
  scale : Option UInt32
  tickRate : Option UInt32
  history : Option UInt64
  mute : Bool
  foreground : Option Colour
  background : Option Colour
deriving DecidableEq, Repr

namespace Draft

/-- No options read. -/
def empty : Draft := ⟨none, none, none, none, false, none, none⟩

/-- A number of 32 bits, which may have a sign. -/
def word? (text : String) : Option UInt32 := do
  let value ← Decimal.integer? text.toList
  if 0 ≤ value ∧ value < UInt32.size then
    return UInt32.ofNat value.toNat
  else
    none

/-- A number of 64 bits, which may have a plus sign. -/
def longWord? (text : String) : Option UInt64 := do
  let value ← Decimal.natural? text.toList
  if value < UInt64.size then
    return UInt64.ofNat value
  else
    none

/-- A colour, without the reason if there is none. -/
def colour? (text : String) : Option Colour :=
  (Colour.parse text).toOption

/-- Reads the value of a setting that has not been given before. -/
def fill {α : Type} (setting : Setting) (slot : Option α) (read : String → Option α)
    (value : String) : Except Refusal (Option α) :=
  if slot.isSome then
    .error (.repeatedSetting setting)
  else
    match read value with
    | some result => .ok (some result)
    | none => .error (.unreadableValue setting value)

/-- The draft with a setting given. -/
def assign (draft : Draft) (setting : Setting) (value : String) : Except Refusal Draft :=
  match setting with
  | .scale => do
    let scale ← fill setting draft.scale word? value
    return { draft with scale }
  | .tickRate => do
    let tickRate ← fill setting draft.tickRate word? value
    return { draft with tickRate }
  | .history => do
    let history ← fill setting draft.history longWord? value
    return { draft with history }
  | .foreground => do
    let foreground ← fill setting draft.foreground colour? value
    return { draft with foreground }
  | .background => do
    let background ← fill setting draft.background colour? value
    return { draft with background }

/-- The draft with a switch given. -/
def turnOn (draft : Draft) (switch : Switch) : Except Refusal Draft :=
  match switch with
  | .help => .error .helpRequested
  | .version => .error .versionRequested
  | .mute =>
    if draft.mute then
      .error (.repeatedSwitch .mute)
    else
      .ok { draft with mute := true }

/-- The draft with a program named. -/
def nameRom (draft : Draft) (rom : String) : Except Refusal Draft :=
  if rom = "" then
    .error .emptyRom
  else
    .ok { draft with rom := some rom }

/-- The options of a draft, with defaults for what was not given. -/
def finish (draft : Draft) : Except Refusal Options :=
  match draft.rom with
  | none => .error .missingRom
  | some rom =>
    .ok
      { rom
        scale := draft.scale.getD defaultScale
        tickRate := draft.tickRate.getD defaultTickRate
        history := draft.history.getD (UInt64.ofNat History.defaultDepth)
        mute := draft.mute
        foreground := draft.foreground.getD Colour.white
        background := draft.background.getD Colour.black }

end Draft

/-- What has been read and put aside until the next argument is seen. -/
inductive Pending where
  /-- The name of the program. -/
  | rom (name : String)
  /-- A setting whose value is still to come. -/
  | awaiting (setting : Setting)
  /-- A setting and its value. -/
  | valued (setting : Setting) (value : String)
deriving DecidableEq, Repr

/-- What is known of a command line after some of its arguments. -/
structure Reader where
  /-- The options that have been taken. -/
  draft : Draft
  /-- What is still to be taken. -/
  pending : Option Pending
  /-- Whether the options have ended, so that only program names follow. -/
  optionsEnded : Bool
deriving DecidableEq, Repr

namespace Reader

/-- No arguments read. -/
def start : Reader := ⟨.empty, none, false⟩

/-- The draft with what was put aside. -/
def settle (reader : Reader) : Except Refusal Draft :=
  match reader.pending with
  | none => .ok reader.draft
  | some (.rom name) => reader.draft.nameRom name
  | some (.awaiting setting) => .error (.missingValue setting)
  | some (.valued setting value) => reader.draft.assign setting value

/-- Takes what was put aside and then makes a change. -/
def take (reader : Reader) (change : Draft → Except Refusal Draft) : Except Refusal Reader := do
  let settled ← reader.settle
  let draft ← change settled
  return { reader with draft, pending := none }

/-- Takes what was put aside and puts something else aside. -/
def hold (reader : Reader) (pending : Pending) : Except Refusal Reader := do
  let draft ← reader.settle
  return { reader with draft, pending := some pending }

/-- Whether a program has been named. -/
def hasRom (reader : Reader) : Bool :=
  match reader.pending with
  | some (.rom _) => true
  | _ => reader.draft.rom.isSome

/-- Reads an argument that is not an option. A setting that waits for its value takes
it, unless the options have ended. Otherwise it names the program, which can be done once. -/
def readPlain (reader : Reader) (argument : String) : Except Refusal Reader :=
  match reader.optionsEnded, reader.pending with
  | false, some (.awaiting setting) =>
    .ok { reader with pending := some (.valued setting argument) }
  | _, _ =>
    if reader.hasRom then
      .error (.unknownArgument argument)
    else
      reader.hold (.rom argument)

/-- Reads one argument. -/
def read (reader : Reader) (argument : String) : Except Refusal Reader :=
  if reader.optionsEnded then
    reader.readPlain argument
  else
    match Token.ofArgument argument with
    | .endOfOptions => .ok { reader with optionsEnded := true }
    | .plain => reader.readPlain argument
    | .unknown => .error (.unknownArgument argument)
    | .switch switch true => .error (.unexpectedValue switch)
    | .switch switch false => reader.take (·.turnOn switch)
    | .setting setting (some value) => reader.take (·.assign setting value)
    | .setting setting none => reader.hold (.awaiting setting)

end Reader

/-- The options of a command line. -/
def parse (arguments : List String) : Except Refusal Options := do
  let reader ← arguments.foldlM Reader.read Reader.start
  let draft ← reader.settle
  draft.finish

end CommandLine

end Chip8
