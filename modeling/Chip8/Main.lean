import Chip8.CommandLine
import Chip8.Frame.Pixmap
import Chip8.Machine.Report
import Chip8.Session

/-!
# The command

Runs a program at the tick rate until it halts. Every frame that is to be
painted goes to standard output as a portable pixmap, and a tone rings the bell on
standard error. No key is ever down.
-/

namespace Chip8.Command

/-- The version that is printed on request. -/
def version : String := "chip8 0.1.0"

/-- The help that is printed on request. -/
def usage : List String :=
  ["Play a Chip-8 ROM.",
   "",
   "Usage: chip8 [OPTIONS] <ROM>",
   "",
   "Arguments:",
   "  <ROM>  ROM image to load",
   "",
   "Options:",
   "      --scale <SCALE>            Size of each Chip-8 pixel on screen [default: 10]",
   "      --tick-rate <TICK_RATE>    Cycles executed per second [default: 60]",
   "      --history <HISTORY>        Number of past cycles kept for rewinding [default: 600]",
   "      --mute                     Don't ring the bell when the sound timer runs out",
   "      --foreground <FOREGROUND>  Colour of lit pixels as RRGGBB [default: FFFFFF]",
   "      --background <BACKGROUND>  Colour of unlit pixels as RRGGBB [default: 000000]",
   "  -h, --help                     Print help",
   "  -V, --version                  Print version"]

/-- A program file as a source. A file that cannot be read is a source that fails. -/
def source (name : String) : IO Source := do
  try
    let content ← IO.FS.readBinFile name
    return [.chunk content.toList]
  catch error =>
    return [.failed (toString error)]

/-- Paints what is to be painted, sounds what is to sound, and runs the next cycle. -/
partial def play (options : Options) (session : Session) : IO UInt32 := do
  let output ← IO.getStdout
  let (frame?, session) := session.takeFrame
  if let some frame := frame? then
    let picture := Pixmap.bytes options.scale.toNat options.foreground options.background frame
    output.write ⟨picture.toArray⟩
    output.flush
  let (tone, session) := session.takeTone
  if tone && !options.mute then
    IO.eprint "\x07"
  let random ← IO.rand 0 255
  match session.cycle (UInt8.ofNat random) with
  | (.error fault, halted) =>
    IO.eprintln ("Error: " ++ halted.machine.haltText ++ ": " ++ fault.message)
    return 1
  | (.ok (), next) =>
    IO.sleep (1000 / options.tickRate)
    play options next

/-- Loads the program and plays it. -/
def run (options : Options) : IO UInt32 := do
  if options.tickRate = 0 then
    IO.eprintln "Error: tick rate must be at least 1"
    return 1
  let session := Session.start options.history.toNat
  match session.loadFrom (← source options.rom) with
  | (.error error, _) =>
    IO.eprintln ("Error: unable to load " ++ options.rom ++ ": " ++ error.message)
    if let .unreadable reason := error then
      IO.eprintln reason
    return 1
  | (.ok _, loaded) => play options loaded

end Chip8.Command

/-- Runs the command. -/
def main (arguments : List String) : IO UInt32 := do
  match Chip8.CommandLine.parse arguments with
  | .ok options => Chip8.Command.run options
  | .error .helpRequested =>
    for line in Chip8.Command.usage do
      IO.println line
    return 0
  | .error .versionRequested =>
    IO.println Chip8.Command.version
    return 0
  | .error refusal =>
    IO.eprintln ("error: " ++ refusal.message)
    return 2
