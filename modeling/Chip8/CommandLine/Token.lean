/-!
# The arguments of a command line

What an argument is can be told from its text alone: a setting, which takes a
value, a switch, which takes none, the end of the options, or plain text. An
argument in the shape of an option that is neither a setting nor a switch is
unknown.
-/

namespace Chip8.CommandLine

/-- An option that takes a value. -/
inductive Setting where
  | scale
  | tickRate
  | history
  | foreground
  | background
deriving DecidableEq, Repr

/-- An option that takes no value. -/
inductive Switch where
  | mute
  | help
  | version
deriving DecidableEq, Repr

/-- The name of a setting behind its two dashes. -/
def Setting.name : Setting → String
  | .scale => "scale"
  | .tickRate => "tick-rate"
  | .history => "history"
  | .foreground => "foreground"
  | .background => "background"

/-- The name of a switch behind its two dashes. -/
def Switch.name : Switch → String
  | .mute => "mute"
  | .help => "help"
  | .version => "version"

/-- The setting of a name. -/
def Setting.ofName? (name : String) : Option Setting :=
  [Setting.scale, .tickRate, .history, .foreground, .background].find? (·.name == name)

/-- The switch of a name. -/
def Switch.ofName? (name : String) : Option Switch :=
  [Switch.mute, .help, .version].find? (·.name == name)

/-- What an argument is, seen on its own. -/
inductive Token where
  /-- The two dashes after which no options follow. -/
  | endOfOptions
  /-- A setting, with its value if that is attached. -/
  | setting (setting : Setting) (attached : Option String)
  /-- A switch, and whether a value is attached. -/
  | switch (switch : Switch) (attached : Bool)
  /-- An option that does not exist. -/
  | unknown
  /-- A program name or the value of a setting. -/
  | plain
deriving DecidableEq, Repr

/-- The token of an option with two dashes, from what follows the dashes. -/
def Token.ofLong (text : List Char) : Token :=
  let name := String.ofList (text.takeWhile (· != '='))
  let attached : Option String :=
    match text.dropWhile (· != '=') with
    | [] => none
    | _ :: value => some (String.ofList value)
  match Setting.ofName? name, Switch.ofName? name with
  | some found, _ => .setting found attached
  | none, some found => .switch found attached.isSome
  | none, none => .unknown

/-- The token of an argument. Of an option with one dash only the first letter counts. -/
def Token.ofArgument (argument : String) : Token :=
  match argument.toList with
  | ['-', '-'] => .endOfOptions
  | '-' :: '-' :: text => .ofLong text
  | '-' :: 'h' :: _ => .switch .help false
  | '-' :: 'V' :: _ => .switch .version false
  | '-' :: _ :: _ => .unknown
  | _ => .plain

end Chip8.CommandLine
