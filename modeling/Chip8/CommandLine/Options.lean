import Chip8.CommandLine.KeyNumeral
import Chip8.Config
import Chip8.Text.Shown

namespace Chip8.CommandLine

/-- What a command line asks for. -/
structure Options where
  rom : String
  instructionsPerSecond : UInt32 := 700
  frames : UInt64 := 600
  /-- The seed of the random bytes. Without it they are seeded by chance. -/
  seed : Option UInt64 := none
  config : Config := {}
  keys : List Key := []
  /-- Let frames take the time that they stand for. -/
  realtime : Bool := false

/-- An option that takes a value. -/
inductive Setting where
  | ips | frames | seed | shift | sprite | key
  deriving DecidableEq

namespace Setting

def all : List Setting := [ips, frames, seed, shift, sprite, key]

def name : Setting → String
  | ips => "ips"
  | frames => "frames"
  | seed => "seed"
  | shift => "shift-quirk"
  | sprite => "sprite-mode"
  | key => "key"

/-- What stands for the value where an option is explained. -/
def placeholder : Setting → String
  | ips => "IPS"
  | frames => "FRAMES"
  | seed => "SEED"
  | shift => "SHIFT_QUIRK"
  | sprite => "SPRITE_MODE"
  | key => "KEYS"

end Setting

/-- An option that takes no value. -/
inductive Switch where
  | strict | realtime | version | help
  deriving DecidableEq

namespace Switch

def all : List Switch := [strict, realtime, version, help]

def name : Switch → String
  | strict => "strict"
  | realtime => "realtime"
  | version => "version"
  | help => "help"

end Switch

/-- What an argument can set. -/
inductive Parameter where
  | rom
  | setting (s : Setting)
  | switch (s : Switch)
  deriving DecidableEq

namespace Parameter

def ofName? (name : String) : Option Parameter :=
  ((Setting.all.find? (·.name == name)).map setting).or
    ((Switch.all.find? (·.name == name)).map switch)

def label : Parameter → String
  | rom => "<ROM>"
  | setting s => s!"--{s.name} <{s.placeholder}>"
  | switch s => s!"--{s.name}"

end Parameter

inductive ValueError where
  | numeral (cause : Text.NumeralError)
  /-- A rate is a number of 32 bits. -/
  | rateOutOfRange (rate : Int)
  | key (cause : KeyError)
  | unknownMode
  deriving DecidableEq

def ValueError.message : ValueError → String
  | numeral cause => cause.message
  | rateOutOfRange rate => s!"{rate} is not in 0..={UInt32.size - 1}"
  | key cause => cause.message
  | unknownMode => unknownModeMessage

inductive UsageError where
  | unexpectedArgument (text : String)
  | unexpectedValue (s : Switch) (value : String)
  | invalidValue (s : Setting) (value : String) (cause : ValueError)
  | missingValue (p : Parameter)
  | repeated (p : Parameter)
  | missingProgram
  deriving DecidableEq

def UsageError.message (e : UsageError) : String :=
  "error: " ++ match e with
    | unexpectedArgument text => s!"unexpected argument '{Text.shown text}' found"
    | unexpectedValue s value =>
        s!"unexpected value '{Text.shown value}' for '{(Parameter.switch s).label}' found; " ++
          "no more were expected"
    | invalidValue s value cause =>
        s!"invalid value '{Text.shown value}' for '{(Parameter.setting s).label}': " ++
          cause.message
    | missingValue p => s!"a value is required for '{p.label}' but none was supplied"
    | repeated p => s!"the argument '{p.label}' cannot be used multiple times"
    | missingProgram => "the following required arguments were not provided:"

end Chip8.CommandLine
