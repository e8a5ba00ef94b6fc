import Chip8.CommandLine.Options

namespace Chip8.CommandLine

/-- What an argument looks like on its own. -/
inductive Argument where
  /-- Two dashes: all that follows is plain. -/
  | endOfOptions
  /-- Two dashes and a name, with a value behind an equals sign. -/
  | long (name : String) (value : Option String)
  /-- One dash and a letter, whatever follows it. -/
  | short (letter : Char)
  | plain (text : String)
  deriving DecidableEq

namespace Argument

/-- A text up to its first equals sign, and what follows the sign. -/
def splitValue (cs : List Char) : String × Option String :=
  (String.ofList (cs.takeWhile (· ≠ '=')),
    match cs.dropWhile (· ≠ '=') with
    | [] => none
    | _ :: value => some (String.ofList value))

/-- The look of an argument. One dash alone is plain. -/
def ofText (text : String) : Argument :=
  match text.toList with
  | ['-', '-'] => endOfOptions
  | '-' :: '-' :: rest =>
      let (name, value) := splitValue rest
      long name value
  | '-' :: letter :: _ => short letter
  | _ => plain text

end Argument

/-- Why a command line is not carried out as a run. -/
inductive Refusal where
  | usage (cause : UsageError)
  | version
  | help
  deriving DecidableEq

/-- What the arguments read so far have set. -/
structure Draft where
  rom : Option String := none
  ips : Option UInt32 := none
  frames : Option UInt64 := none
  seed : Option UInt64 := none
  strict : Bool := false
  shift : Option ShiftMode := none
  sprite : Option SpriteMode := none
  keys : List Key := []
  realtime : Bool := false

namespace Draft

def readRate (text : String) : Except ValueError UInt32 :=
  match Text.Numeral.integer text.toList with
  | .error cause => .error (.numeral cause)
  | .ok n =>
      if 0 ≤ n ∧ n < UInt32.size then .ok (UInt32.ofNat n.toNat)
      else .error (.rateOutOfRange n)

def readWord64 (text : String) : Except ValueError UInt64 :=
  ((Text.Numeral.natural 10 (UInt64.size - 1) text.toList).map UInt64.ofNat).mapError .numeral

/-- What a search for a mode by its name has found. -/
def readMode {α : Type} (found : Option α) : Except ValueError α :=
  match found with
  | some mode => .ok mode
  | none => .error .unknownMode

/-- Whether an option has its one value. A key may be given again and again. -/
def has (d : Draft) : Setting → Bool
  | .ips => d.ips.isSome
  | .frames => d.frames.isSome
  | .seed => d.seed.isSome
  | .shift => d.shift.isSome
  | .sprite => d.sprite.isSome
  | .key => false

def assign (s : Setting) (text : String) (d : Draft) : Except ValueError Draft :=
  match s with
  | .ips => (readRate text).map fun n => { d with ips := some n }
  | .frames => (readWord64 text).map fun n => { d with frames := some n }
  | .seed => (readWord64 text).map fun n => { d with seed := some n }
  | .shift => (readMode (ShiftMode.ofName? text)).map fun mode => { d with shift := some mode }
  | .sprite => (readMode (SpriteMode.ofName? text)).map fun mode => { d with sprite := some mode }
  | .key => ((Key.parse text).map fun key => { d with keys := d.keys ++ [key] }).mapError .key

/-- The options that a draft amounts to, once it names a program. -/
def options? (d : Draft) : Option Options :=
  let default : Options := { rom := "" }
  d.rom.map fun rom =>
    { rom
      instructionsPerSecond := d.ips.getD default.instructionsPerSecond
      frames := d.frames.getD default.frames
      seed := d.seed
      config :=
        { strict := d.strict
          shift := d.shift.getD default.config.shift
          sprite := d.sprite.getD default.config.sprite }
      keys := d.keys
      realtime := d.realtime }

end Draft

/-- What has been read but is not yet in the draft. It is settled when the next
option or program shows up, or the arguments end. -/
inductive Pending where
  | nothing
  | program (path : String)
  | awaiting (s : Setting)
  | value (s : Setting) (text : String)
  deriving DecidableEq

structure Reading where
  draft : Draft := {}
  pending : Pending := .nothing
  optionsEnded : Bool := false

namespace Reading

/-- Give an option its value. That it has one already comes before what is wrong
with the value. -/
def assign (s : Setting) (text : String) (d : Draft) : Except UsageError Draft :=
  if d.has s then .error (.repeated (.setting s))
  else (d.assign s text).mapError (.invalidValue s text)

def settle (r : Reading) : Except UsageError Reading :=
  match r.pending with
  | .nothing => .ok r
  | .program path =>
      if path.isEmpty then .error (.missingValue .rom)
      else .ok { r with draft := { r.draft with rom := some path }, pending := .nothing }
  | .awaiting s => .error (.missingValue (.setting s))
  | .value s text =>
      (assign s text r.draft).map fun draft => { r with draft, pending := .nothing }

/-- Turn on a switch of a run, which is done once at most. -/
def turnOn (s : Switch) (d : Draft) : Except Refusal Draft :=
  match s with
  | .strict =>
      if d.strict then .error (.usage (.repeated (.switch s)))
      else .ok { d with strict := true }
  | .realtime =>
      if d.realtime then .error (.usage (.repeated (.switch s)))
      else .ok { d with realtime := true }
  | .version => .error .version
  | .help => .error .help

def readSwitch (s : Switch) (r : Reading) : Except Refusal Reading := do
  let r ← r.settle.mapError .usage
  let draft ← turnOn s r.draft
  return { r with draft }

/-- Read an option that takes a value, with one or without. -/
def readSetting (s : Setting) (value : Option String) (r : Reading) :
    Except UsageError Reading := do
  let r ← r.settle
  match value with
  | none => return { r with pending := .awaiting s }
  | some text => return { r with draft := ← assign s text r.draft }

def namesProgram (r : Reading) : Bool :=
  r.draft.rom.isSome || match r.pending with
    | .program _ => true
    | _ => false

/-- Read an argument that can only be the path of the program. -/
def readProgram (text : String) (r : Reading) : Except UsageError Reading :=
  if r.namesProgram then .error (.unexpectedArgument text)
  else r.settle.map fun r => { r with pending := .program text }

/-- Read an argument that looks plain: the value of an option that awaits one,
else the path of the program. -/
def readPlain (text : String) (r : Reading) : Except UsageError Reading :=
  match r.pending with
  | .awaiting s => .ok { r with pending := .value s text }
  | _ => r.readProgram text

/-- Read one argument. What is wrong with its own look comes before what is
wrong with a pending value. -/
def read (text : String) (r : Reading) : Except Refusal Reading :=
  if r.optionsEnded then (r.readProgram text).mapError .usage
  else match Argument.ofText text with
    | .endOfOptions => .ok { r with optionsEnded := true }
    | .long name value =>
      match Parameter.ofName? name, value with
      | some (.setting s), value => (r.readSetting s value).mapError .usage
      | some (.switch s), none => r.readSwitch s
      | some (.switch s), some value => .error (.usage (.unexpectedValue s value))
      | _, _ => .error (.usage (.unexpectedArgument ("--" ++ name)))
    | .short 'V' => r.readSwitch .version
    | .short 'h' => r.readSwitch .help
    | .short letter => .error (.usage (.unexpectedArgument ("-" ++ letter.toString)))
    | .plain text => (r.readPlain text).mapError .usage

def finish (r : Reading) : Except UsageError Options := do
  let r ← r.settle
  match r.draft.options? with
  | some options => return options
  | none => throw .missingProgram

end Reading

def Options.parse (arguments : List String) : Except Refusal Options := do
  let r ← arguments.foldlM (fun r text => r.read text) ({} : Reading)
  r.finish.mapError .usage

end Chip8.CommandLine
