import Chip8.CommandLine.Report

namespace Chip8.CommandLine

/-- The number of a cause. Some come as the complement of the number. -/
def causeCode (code : UInt32) : Nat :=
  if code.toNat < UInt32.size / 2 then code.toNat else UInt32.size - code.toNat

def readError (e : IO.Error) : FileError :=
  match e with
  | .noFileOrDirectory _ code text | .interrupted _ code text => .ofCode (causeCode code) text
  | .invalidArgument _ code text | .permissionDenied _ code text
  | .resourceExhausted _ code text | .inappropriateType _ code text
  | .noSuchThing _ code text | .alreadyExists _ code text => .ofCode (causeCode code) text
  | .otherError code text | .resourceBusy code text | .resourceVanished code text
  | .unsupportedOperation code text | .hardwareFault code text
  | .unsatisfiedConstraints code text | .illegalOperation code text
  | .protocolError code text | .timeExpired code text => .ofCode (causeCode code) text
  | .unexpectedEof => .other "Unexpected end of file" 0
  | .userError text => .other text 0

def readProgram (path : String) : IO (Except FileError Image) := do
  try
    let bytes ← IO.FS.readBinFile path
    return .ok bytes.data
  catch e =>
    return .error (readError e)

def chanceTape : IO RandomTape := do
  let bytes ← IO.getRandomBytes 8
  return .ofSeed (bytes.data.foldl (fun n b => n * 256 + b.toUInt64) 0)

/-- The level of entries to show: as the environment says, else those of
interest in any run. -/
def chosenLevel : IO (Option Level) := do
  match ← IO.getEnv "CHIP8_LOG" with
  | none => return some .info
  | some "off" => return none
  | some name => return some ((Level.ofName? name).getD .info)

/-- Run frames one by one, none of them ahead of its time. -/
def runPaced (start frames done : Nat) (s : Session) : IO (Except Fault Nat × Session) := do
  match frames with
  | 0 => return (.ok done, s)
  | frames + 1 =>
    match s.run 1 with
    | (.error fault, s) => return (.error fault, s)
    | (.ok _, s) =>
        let due := start + (done + 1) * Schedule.frameNanos
        let now ← IO.monoNanosNow
        if now < due then IO.sleep (UInt32.ofNat ((due - now) / 1000000))
        runPaced start frames (done + 1) s

/-- Show a report. The first `opening` entries were noted before the output. -/
def present (opening : Nat) (r : Report) : IO UInt32 := do
  let lines := r.journal.entries.toList.map Entry.line
  for line in lines.take opening do IO.println line
  IO.print r.output
  for line in lines.drop opening do IO.println line
  IO.eprint r.complaint
  return r.status

def carryOut (arguments : List String) : IO UInt32 := do
  match Options.parse arguments with
  | .error refusal =>
    let status ← present 0 (.ofRefusal refusal)
    if status ≠ 0 then IO.eprintln ""
    return status
  | .ok o =>
    let contents ← readProgram o.rom
    match o.start (← chanceTape) contents (← chosenLevel) with
    | .error cause => present 0 (.ofLoadError o.rom cause)
    | .ok session =>
      let (result, session) ←
        if o.realtime then runPaced (← IO.monoNanosNow) o.frames.toNat 0 session
        else pure (session.run o.frames.toNat)
      present session.journal.entries.size (.ofRun result session)

end Chip8.CommandLine

def main (arguments : List String) : IO UInt32 :=
  Chip8.CommandLine.carryOut arguments
