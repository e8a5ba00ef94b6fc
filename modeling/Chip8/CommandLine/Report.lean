import Chip8.CommandLine.Arguments
import Chip8.CommandLine.Help
import Chip8.Session
import Chip8.Text.Failure

namespace Chip8

/-- The entries that sum up the counts of a run, with the families that came up. -/
def Statistics.entries (s : Statistics) : List Entry :=
  ((Family.all.filter fun f => s.count f ≠ 0).map fun f => .executed f (s.count f)) ++
    [.summary s.total s.keyWaits s.ignored]

namespace CommandLine

/-- What a command line leaves behind. -/
structure Report where
  /-- Zero for success, one for a failed run, two for a wrong command line. -/
  status : UInt32 := 0
  output : String := ""
  journal : Journal := {}
  complaint : String := ""

namespace Report

def ofRefusal : Refusal → Report
  | .usage cause =>
      { status := 2, complaint := String.ofList (cause.message.toList.takeWhile (· ≠ '\n')) }
  | .version => { output := versionText }
  | .help => { output := helpText }

def ofLoadError (rom : String) (cause : LoadError) : Report :=
  { status := 1, complaint := Text.failure s!"failed to load {rom}" cause.chain }

/-- The report on a run: the last picture, the counts, and how it ended. -/
def ofRun (result : Except Fault Nat) (s : Session) : Report :=
  let output := s.machine.display.text ++ "\n"
  let journal := s.journal.noteAll s.machine.statistics.entries
  match result with
  | .ok frames => { output, journal := journal.note (.finished frames) }
  | .error fault =>
      { status := 1
        output
        journal := journal.note (.halted fault s.machine.pc)
        complaint :=
          let address := Hex.literal 3 s.machine.pc.toNat
          Text.failure s!"execution halted at {address}: {fault.message}" [] }

end Report

namespace Options

def openingEntries (o : Options) (image : Image) (schedule : Schedule) : List Entry :=
  [.imageLoaded image.size, .reset] ++ o.keys.map (fun key => .keyState key true) ++
    [.running o.rom schedule.stepsPerFrame o.frames.toNat]

/-- A machine with the program loaded and the keys held, about to be run. The
random bytes are those of the seed, if there is one, else those of `chance`. -/
def start (o : Options) (chance : RandomTape) (contents : Except FileError Image)
    (level : Option Level) : Except LoadError Session := do
  let image ← contents.mapError (.unreadable o.rom)
  let random := (o.seed.map RandomTape.ofSeed).getD chance
  let machine ← Machine.load image { config := o.config, random }
  let schedule := Schedule.ofRate o.instructionsPerSecond
  return {
    machine := o.keys.foldl (fun m key => m.setKey key.toByte true) machine
    schedule
    journal := Journal.noteAll (o.openingEntries image schedule) { level } }

def run (o : Options) (chance : RandomTape) (contents : Except FileError Image)
    (level : Option Level) : Report :=
  match o.start chance contents level with
  | .error cause => .ofLoadError o.rom cause
  | .ok session =>
      let (result, session) := session.run o.frames.toNat
      .ofRun result session

end Options

end CommandLine

end Chip8
