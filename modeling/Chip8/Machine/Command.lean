import Chip8.Machine.Step

namespace Chip8

/-- What a host can do with a machine. -/
inductive Command where
  | load (image : Image)
  | step
  | tick
  | key (key : UInt8) (held : Bool)
  | reset
  | stop
  | pause
  | resume
  | toggle
  | present

inductive Response where
  | done
  | refused (cause : LoadError)
  | stepped (outcome : Outcome)
  | failed (fault : Fault)
  deriving DecidableEq

namespace Command

/-- The answer to a command and the machine after it. A command that is refused
leaves the machine as it is. -/
def apply (c : Command) (m : Machine) : Response × Machine :=
  match c with
  | load image =>
      match m.load image with
      | .error cause => (.refused cause, m)
      | .ok m => (.done, m)
  | step =>
      match m.step with
      | (.error fault, m) => (.failed fault, m)
      | (.ok outcome, m) => (.stepped outcome, m)
  | tick => (.done, m.tick)
  | key k held => (.done, m.setKey k held)
  | reset => (.done, m.reset)
  | stop => (.done, m.stop)
  | pause => (.done, m.pause)
  | resume => (.done, m.resume)
  | toggle => (.done, m.togglePause)
  | present => (.done, m.present)

/-- The answers to a history of commands and the machine after it. -/
def run (history : List Command) (m : Machine) : List Response × Machine :=
  match history with
  | [] => ([], m)
  | c :: rest =>
      let (response, m) := c.apply m
      let (responses, m) := run rest m
      (response :: responses, m)

end Command

/-- The machines that a host can bring about from a new one. -/
def Machine.Reachable (m : Machine) : Prop :=
  ∃ config random history, m = (Command.run history { config, random }).2

end Chip8
