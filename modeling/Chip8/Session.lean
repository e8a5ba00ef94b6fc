import Chip8.Journal
import Chip8.Machine.Step
import Chip8.Schedule

namespace Chip8

/-- What the next step of a machine notes down. -/
def Machine.stepEntries (m : Machine) : List Entry :=
  if m.running then
    match m.nextWord with
    | .error _ => []
    | .ok w =>
      match Instruction.decode w with
      | .unknown _ =>
          if m.config.strict then [.dispatched w] else [.dispatched w, .ignoring w]
      | _ => [.dispatched w]
  else []

/-- A machine that is run frame by frame, with the journal of its run. -/
structure Session where
  machine : Machine
  schedule : Schedule
  journal : Journal := {}

namespace Session

def step (s : Session) : Except Fault Outcome × Session :=
  let journal :=
    if s.journal.keeps .trace then s.journal.noteAll s.machine.stepEntries else s.journal
  let (result, machine) := s.machine.step
  (result, { s with machine, journal })

/-- Up to `n` steps of a frame, ended by a fault or an idle machine. -/
def steps (n : Nat) (summary : FrameSummary) (s : Session) :
    Except Fault FrameSummary × Session :=
  match n with
  | 0 => (.ok summary, s)
  | n + 1 =>
    match s.step with
    | (.error fault, s) => (.error fault, s)
    | (.ok .idle, s) => (.ok summary, s)
    | (.ok .executed, s) =>
        steps n { summary with executed := summary.executed + 1 } s
    | (.ok .waitingForKey, s) =>
        steps n { summary with keyWaits := summary.keyWaits + 1 } s

/-- Tick the timers and note whether the tone has started or ended. -/
def endFrame (s : Session) : Session :=
  let machine := s.machine.tick
  let active := machine.timers.toneActive
  if active = s.schedule.toneActive then { s with machine }
  else
    { machine
      schedule := { s.schedule with toneActive := active }
      journal := s.journal.note (.tone active) }

/-- One frame: its steps and then one tick. A fault ends it without a tick. -/
def frame (s : Session) : Except Fault FrameSummary × Session :=
  match s.steps s.schedule.stepsPerFrame {} with
  | (.error fault, s) => (.error fault, s)
  | (.ok summary, s) => (.ok summary, s.endFrame)

def present (s : Session) : Session := { s with machine := s.machine.present }

/-- Up to `n` frames after the `done` first, each presented. The run ends early
after a frame that leaves nothing to run, and in a frame with a fault. -/
def runFrom (n done : Nat) (s : Session) : Except Fault Nat × Session :=
  match n with
  | 0 => (.ok done, s)
  | n + 1 =>
    match s.frame with
    | (.error fault, s) => (.error fault, s)
    | (.ok _, s) =>
        let s := s.present
        if s.machine.running then runFrom n (done + 1) s else (.ok (done + 1), s)

/-- Run a number of frames. The result counts those that were run. -/
def run (frames : Nat) (s : Session) : Except Fault Nat × Session :=
  s.runFrom frames 0

end Session

end Chip8
