import Chip8.Machine.Execute

namespace Chip8

inductive Outcome where
  /-- Nothing, for want of a program or because of a pause. -/
  | idle
  | executed
  /-- The instruction found no key and will be tried again. -/
  | waitingForKey
  deriving DecidableEq

namespace Machine

def nextWord (m : Machine) : Except Fault Word := m.memory.readWord m.pc

def fetch : Action Machine Word := do
  let m ← get
  let w ← Action.ofExcept m.nextWord
  set { m with pc := m.pc + 2 }
  return w

def dispatch : Action Machine Word := do
  let w ← fetch
  execute (.decode w)
  return w

def count (w : Word) (m : Machine) : Machine :=
  { m with statistics := m.statistics.record (.ofWord w) }

/-- Run one instruction. After a fault the program counter is on the faulting
instruction again. -/
def step (m : Machine) : Except Fault Outcome × Machine :=
  if m.running then
    match dispatch.run { m with waiting := false } with
    | .error fault next => (.error fault, { next with pc := m.pc })
    | .ok w next =>
        let next := next.count w
        if next.waiting then
          (.ok .waitingForKey, { next with statistics := next.statistics.recordKeyWait })
        else (.ok .executed, next)
  else (.ok .idle, m)

/-- How often each outcome came up in a row of steps, and the fault that ended
it, if one did. -/
structure Tally where
  executed : Nat := 0
  waiting : Nat := 0
  idle : Nat := 0
  fault : Option Fault := none

def Tally.add (t : Tally) : Outcome → Tally
  | .idle => { t with idle := t.idle + 1 }
  | .executed => { t with executed := t.executed + 1 }
  | .waitingForKey => { t with waiting := t.waiting + 1 }

/-- Up to `n` steps, ended by the first fault. -/
def steps (n : Nat) (t : Tally) (m : Machine) : Tally × Machine :=
  match n with
  | 0 => (t, m)
  | n + 1 =>
    match m.step with
    | (.error fault, m) => ({ t with fault := some fault }, m)
    | (.ok outcome, m) => steps n (t.add outcome) m

/-- The results of up to `n` steps, ended by the first fault, with the machine
after each. -/
def trace (n : Nat) (m : Machine) : List (Except Fault Outcome × Machine) :=
  match n with
  | 0 => []
  | n + 1 =>
    match m.step with
    | (.error fault, m) => [(.error fault, m)]
    | (.ok outcome, m) => (.ok outcome, m) :: m.trace n

end Machine

end Chip8
