namespace Chip8

/-- How steps are grouped into frames, and whether the tone was last reported
to sound. -/
structure Schedule where
  stepsPerFrame : Nat
  toneActive : Bool := false
  deriving DecidableEq

namespace Schedule

def frameRate : Nat := 60

/-- The length of a frame in nanoseconds, rounded down. -/
def frameNanos : Nat := 1000000000 / frameRate

/-- The schedule of a number of instructions a second, with at least one step
in a frame. -/
def ofRate (instructionsPerSecond : UInt32) : Schedule :=
  { stepsPerFrame := max (instructionsPerSecond.toNat / frameRate) 1 }

end Schedule

structure FrameSummary where
  executed : Nat := 0
  keyWaits : Nat := 0
  deriving DecidableEq

end Chip8
