namespace Chip8

/-- The two counters that run down sixty times a second. -/
structure Timers where
  delay : UInt8 := 0
  sound : UInt8 := 0
  deriving DecidableEq

namespace Timers

/-- One less, and never below zero. -/
def countDown (t : UInt8) : UInt8 := if t = 0 then 0 else t - 1

def tick (t : Timers) : Timers :=
  { delay := countDown t.delay, sound := countDown t.sound }

/-- A tone sounds while the sound counter runs. -/
def toneActive (t : Timers) : Bool := 0 < t.sound

end Timers

end Chip8
