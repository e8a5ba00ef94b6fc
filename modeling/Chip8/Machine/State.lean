import Chip8.CallStack
import Chip8.Framebuffer
import Chip8.Keypad
import Chip8.Memory
import Chip8.Random.Tape
import Chip8.Registers
import Chip8.Statistics
import Chip8.Timers

namespace Chip8

/-- A machine: its settings, what a program can see and change, and what is
kept about its run. A new machine holds the font and no program. -/
structure Machine where
  config : Config
  random : RandomTape
  memory : Memory := .factory config.strict
  stack : CallStack := { strict := config.strict }
  pc : UInt16 := Address.reset.toWord
  /-- The index register, which points into memory. -/
  index : UInt16 := 0
  v : Registers := .zero
  display : Framebuffer := .clear
  timers : Timers := {}
  keypad : Keypad := {}
  statistics : Statistics := {}
  waiting : Bool := false
  loaded : Bool := false
  paused : Bool := false

namespace Machine

/-- Start over: registers, stack, display and timers as in a new machine. The
program is kept, and a pause ends. -/
def reset (m : Machine) : Machine :=
  { m with
    stack := m.stack.clear
    pc := Address.reset.toWord
    index := 0
    v := .zero
    display := .clear
    timers := {}
    waiting := false
    paused := false }

def load (image : Image) (m : Machine) : Except LoadError Machine := do
  let memory ← m.memory.load image
  return reset { m with memory, loaded := true }

def loadFile (path : String) (contents : Except FileError Image) (m : Machine) :
    Except LoadError Machine :=
  match contents with
  | .error cause => .error (.unreadable path cause)
  | .ok image => m.load image

/-- Erase all memory, the font too, and all counts, and start over with no
program. -/
def stop (m : Machine) : Machine :=
  reset { m with memory := m.memory.clear, loaded := false, statistics := {} }

def pause (m : Machine) : Machine := { m with paused := true }

def resume (m : Machine) : Machine := { m with paused := false }

def togglePause (m : Machine) : Machine :=
  if m.paused then m.resume else m.pause

def tick (m : Machine) : Machine := { m with timers := m.timers.tick }

/-- Note whether the key of the low nibble of a byte is held. -/
def setKey (key : UInt8) (held : Bool) (m : Machine) : Machine :=
  { m with keypad := m.keypad.set (Key.ofByte key) held }

def present (m : Machine) : Machine := { m with display := m.display.present }

/-- A step does something only with a program and without a pause. -/
def running (m : Machine) : Bool := m.loaded && !m.paused

end Machine

end Chip8
