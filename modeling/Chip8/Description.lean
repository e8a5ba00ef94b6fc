import Chip8.Machine.State
import Chip8.Schedule
import Chip8.Text.Record

namespace Chip8

open Text

private def numbers (values : List Nat) : String :=
  list (values.map fun n => s!"{n}")

private def flags (values : List Bool) : String :=
  list (values.map fun b => s!"{b}")

def Config.describe (c : Config) : String :=
  record "EngineConfig"
    [item "strict" s!"{c.strict}", item "shift_quirk" c.shift.label,
      item "sprite_mode" c.sprite.label]

def Framebuffer.describeAs (name : String) (fb : Framebuffer) : String :=
  record name [item "lit" s!"{fb.litCount}", item "dirty" s!"{fb.dirty}"]

def Framebuffer.describeSnapshot (fb : Framebuffer) : String :=
  fb.describeAs "DisplaySnapshot"

def Schedule.describe (s : Schedule) : String :=
  record "FrameScheduler"
    [item "steps_per_frame" s!"{s.stepsPerFrame}", item "tone_active" s!"{s.toneActive}"]

namespace Machine

def describeRegisters (m : Machine) : String :=
  record "Registers"
    [item "pc" s!"{m.pc.toNat}", item "sp" s!"{m.stack.sp.toNat}",
      item "i" s!"{m.index.toNat}", item "v" (numbers (m.v.toList.map UInt8.toNat))]

def describe (m : Machine) : String :=
  record "Interpreter"
    [item "config" m.config.describe,
      item "memory" (record "Memory"
        [item "size" "4096", item "strict" s!"{m.memory.strict}", ".."]),
      item "stack" (record "CallStack"
        [item "entries" (numbers (m.stack.entries.toList.map UInt16.toNat)),
          item "strict" s!"{m.stack.strict}"]),
      item "registers" m.describeRegisters,
      item "display" (m.display.describeAs "Framebuffer"),
      item "timers" (record "Timers"
        [item "delay" s!"{m.timers.delay.toNat}", item "sound" s!"{m.timers.sound.toNat}"]),
      item "keypad" (record "Keypad" [item "held" (flags m.keypad.held.toList)]),
      item "stats" (record "ExecutionStats"
        [item "executed" (numbers m.statistics.executed.toList),
          item "key_wait_spins" s!"{m.statistics.keyWaits}",
          item "ignored" s!"{m.statistics.ignored}"]),
      item "waiting_for_key" s!"{m.waiting}",
      item "loaded" s!"{m.loaded}",
      item "paused" s!"{m.paused}"]

end Machine

end Chip8
