import Chip8.Fault
import Chip8.Instruction
import Chip8.Keypad

namespace Chip8

/-- How important an entry of a journal is. -/
inductive Level where
  | error | warn | info | debug | trace
  deriving DecidableEq

namespace Level

def all : List Level := [error, warn, info, debug, trace]

/-- A level includes those of a lower rank. -/
def rank : Level → Nat
  | error => 0
  | warn => 1
  | info => 2
  | debug => 3
  | trace => 4

def name : Level → String
  | error => "error"
  | warn => "warn"
  | info => "info"
  | debug => "debug"
  | trace => "trace"

def label : Level → String
  | error => "ERROR"
  | warn => "WARN"
  | info => "INFO"
  | debug => "DEBUG"
  | trace => "TRACE"

def ofName? (s : String) : Option Level := all.find? (·.name == s)

end Level

/-- What a run notes down. -/
inductive Entry where
  | imageLoaded (length : Nat)
  | reset
  | keyState (key : Key) (held : Bool)
  | dispatched (word : Word)
  | ignoring (word : Word)
  | running (rom : String) (stepsPerFrame frames : Nat)
  | tone (active : Bool)
  | executed (family : Family) (count : Nat)
  | summary (total keyWaits ignored : Nat)
  | finished (frames : Nat)
  | halted (fault : Fault) (pc : UInt16)
  deriving DecidableEq

namespace Entry

def level : Entry → Level
  | imageLoaded _ | reset => .debug
  | keyState _ _ | dispatched _ | ignoring _ => .trace
  | running _ _ _ | tone _ | executed _ _ | summary _ _ _ | finished _ => .info
  | halted _ _ => .warn

def field (name value : String) : String := name ++ ": " ++ value

def parts : Entry → List String
  | imageLoaded length => ["loaded program image", field "len" s!"{length}"]
  | reset => ["reset"]
  | keyState key held => ["key state", field "key" s!"{key.val}", field "held" s!"{held}"]
  | dispatched w =>
      ["generate_event " ++ field "opcode" (Family.ofWord w).name,
        field "word" (Hex.literal 4 w.toNat)]
  | ignoring w => ["ignoring unknown instruction", field "word" (Hex.literal 4 w.toNat)]
  | running rom stepsPerFrame frames =>
      ["running", field "rom" rom, field "steps_per_frame" s!"{stepsPerFrame}",
        field "frames" s!"{frames}"]
  | tone active => [if active then "tone on" else "tone off"]
  | executed family count =>
      ["executed", field "opcode" family.name, field "count" s!"{count}"]
  | summary total keyWaits ignored =>
      ["execution summary", field "total" s!"{total}",
        field "key_wait_spins" s!"{keyWaits}", field "ignored" s!"{ignored}"]
  | finished frames => ["finished", field "frames" s!"{frames}"]
  | halted fault pc =>
      ["execution halted", field "err" fault.message, field "pc" s!"{pc.toNat}"]

def line (e : Entry) : String :=
  e.level.label ++ " " ++ " | ".intercalate e.parts

end Entry

/-- The entries noted so far, up to a level; without a level none is kept. -/
structure Journal where
  level : Option Level := none
  entries : Array Entry := #[]

namespace Journal

def keeps (l : Level) (j : Journal) : Bool :=
  j.level.any fun limit => l.rank ≤ limit.rank

/-- Note an entry, if its level is kept. -/
def note (e : Entry) (j : Journal) : Journal :=
  if j.keeps e.level then { j with entries := j.entries.push e } else j

def noteAll (es : List Entry) (j : Journal) : Journal :=
  es.foldl (fun j e => j.note e) j

end Journal

end Chip8
